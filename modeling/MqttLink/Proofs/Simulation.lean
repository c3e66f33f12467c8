import MqttLink.Proofs.Accord
import MqttLink.Proofs.Law

/-!
Callbacks that only work on the ledger do not see the client, nor what was written into the journal
before. Main statement: from two states that differ in nothing else, steps about the ledger give the
same answers, leave the same ledger, and write down the same.
-/

namespace MqttLink

namespace Session

open Play

variable {a b s t : Session}

/-- Runs steps about the ledger, nested at most `depth` deep, and gives up on any other. -/
def performAbout : (depth : Nat) → Step → Play Answer
  | 0, _ => fun _ => none
  | depth + 1, step =>
    if step.aboutLedger then perform (performAbout depth) step else fun _ => none

/-- Just the same happened from `b` to `t` as from `a` to `s`, and none of it to the client. -/
structure Twin (a b s t : Session) : Prop where
  ledger : t.ledger = s.ledger
  owned : t.owned = s.owned
  order : t.order = s.order
  sweeps : t.sweeps = s.sweeps
  left : s.client = a.client
  right : t.client = b.client
  pool : b.client.pool = a.client.pool
  journal : ∃ news, s.journal = news ++ a.journal ∧ t.journal = news ++ b.journal

/-! ## Twins -/

theorem twin_refl (s : Session) : Twin s s s s :=
  ⟨rfl, rfl, rfl, rfl, rfl, rfl, rfl, [], rfl, rfl⟩

theorem twin_noted (h : Twin a b s t) (o : Occurrence) : Twin a b (s.noted o) (t.noted o) := by
  obtain ⟨news, hs, ht⟩ := h.journal
  exact { h with journal := ⟨o :: news, congrArg (o :: ·) hs, congrArg (o :: ·) ht⟩ }

theorem view_of_twin (h : Twin a b s t) : t.view = s.view := by
  rw [view, view, h.ledger, h.right, h.pool, h.left]

theorem accord_twin : Accord (Twin a b) where
  ledger _ _ h := h.ledger
  owned _ _ h := h.owned
  order _ _ h := h.order
  sweeps _ _ h := h.sweeps
  noted _ _ h _ _ := twin_noted h _
  called s t h id c resolution := by
    rw [view_of_twin h]
    exact twin_noted h _
  worked _ _ h _ _ := { h with ledger := rfl }
  swept _ _ h := { h with sweeps := congrArg (· + 1) h.sweeps }
  held _ _ h _ := { h with }

/-- What runs about the ledger in one of two sessions in accord, and comes to its end there, runs
just so in the other. -/
theorem Accord.accords_performTo {T : Session → Session → Prop} (hT : Accord T) (depth : Nat)
    (step : Step) : Accords T (performAbout depth step) (performTo depth step) := by
  induction depth generalizing step with
  | zero => exact accords_none _
  | succ depth ih =>
    unfold performAbout
    split
    next hstep => exact hT.accords_perform ih hstep
    next => exact accords_none _

/-! ## Callbacks that come back -/

theorem obliging_performAbout (depth : Nat) : Obliging depth (performAbout depth) := by
  induction depth with
  | zero =>
    intro _ _ _ _ hw
    omega
  | succ depth ih =>
    intro step s hstep hs hw
    rw [performAbout, if_pos hstep.own]
    exact ends_perform ih hstep hs (Nat.lt_succ_iff.mp hw)

/-- Called in `s` for the operation `id`, the callback comes back with `outcome`, and all that runs
meanwhile is about the ledger. -/
def ComesBack (depth : Nat) (id : PacketId) (callback : Option Callback) (s : Session)
    (outcome : Except Fatal Unit) : Prop :=
  ∃ t, invoke? (performAbout depth) id .completed callback s = some (outcome, t)

/-- A callback that only works on the ledger comes back if those that wait are alike. -/
theorem exists_comesBack {depth : Nat} (id : PacketId) {callback : Option Callback}
    (hc : ∀ c, callback = some c → c.Confined (·.aboutLedger)) (hs : s.Ready)
    (hw : s.ledger.weight + callbackWeight? callback ≤ depth) :
    ∃ outcome, ComesBack depth id callback s outcome := by
  obtain ⟨outcome, t, ht, -, -⟩ := ends_invoke? (obliging_performAbout depth) id .completed hc hs hw
  exact ⟨outcome, t, ht⟩

variable {depth : Nat} {id : PacketId} {callback : Option Callback} {outcome : Except Fatal Unit}

/-- What is written down of a call begins with the call itself. -/
theorem exists_later (h : invoke? (performTo depth) id .completed callback s = some (outcome, t)) :
    ∃ later, ∀ c, callback = some c →
      t.journal = later ++ .invoked id c .completed s.view :: s.journal := by
  cases callback with
  | none => exact ⟨[], nofun⟩
  | some c =>
    rw [invoke?, invoke_apply] at h
    obtain ⟨later, hlater⟩ :=
      within_called (calm_of_aside grows_of_aside) (fun n _ => law_grows.within_performTo depth n) h
    exact ⟨later, fun d hd => by cases hd; exact hlater⟩

/-- A callback that comes back when it is called in `a` does just the same when it is called in a
state that differs from `a` in its client and its journal only. -/
theorem exists_called (h : ComesBack depth id callback a outcome) :
    ∃ later ledger, ∀ b, Twin a b a b → ∃ t,
      invoke? (performTo depth) id .completed callback b = some (outcome, t) ∧
      t.ledger = ledger ∧ t.client = b.client ∧
      ∀ c, callback = some c →
        t.journal = later ++ .invoked id c .completed a.view :: b.journal := by
  obtain ⟨w, hw⟩ := h
  have hcall {b : Session} (hb : Twin a b a b) : ∃ t,
      invoke? (performTo depth) id .completed callback b = some (outcome, t) ∧ Twin a b w t :=
    accord_twin.accords_invoke? (accord_twin.accords_performTo depth) id .completed callback hb hw
  obtain ⟨t, ht, htwin⟩ := hcall (twin_refl a)
  obtain ⟨later, hlater⟩ := exists_later ht
  refine ⟨later, w.ledger, fun b hb => ?_⟩
  obtain ⟨u, hu, hub⟩ := hcall hb
  refine ⟨u, hu, hub.ledger, hub.right, fun c hc => ?_⟩
  obtain ⟨news, hnews, hunews⟩ := hub.journal
  have hwt : w.journal = t.journal := by
    obtain ⟨_, hleft, hright⟩ := htwin.journal
    exact hleft.trans hright.symm
  have hsame : news ++ a.journal =
      (later ++ [.invoked id c .completed a.view]) ++ a.journal := by
    rw [← hnews, hwt, hlater c hc, List.append_assoc, List.singleton_append]
  rw [hunews, List.append_cancel_right hsame, List.append_assoc, List.singleton_append]

end Session

end MqttLink
