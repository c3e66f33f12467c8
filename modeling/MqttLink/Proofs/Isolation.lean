import MqttLink.Proofs.Own
import MqttLink.Proofs.Simulation

/-!
Abandoning, and what the callbacks of the batch do meanwhile. They may work on the ledger as they
like, also on operations of the batch that have not been told yet. Main statement: none of this
reaches the batch, whose callbacks are all called, and nothing of the old tables reaches what they
do, so that the tables afterwards are those of their own steps on an empty ledger.
-/

namespace MqttLink.Session

open Play

variable {s t e : Session} {run run' : Runner} {depth : Nat}

/-! ## Batches without what is nested in them -/

/-- From `s` to `t` the same callbacks have been called. -/
def SameCalls (s t : Session) : Prop := t.calls = s.calls

instance : IsPreorder Session SameCalls where
  refl _ := rfl
  trans _ _ _ h k := Eq.trans k h

theorem sameCalls_of_aside ⦃s t : Session⦄ (h : Aside s t) : SameCalls s t :=
  (worked_of_aside h).calls

theorem sameCalls_silently (step : Step) : Within SameCalls (silently run step) := by
  intro s a t h
  obtain ⟨⟨b, u⟩, -, hu⟩ := Option.map_eq_some_iff.mp h
  cases hu
  rfl

theorem calls_invoke (hrun : ∀ step, Within SameCalls (run step)) {id : PacketId}
    {resolution : Resolution} {c : Callback} {r : Except Fatal Unit}
    (h : invoke run id resolution c s = some (r, t)) :
    t.calls = ⟨id, c, resolution⟩ :: s.calls := by
  rw [invoke_apply] at h
  exact within_called (calm_of_aside sameCalls_of_aside) (fun n _ => hrun n) h

/-- A batch calls its own callbacks one after the other, whatever its callbacks do. -/
theorem calls_cancelEach (hrun : ∀ step, Within SameCalls (run step))
    {batch : List (Ledger.Entry Callback)} {first r : Except Fatal Unit}
    (h : cancelEach run first batch s = some (r, t)) :
    t.calls = (batch.flatMap fun e => callOf e.1 .cancelled e.2).reverse ++ s.calls := by
  induction batch generalizing s first with
  | nil =>
    cases h
    rfl
  | cons e rest ih =>
    rw [List.flatMap_cons, List.reverse_append]
    obtain ⟨id, callback⟩ := e
    cases callback with
    | none => simpa [callOf] using ih h
    | some c =>
      obtain ⟨q, u, kept, v, hu, haside, -, hrest⟩ := exists_invoke_of_cancelEach h
      rw [ih hrest, sameCalls_of_aside haside, calls_invoke hrun hu, List.append_assoc]
      rfl

/-- Two sessions that differ only in their journals, where more stands in the first. -/
structure Struck (s t : Session) : Prop where
  ledger : t.ledger = s.ledger
  owned : t.owned = s.owned
  order : t.order = s.order
  sweeps : t.sweeps = s.sweeps
  client : t.client = s.client
  journal : t.journal.Sublist s.journal

theorem struck_refl (s : Session) : Struck s s :=
  ⟨rfl, rfl, rfl, rfl, rfl, List.Sublist.refl _⟩

theorem struck_noted (h : Struck s t) (o : Occurrence) : Struck (s.noted o) (t.noted o) :=
  { h with journal := h.journal.cons_cons o }

theorem accord_struck : Accord Struck where
  ledger _ _ h := h.ledger
  owned _ _ h := h.owned
  order _ _ h := h.order
  sweeps _ _ h := h.sweeps
  noted _ _ h _ _ := struck_noted h _
  called s t h id c resolution := by
    have hview : t.view = s.view := by rw [view, view, h.ledger, h.client]
    rw [hview]
    exact struck_noted h _
  worked _ _ h _ _ := { h with ledger := rfl }
  swept _ _ h := { h with sweeps := congrArg (· + 1) h.sweeps }
  held _ _ h _ := { h with }

theorem accords_silently (depth : Nat) (step : Step) :
    Accords Struck (performAbout depth step) (silently (performTo depth) step) := by
  intro s t a s' h hs
  obtain ⟨t', ht, h'⟩ := accord_struck.accords_performTo depth step h hs
  obtain ⟨_, hplain, rfl⟩ := accord_eq.accords_performTo depth step rfl hs
  obtain ⟨news, hnews⟩ := law_grows.within_performTo depth step hplain
  refine ⟨_, silently_of_eq_some ht, { h' with journal := ?_ }⟩
  rw [hnews]
  exact h.journal.trans (List.sublist_append_right news s.journal)

/-! ## What is nested in a batch -/

/-- Runs what the callbacks of a batch run, in the order of the batch. -/
def runNested (run : Runner) : List (Ledger.Entry Callback) → Play Unit
  | [] => pure ()
  | (_, none) :: rest => runNested run rest
  | (_, some c) :: rest => do
    let _ ← runSteps run c.stopsOnFault c.steps
    runNested run rest

/-- Two sessions in which steps about the ledger do the same to it. -/
structure Paired (s t : Session) : Prop where
  ledger : t.ledger = s.ledger
  owned : t.owned = s.owned
  order : t.order = s.order
  sweeps : t.sweeps = s.sweeps

theorem accord_paired : Accord Paired where
  ledger _ _ h := h.ledger
  owned _ _ h := h.owned
  order _ _ h := h.order
  sweeps _ _ h := h.sweeps
  noted _ _ h _ _ := { h with }
  called _ _ h _ _ _ := { h with }
  worked _ _ h _ _ := { h with ledger := rfl }
  swept _ _ h := { h with sweeps := congrArg (· + 1) h.sweeps }
  held _ _ h _ := { h with }

/-- What a callback runs, when it is called, is all that its call does to the ledger. -/
theorem exists_runSteps_of_invoke (hrun : ∀ step, Accords Paired (run step) (run' step))
    (h : Paired s e) {id : PacketId} {resolution : Resolution} {c : Callback}
    {r : Except Fatal Unit} (hinvoke : invoke run id resolution c s = some (r, t)) :
    ∃ fault e', runSteps run' c.stopsOnFault c.steps e = some (fault, e') ∧ Paired t e' := by
  rw [invoke_apply] at hinvoke
  obtain ⟨outcome, v, hv, hcontain⟩ := bind_eq_some_iff.mp hinvoke
  obtain ⟨fault, u, hu, hv⟩ := bind_eq_some_iff.mp hv
  have hvu : v = u := by
    cases fault <;> cases hv <;> rfl
  obtain ⟨e', he, h'⟩ :=
    accord_paired.accords_runSteps hrun c.stopsOnFault c.steps (s := s.noted _) { h with } hu
  refine ⟨fault, e', he, ?_⟩
  match outcome with
  | .ok () | .error (.recoverable _) | .error (.fatal _) =>
    cases hcontain
    rw [hvu]
    exact { h' with }

theorem exists_runNested (hrun : ∀ step, Accords Paired (run step) (run' step))
    {batch : List (Ledger.Entry Callback)} {first r : Except Fatal Unit} (h : Paired s e)
    (hbatch : cancelEach run first batch s = some (r, t)) :
    ∃ e', runNested run' batch e = some ((), e') ∧ Paired t e' := by
  induction batch generalizing s e first with
  | nil =>
    cases hbatch
    exact ⟨e, rfl, h⟩
  | cons entry rest ih =>
    obtain ⟨id, callback⟩ := entry
    cases callback with
    | none => exact ih h hbatch
    | some c =>
      obtain ⟨q, u, kept, v, hu, haside, hsweeps, hrest⟩ := exists_invoke_of_cancelEach hbatch
      obtain ⟨fault, e₁, he₁, h₁⟩ := exists_runSteps_of_invoke hrun h hu
      have hkeep : Paired v e₁ :=
        ⟨h₁.ledger.trans haside.ledger.symm, h₁.owned.trans haside.owned.symm,
          h₁.order.trans haside.order.symm, h₁.sweeps.trans hsweeps.symm⟩
      obtain ⟨e₂, he₂, h₂⟩ := ih hkeep hrest
      exact ⟨e₂, bind_eq_some_iff.mpr ⟨fault, e₁, he₁, he₂⟩, h₂⟩

/-! ## Main statement -/

/-- Abandoning in a session whose callbacks work on the ledger, however deep they are nested, comes
to its end. When what is nested in it is struck from the journal, the calls that are left, which
stand in the full journal in the same order, are those of the operations that waited, one each, and
they were told that they are cancelled. The ledger afterwards is the one that the steps of these
callbacks leave when they are run in the same order on an empty ledger. -/
theorem abandon_isolated (hs : s.Ready) (hdepth : s.ledger.weight ≤ depth) :
    ∃ r t u, abandon (performTo depth) s = some (r, t) ∧
      abandon (silently (performTo depth)) s = some (r, u) ∧
      u.ledger = t.ledger ∧ u.journal.Sublist t.journal ∧
      u.calls = (s.batch.flatMap fun e => callOf e.1 .cancelled e.2).reverse ++ s.calls ∧
      (s.batch.map (·.1)).Nodup ∧
      (∀ id callback, (id, callback) ∈ s.batch ↔ s.ledger.pending[id]? = some callback) ∧
      ∀ e : Session, e.ledger = {} → e.owned = s.owned → e.order = s.order →
        e.sweeps = s.sweeps + 1 → ∃ e', runNested (performTo depth) s.batch e = some ((), e') ∧
          e'.ledger = t.ledger := by
  obtain ⟨r, t, habout, -, -⟩ := ends_abandon (obliging_performAbout depth) hs hdepth
  obtain ⟨_, ht, rfl⟩ :=
    accord_eq.accords_abandon (accord_eq.accords_performTo depth) rfl habout
  obtain ⟨u, hu, htu⟩ :=
    accord_struck.accords_abandon (accords_silently depth) (struck_refl s) habout
  have hcalls : u.calls =
      (s.batch.flatMap fun e => callOf e.1 .cancelled e.2).reverse ++ s.abandoning.calls :=
    calls_cancelEach (fun step => (sameCalls_silently step)) hu
  refine ⟨r, t, u, ht, hu, htu.ledger, htu.journal, hcalls, s.nodup_ids_batch,
    fun _ _ => mem_batch, fun e hl ho horder hsweeps => ?_⟩
  have hempty : Paired s.abandoning e := ⟨hl, ho, horder, hsweeps⟩
  obtain ⟨e', he', hte⟩ :=
    exists_runNested (accord_paired.accords_performTo depth) hempty habout
  exact ⟨e', he', hte.ledger⟩

/-- Two operations wait, and a third has been acknowledged. The callback of the first acknowledges
the second and hands over another in its place, and one for the acknowledgement. -/
def interfering : Session :=
  let early := (({} : Ledger Callback).settle 3).2
  let first := (early.track 1 (some ⟨"first", [.settle 2, .track 2 none, .track 3 none], .ok (),
    true⟩)).2
  { opened default (.ascending _) with
    ledger := (first.track 2 (some ⟨"second", [.abandon], .ok (), true⟩)).2 }

theorem ready_interfering : interfering.Ready := by
  have hfirst : Reaction.Confined (·.aboutLedger)
      ⟨"first", [.settle 2, .track 2 none, .track 3 none], .ok (), true⟩ := by
    simp only [Reaction.Confined, List.forall_mem_cons]
    exact ⟨.intro _ rfl nofun, .intro _ rfl nofun, .intro _ rfl nofun, nofun⟩
  have hsecond : Reaction.Confined (·.aboutLedger) ⟨"second", [.abandon], .ok (), true⟩ :=
    List.forall_mem_singleton.mpr (.intro _ rfl nofun)
  have hearly : Ledger.All (·.Confined (·.aboutLedger)) (({} : Ledger Callback).settle 3).2 :=
    Ledger.all_settle Ledger.all_empty 3
  exact ⟨rfl, Ledger.all_track (Ledger.all_track hearly 1 fun c hc => by cases hc; exact hfirst) 2
    fun c hc => by cases hc; exact hsecond⟩

theorem weight_interfering : interfering.ledger.weight ≤ 2 := by
  refine Nat.le_trans (Ledger.weight_track_le _ 2 _) (Nat.succ_le_succ ?_)
  refine Nat.le_trans (Ledger.weight_track_le _ 1 _) (Nat.succ_le_succ ?_)
  exact Nat.le_of_eq ((Ledger.weight_settle_of_not_pending (by simp)).trans Ledger.weight_empty)

/-- The tables after the batch are those of the nested steps alone. -/
theorem abandon_isolated_interfering :
    ∃ r t e', abandon (performTo 2) interfering = some (r, t) ∧
      runNested (performTo 2) interfering.batch { opened {} (.ascending _) with sweeps := 1 } =
        some ((), e') ∧ e'.ledger = t.ledger := by
  obtain ⟨r, t, _, ht, -, -, -, -, -, -, hnested⟩ :=
    abandon_isolated ready_interfering weight_interfering
  obtain ⟨e', he', hsame⟩ := hnested { opened {} (.ascending _) with sweeps := 1 } rfl rfl rfl rfl
  exact ⟨r, t, e', ht, he', hsame⟩

end MqttLink.Session
