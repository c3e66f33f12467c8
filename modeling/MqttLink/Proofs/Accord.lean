import MqttLink.Proofs.Ending

/-!
Sessions in accord. Two sessions are in accord, in a sense that is left open, if they have the same
ledger, go through abandoned batches in the same order, and are in accord again after the same work
on their ledgers. Main statement: steps about the ledger, however deep they are nested, give the
same answers in sessions that are in accord and leave such sessions behind.
-/

namespace MqttLink

/-- The ledgers that one piece of work leaves. -/
inductive Ledger.Worked {κ : Type} (l : Ledger κ) : Ledger κ → Prop
  | track (id : PacketId) (callback : Option κ) : Worked l (l.track id callback).2
  | settle (id : PacketId) : Worked l (l.settle id).2
  | abandon : Worked l {}

/-- Entries that tell what becomes of the handlers of a link. -/
def Occurrence.setsHandlers : Occurrence → Bool
  | handlerSet _ _ | handlersCleared => true
  | _ => false

namespace Session

open Play

variable {α β : Type}

/-- What it takes for sessions that are in accord in the sense of `T` to be so again after work on
the ledger, which leaves the handlers as they are. -/
structure Accord (T : Session → Session → Prop) : Prop where
  ledger : ∀ ⦃s t⦄, T s t → t.ledger = s.ledger
  owned : ∀ ⦃s t⦄, T s t → t.owned = s.owned
  order : ∀ ⦃s t⦄, T s t → t.order = s.order
  sweeps : ∀ ⦃s t⦄, T s t → t.sweeps = s.sweeps
  noted : ∀ ⦃s t⦄, T s t → ∀ ⦃o⦄, o.setsHandlers = false → T (s.noted o) (t.noted o)
  called : ∀ ⦃s t⦄, T s t → ∀ id c resolution,
    T (s.noted (.invoked id c resolution s.view)) (t.noted (.invoked id c resolution t.view))
  worked : ∀ ⦃s t⦄, T s t → ∀ l, s.ledger.Worked l → T (s.withLedger l) (t.withLedger l)
  swept : ∀ ⦃s t⦄, T s t →
    T { s with sweeps := s.sweeps + 1 } { t with sweeps := t.sweeps + 1 }
  held : ∀ ⦃s t⦄, T s t → ∀ f : Nat → Nat,
    T { s with holders := f s.holders } { t with holders := f t.holders }

/-- A session is in accord with itself. -/
theorem accord_eq : Accord Eq where
  ledger _ _ h := h ▸ rfl
  owned _ _ h := h ▸ rfl
  order _ _ h := h ▸ rfl
  sweeps _ _ h := h ▸ rfl
  noted _ _ h _ _ := h ▸ rfl
  called _ _ h _ _ _ := h ▸ rfl
  worked _ _ h _ _ := h ▸ rfl
  swept _ _ h := h ▸ rfl
  held _ _ h _ := h ▸ rfl

/-- What `x` does in one of two sessions in accord, `y` does in the other. -/
def Accords (T : Session → Session → Prop) (x y : Play α) : Prop :=
  ∀ ⦃s t r s'⦄, T s t → x s = some (r, s') → ∃ t', y t = some (r, t') ∧ T s' t'

/-! ## Plays -/

variable {T : Session → Session → Prop}

theorem accords_pure (r : α) : Accords T (pure r) (pure r) := by
  intro s t r' s' h hx
  cases hx
  exact ⟨t, rfl, h⟩

theorem accords_none (y : Play α) : Accords T (fun _ => none) y :=
  fun _ _ _ _ _ hx => by cases hx

theorem accords_bind {x y : Play α} {f g : α → Play β} (hx : Accords T x y)
    (hf : ∀ r, Accords T (f r) (g r)) : Accords T (x >>= f) (y >>= g) := by
  intro s t r s'' h hxf
  obtain ⟨q, s', hxs, hfs⟩ := bind_eq_some_iff.mp hxf
  obtain ⟨t', hyt, h'⟩ := hx h hxs
  obtain ⟨t'', hgt, h''⟩ := hf q h' hfs
  exact ⟨t'', bind_eq_some_iff.mpr ⟨q, t', hyt, hgt⟩, h''⟩

theorem accords_get {f g : Session → Play α} (h : ∀ s t, T s t → Accords T (f s) (g t)) :
    Accords T (get >>= f) (get >>= g) :=
  fun s t _ _ hst hx => h s t hst hst hx

theorem accords_modify {f g : Session → Session} (h : ∀ s t, T s t → T (f s) (g t)) :
    Accords T (modify f : Play Unit) (modify g) := by
  intro s t r s' hst hx
  cases hx
  exact ⟨g t, rfl, h s t hst⟩

theorem accords_answeringFatal {x y : Play (Except Fatal Unit)} (h : Accords T x y) :
    Accords T (answeringFatal x) (answeringFatal y) :=
  accords_bind h fun _ => accords_pure _

namespace Accord

variable (hT : Accord T)
include hT

theorem accords_note {o : Occurrence} (ho : o.setsHandlers = false) :
    Accords T (note o) (note o) :=
  accords_modify fun _ _ h => hT.noted h ho

theorem accords_onLedger {f : Ledger Callback → α × Ledger Callback}
    (hf : ∀ l : Ledger Callback, l.Worked (f l).2) : Accords T (onLedger f) (onLedger f) := by
  intro s t r s' h hx
  cases hx
  refine ⟨t.withLedger (f s.ledger).2, ?_, hT.worked h _ (hf s.ledger)⟩
  rw [onLedger_apply, hT.ledger h]

theorem accords_nextOrder : Accords T nextOrder nextOrder := by
  intro s t r s' h hx
  cases hx
  refine ⟨{ t with sweeps := t.sweeps + 1 }, ?_, hT.swept h⟩
  rw [← hT.order h, ← hT.sweeps h]
  rfl

theorem accords_holding {x y : Play α} (h : Accords T x y) : Accords T (holding x) (holding y) :=
  accords_bind (accords_modify fun _ _ h => hT.held h (· + 1)) fun _ =>
    accords_bind h fun _ =>
    accords_bind (accords_modify fun _ _ h => hT.held h (· - 1)) fun _ => accords_pure _

theorem accords_withLink {x y : Play Answer} (h : Accords T x y) :
    Accords T (withLink x) (withLink y) := by
  refine accords_get fun s t hst => ?_
  rw [hT.owned hst]
  split
  · exact hT.accords_holding h
  · exact accords_pure _

theorem accords_sweeping {x y : Play α} (h : Accords T x y) :
    Accords T (sweeping x) (sweeping y) :=
  accords_bind (hT.accords_note rfl) fun _ => accords_bind h fun _ =>
    accords_bind (hT.accords_note rfl) fun _ => accords_pure _

theorem accords_contain (source : Source) (outcome : Outcome) :
    Accords T (contain source outcome) (contain source outcome) := by
  match outcome with
  | .ok () => exact accords_pure _
  | .error (.recoverable _) => exact accords_bind (hT.accords_note rfl) fun _ => accords_pure _
  | .error (.fatal _) => exact accords_pure _

section

variable {run run' : Runner} (hrun : ∀ step, Accords T (run step) (run' step))
include hrun

/-! ## Calling -/

theorem accords_runSteps (stopsOnFault : Bool) (steps : List Step) :
    Accords T (runSteps run stopsOnFault steps) (runSteps run' stopsOnFault steps) := by
  induction steps with
  | nil => exact accords_pure _
  | cons step rest ih =>
    refine accords_bind (hrun step) fun answer => accords_bind (hT.accords_note rfl) fun _ => ?_
    split
    · split
      · exact accords_pure _
      · exact ih
    · exact ih

theorem accords_react (c : Callback) : Accords T (react run c) (react run' c) := by
  refine accords_bind (hT.accords_runSteps hrun _ _) fun fault => ?_
  cases fault <;> exact accords_pure _

theorem accords_invoke (id : PacketId) (resolution : Resolution) (c : Callback) :
    Accords T (invoke run id resolution c) (invoke run' id resolution c) := by
  have hcall : Accords T (do contain .callback (← react run c))
      (do contain .callback (← react run' c)) :=
    accords_bind (hT.accords_react hrun c) fun _ => hT.accords_contain _ _
  intro s t r s' hst hx
  rw [invoke_apply] at hx ⊢
  exact hcall (hT.called hst id c resolution) hx

theorem accords_invoke? (id : PacketId) (resolution : Resolution) (callback : Option Callback) :
    Accords T (invoke? run id resolution callback) (invoke? run' id resolution callback) := by
  cases callback with
  | none => exact accords_pure _
  | some c => exact hT.accords_invoke hrun id resolution c

/-! ## Work on the ledger -/

theorem accords_track (id : PacketId) (callback : Option Callback) :
    Accords T (track run id callback) (track run' id callback) := by
  refine accords_bind (hT.accords_note rfl) fun _ =>
    accords_bind (hT.accords_onLedger fun _ => .track id callback) fun entered => ?_
  match entered with
  | .acknowledged =>
    exact accords_bind (hT.accords_note rfl) fun _ => hT.accords_invoke? hrun _ _ _
  | .waiting (some _) =>
    exact accords_bind (hT.accords_note rfl) fun _ =>
      accords_bind (hT.accords_note rfl) fun _ => accords_pure _
  | .waiting none => exact accords_bind (hT.accords_note rfl) fun _ => accords_pure _

theorem accords_settle (id : PacketId) : Accords T (settle run id) (settle run' id) := by
  refine accords_bind (hT.accords_onLedger fun _ => .settle id) fun settled => ?_
  match settled with
  | some _ => exact accords_bind (hT.accords_note rfl) fun _ => hT.accords_invoke? hrun _ _ _
  | none => exact accords_bind (hT.accords_note rfl) fun _ => accords_pure _

theorem accords_cancelEach (first : Except Fatal Unit) (batch : List (Ledger.Entry Callback)) :
    Accords T (cancelEach run first batch) (cancelEach run' first batch) := by
  induction batch generalizing first with
  | nil => exact accords_pure _
  | cons e rest ih =>
    match e with
    | (_, none) => exact ih first
    | (id, some c) =>
      refine accords_bind (hT.accords_invoke hrun id .cancelled c) fun r => ?_
      match first, r with
      | .error _, .error _ => exact accords_bind (hT.accords_note rfl) fun _ => ih _
      | .ok _, _ => exact ih _
      | .error _, .ok _ => exact ih _

theorem accords_abandon : Accords T (abandon run) (abandon run') :=
  accords_bind (hT.accords_onLedger fun _ => .abandon) fun _ =>
    accords_bind (hT.accords_note rfl) fun _ =>
    accords_bind hT.accords_nextOrder fun _ => hT.accords_cancelEach hrun _ _

theorem accords_trackAll (callback : Option Callback) (ids : List PacketId) :
    Accords T (trackAll run callback ids) (trackAll run' callback ids) := by
  induction ids with
  | nil => exact accords_pure _
  | cons id rest ih =>
    refine accords_bind (hT.accords_track hrun id callback) fun r => ?_
    cases r with
    | ok _ => exact ih
    | error _ => exact accords_pure _

theorem accords_settleAll (ids : List PacketId) :
    Accords T (settleAll run ids) (settleAll run' ids) := by
  induction ids with
  | nil => exact accords_pure _
  | cons id rest ih =>
    refine accords_bind (hT.accords_settle hrun id) fun r => ?_
    cases r with
    | ok _ => exact ih
    | error _ => exact accords_pure _

theorem accords_perform {step : Step} (hstep : step.aboutLedger) :
    Accords T (perform run step) (perform run' step) := by
  cases step with
  | track id callback =>
    exact hT.accords_withLink (accords_answeringFatal (hT.accords_track hrun id callback))
  | settle id => exact hT.accords_withLink (accords_answeringFatal (hT.accords_settle hrun id))
  | abandon =>
    exact hT.accords_sweeping
      (hT.accords_withLink (accords_answeringFatal (hT.accords_abandon hrun)))
  | trackAll ids callback =>
    exact hT.accords_withLink (accords_answeringFatal (hT.accords_trackAll hrun callback ids))
  | settleAll ids =>
    exact hT.accords_withLink (accords_answeringFatal (hT.accords_settleAll hrun ids))
  | inspect _ | describe =>
    refine hT.accords_withLink (accords_get fun s t hst => ?_)
    rw [hT.ledger hst]
    exact accords_pure _
  | _ => cases hstep

end

end Accord

end Session

end MqttLink
