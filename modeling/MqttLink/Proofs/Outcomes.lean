import MqttLink.Proofs.LikeRuns

/-!
What callbacks and handlers come back with leaves no trace. Main statement: runs that differ in
nothing but outcomes have, after every step, the same tables, the same client and the same calls
behind them, and the same answers too if the outcomes differ by no more than what is swallowed.
-/

namespace MqttLink

/-- Outcomes may differ; if `exact`, then only by faults that are swallowed. -/
def Licence.outcomes (exact : Bool) : Licence where
  exact := exact
  full := false
  password := Eq
  payload := Eq
  exact_of_full h := by cases h
  size_eq h := by rw [h]

/-- Calls of the same callback, its outcome aside, or of the same handler, with the same
arguments. -/
inductive Occurrence.SameCall (exact : Bool) : Occurrence → Occurrence → Prop
  | same (o : Occurrence) : SameCall exact o o
  | invoked (id : PacketId) {c c' : Callback} (same : Reaction.Like (.outcomes exact) c c')
      (resolution : Resolution) (v v' : View) :
      SameCall exact (.invoked id c resolution v) (.invoked id c' resolution v')

namespace Session

/-- The calls of callbacks and handlers, the latest first. -/
def told (s : Session) : List Occurrence :=
  s.journal.filter (·.isCall)

/-- What sessions have in common that differ in outcomes. The operations that wait are the same, and
so are their callbacks, outcomes aside. -/
structure SameState (exact : Bool) (s t : Session) : Prop where
  pending : ∀ id : PacketId, Option.Rel (Option.Rel (Reaction.Like (.outcomes exact)))
    s.ledger.pending[id]? t.ledger.pending[id]?
  early : t.ledger.early = s.ledger.early
  pool : t.client.pool = s.client.pool
  queuedIds : t.client.queuedIds = s.client.queuedIds
  replies : t.client.replies = s.client.replies
  record : t.client.record = s.client.record
  looping : t.client.looping = s.client.looping
  told : List.Forall₂ (Occurrence.SameCall exact) s.told t.told

structure Stage.SameState (exact : Bool) (d e : Stage) : Prop where
  after : d.after.SameState exact e.after
  answer : exact → e.answer = d.answer

variable {exact : Bool}

theorem eq_of_callLike {call call' : Call} (h : call.Like (.outcomes exact) call') :
    call' = call := by
  cases h with
  | same _ => rfl
  | setCredentials username password =>
    cases password
    rfl
  | publish topic payload qos =>
    cases payload
    rfl

theorem eq_of_signalLike {x x' : Signal} (h : x.Like (.outcomes exact) x') : x' = x := by
  cases h with
  | same _ => rfl
  | message topic payload qos retain id =>
    cases payload
    rfl

theorem sameCall_of_like {o o' : Occurrence} (ho : o.isCall ∧ o.Like (.outcomes exact) o') :
    o.SameCall exact o' := by
  obtain ⟨hcall, h⟩ := ho
  cases h with
  | same _ => exact .same _
  | invoked id same resolution view => exact .invoked id same resolution _ _
  | handled same label =>
    rw [eq_of_signalLike same]
    exact .same _
  | tracked _ _ | displaced _ _ | handlerSet _ _ => cases hcall

theorem sameState_of_like {s t : Session} (h : s.Like (.outcomes exact) t) :
    s.SameState exact t where
  pending := h.ledger.pending
  early := h.ledger.early
  pool := h.client.pool
  queuedIds := h.client.queuedIds
  replies := h.client.replies
  record := by
    have hrecord := h.client.record.flip.imp fun _ _ hcall => eq_of_callLike hcall
    exact List.forall₂_eq_eq_eq ▸ hrecord
  looping := h.client.looping
  told := by
    have hcalls : ∀ o ∈ s.told, o.isCall := fun o ho => (List.mem_filter.mp ho).2
    exact ((List.forall₂_and_left _ _).mpr ⟨hcalls, h.journal⟩).imp fun _ _ => sameCall_of_like

/-- Take two runs of the same steps that cancel in the same order, where callbacks and handlers run
the same steps, none of which hangs on the outcome of an earlier one, but may come back differently.
If the first comes to its end, so does the second: after every step both have the same tables, the
same free identifiers, replies and record, the same loop, and have called the same callbacks and
handlers with the same arguments. If besides a fatal fault comes back only where the other run has
the same, every step answers the same. -/
theorem performEach_outcomes {xs ys : List Step}
    (hsteps : List.Forall₂ (Step.Like (.outcomes exact)) xs ys)
    {order order' : VisitOrder Callback} (horder : order.Same order') {settings : Settings}
    {depth : Nat} {ds : List Stage} {s' : Session}
    (h : performEach depth xs (opened settings order) = some (ds, s')) :
    ∃ es t', performEach depth ys (opened settings order') = some (es, t') ∧
      List.Forall₂ (Stage.SameState exact) ds es := by
  obtain ⟨es, t', hys, hstages⟩ := like_performEach hsteps (like_opened horder settings) h
  exact ⟨es, t', hys, hstages.imp fun _ _ hlike =>
    ⟨sameState_of_like hlike.after, fun hexact => (hlike.answer hexact).symm⟩⟩

/-- A callback that settles another operation comes back well in one run, fatally in the other. -/
theorem performEach_outcomes_fatal :
    ∃ ds s' es t',
      performEach 3 [.track 1 (some ⟨"c", [.settle 2], .ok (), false⟩), .settle 1]
        (opened {} (.ascending _)) = some (ds, s') ∧
      performEach 3 [.track 1 (some ⟨"c", [.settle 2], .error (.fatal ⟨"f"⟩), false⟩), .settle 1]
        (opened {} (.ascending _)) = some (es, t') ∧
      List.Forall₂ (Stage.SameState false) ds es := by
  have hsteps : List.Forall₂ (Step.Like (.outcomes false))
      [.track 1 (some ⟨"c", [.settle 2], .ok (), false⟩), .settle 1]
      [.track 1 (some ⟨"c", [.settle 2], .error (.fatal ⟨"f"⟩), false⟩), .settle 1] := by
    refine .cons (.track 1 (.some ?_)) (.cons (.plain _ rfl) .nil)
    exact .intro "c" false (.cons (.plain _ rfl) .nil) (fun h => by cases h)
      (Licence.sameOutcome_of_not_exact (fun h => by cases h) _ _)
  have hrun : ∃ ds s', performEach 3
      [.track 1 (some ⟨"c", [.settle 2], .ok (), false⟩), .settle 1]
      (opened {} (.ascending _)) = some (ds, s') := ⟨_, _, rfl⟩
  obtain ⟨ds, s', hds⟩ := hrun
  have horder : (VisitOrder.ascending Callback).Same (.ascending Callback) := fun _ _ _ h => h
  obtain ⟨es, t', hes, hsame⟩ := performEach_outcomes hsteps horder hds
  exact ⟨ds, s', es, t', hds, hes, hsame⟩

end Session

end MqttLink
