import MqttLink.Proofs.Returns
import MqttLink.Proofs.Run

/-!
Callbacks that leave the operations alone. Calling one always comes back and leaves the tables as
they are. Main statements: which callbacks are called, and which tables are left, by tracking,
settling and abandoning when all callbacks are such.
-/

namespace MqttLink

/-- A callback whose steps are no business of any operation. -/
def Reaction.Inert (c : Callback) : Prop :=
  ∀ n ∈ c.steps, n.besides

/-- A callback that was called, the identifier of its operation, and what it was told. -/
structure Invocation where
  id : PacketId
  callback : Callback
  resolution : Resolution

namespace Occurrence

def invocation? : Occurrence → Option Invocation
  | invoked id c resolution _ => some ⟨id, c, resolution⟩
  | _ => none

theorem invocation?_of_quiet {o : Occurrence} (h : o.quiet) : o.invocation? = none := by
  cases o with
  | invoked _ _ _ _ => cases h
  | _ => rfl

end Occurrence

namespace Session

open Play

/-- The callbacks that have been called, the latest first. -/
def calls (s : Session) : List Invocation :=
  s.journal.filterMap (·.invocation?)

/-- The call of a callback, if there is one. -/
def callOf (id : PacketId) (resolution : Resolution) (callback : Option Callback) :
    List Invocation :=
  (callback.map fun c => ⟨id, c, resolution⟩).toList

theorem mem_callOf {id k : PacketId} {c : Callback} {r r' : Resolution}
    {callback : Option Callback} :
    ⟨id, c, r⟩ ∈ callOf k r' callback ↔ id = k ∧ callback = some c ∧ r = r' := by
  cases callback with
  | none => simp [callOf]
  | some d => simp [callOf, eq_comm]

/-- The calls of a batch that is abandoned: each operation that waits hears of it. -/
theorem mem_calls_batch {s : Session} {id : PacketId} {c : Callback} {r : Resolution} :
    ⟨id, c, r⟩ ∈ (s.batch.flatMap fun e => callOf e.1 .cancelled e.2).reverse ↔
      r = .cancelled ∧ s.ledger.pending[id]? = some (some c) := by
  rw [List.mem_reverse, List.mem_flatMap]
  constructor
  · rintro ⟨⟨k, callback⟩, hm, hcall⟩
    obtain ⟨rfl, rfl, rfl⟩ := mem_callOf.mp hcall
    exact ⟨rfl, mem_batch.mp hm⟩
  · rintro ⟨rfl, hp⟩
    exact ⟨(id, some c), mem_batch.mpr hp, mem_callOf.mpr ⟨rfl, rfl, rfl⟩⟩

theorem sublist_ids_calls (r : Resolution) (es : List (Ledger.Entry Callback)) :
    ((es.flatMap fun e => callOf e.1 r e.2).map (·.id)).Sublist (es.map (·.1)) := by
  induction es with
  | nil => exact List.Sublist.refl _
  | cons e rest ih =>
    match e with
    | (_, none) => exact ih.cons _
    | (_, some _) => exact ih.cons_cons _

/-- No identifier comes twice in a batch. -/
theorem nodup_ids_batch (s : Session) : (s.batch.map (·.1)).Nodup := by
  rw [(s.batch_perm.map _).nodup_iff, Std.ExtTreeMap.map_fst_toList_eq_keys]
  exact Std.ExtTreeMap.nodup_keys

theorem nodup_calls_batch (s : Session) :
    ((s.batch.flatMap fun e => callOf e.1 .cancelled e.2).reverse.map (·.id)).Nodup := by
  rw [List.map_reverse, (List.reverse_perm _).nodup_iff]
  exact (sublist_ids_calls .cancelled s.batch).nodup s.nodup_ids_batch

/-- From `s` to `t` the ledger became `l`, the callbacks `news` were called, the latest first, and
the client had no part in it. -/
structure Worked (l : Ledger Callback) (news : List Invocation) (s t : Session) : Prop
    extends Alike s t where
  ledger : t.ledger = l
  pool : t.client.pool = s.client.pool
  calls : t.calls = news ++ s.calls
  accepted : t.accepted = s.accepted

variable {s t u : Session} {l m : Ledger Callback} {news later : List Invocation} {id : PacketId}

theorem worked_of_aside (h : Aside s t) : Worked s.ledger [] s t := by
  obtain ⟨entries, hj, hq⟩ := h.journal
  have hcalls : entries.filterMap (·.invocation?) = [] :=
    List.filterMap_eq_nil_iff.mpr fun o ho => Occurrence.invocation?_of_quiet (hq o ho)
  have haccepted : entries.filterMap (·.accepted?) = [] :=
    List.filterMap_eq_nil_iff.mpr fun o ho => Occurrence.accepted?_of_quiet (hq o ho)
  exact {
    toAlike := h.toAlike
    ledger := h.ledger
    pool := h.pool
    calls := by rw [calls, calls, hj, List.filterMap_append, hcalls]
    accepted := by
      rw [accepted, accepted, hj, List.filterMap_append, haccepted, List.nil_append] }

theorem Worked.trans (h : Worked l news s t) (k : Worked m later t u) :
    Worked m (later ++ news) s u where
  toAlike := h.toAlike.trans k.toAlike
  ledger := k.ledger
  pool := k.pool.trans h.pool
  calls := by rw [k.calls, h.calls, List.append_assoc]
  accepted := k.accepted.trans h.accepted

theorem Worked.noted (h : Worked l news s t) {o : Occurrence} (hi : o.invocation? = none)
    (ha : o.accepted? = none) : Worked l news s (t.noted o) where
  toAlike := h.toAlike.trans (alike_noted t o)
  ledger := h.ledger
  pool := h.pool
  calls := by
    rw [Session.calls, noted_journal, List.filterMap_cons_none hi]
    exact h.calls
  accepted := by
    rw [Session.accepted, noted_journal, List.filterMap_cons_none ha]
    exact h.accepted

/-- Going on without work on the ledger. -/
theorem Worked.then (h : Worked l news s t) (k : Worked t.ledger later t u) :
    Worked l (later ++ news) s u := by
  rw [h.ledger] at k
  exact h.trans k

/-- Going on when nothing has been called yet. -/
theorem Worked.begun (h : Worked l [] s t) (k : Worked t.ledger news t u) : Worked l news s u := by
  have hall := h.then k
  rwa [List.append_nil] at hall

theorem Worked.aside (h : Worked l news s t) (k : Aside t u) : Worked l news s u :=
  h.then (worked_of_aside k)

theorem Worked.of_aside (h : Aside s t) (k : Worked l news t u) : Worked l news s u := by
  have hall := (worked_of_aside h).trans k
  rwa [List.append_nil] at hall

/-! ## Calling -/

section

variable {run : Runner} (hrun : Serving run)
include hrun

theorem exists_runSteps (stopsOnFault : Bool) {steps : List Step} (h : ∀ n ∈ steps, n.besides) :
    ∃ r t, runSteps run stopsOnFault steps s = some (r, t) ∧ Aside s t := by
  induction steps generalizing s with
  | nil => exact ⟨none, s, rfl, Aside.refl s⟩
  | cons n rest ih =>
    obtain ⟨answer, u, hu, hsu⟩ := hrun n (h n (List.mem_cons_self ..)) s
    have hacted : Aside s (u.noted (.acted n.name answer)) := hsu.trans (aside_noted u rfl)
    obtain ⟨r, t, ht, hut⟩ := ih (s := u.noted (.acted n.name answer))
      fun m hm => h m (List.mem_cons_of_mem _ hm)
    rw [runSteps, bind_of_eq_some hu, bind_of_eq_some (note_apply _)]
    cases answer.fault? with
    | none => exact ⟨r, t, ht, hacted.trans hut⟩
    | some f =>
      cases stopsOnFault with
      | true => exact ⟨some f, _, rfl, hacted⟩
      | false => exact ⟨r, t, ht, hacted.trans hut⟩

theorem worked_invoke (id : PacketId) {c : Callback} (h : c.Inert) (resolution : Resolution) :
    ∃ r t, invoke run id resolution c s = some (r, t) ∧
      Worked s.ledger [⟨id, c, resolution⟩] s t := by
  have hcall : Worked s.ledger [⟨id, c, resolution⟩] s
      (s.noted (.invoked id c resolution s.view)) :=
    ⟨alike_noted s _, rfl, rfl, rfl, rfl⟩
  obtain ⟨fault, u, hu, haside⟩ := exists_runSteps
    (s := s.noted (.invoked id c resolution s.view)) hrun c.stopsOnFault h
  obtain ⟨outcome, hreact⟩ : ∃ outcome,
      react run c (s.noted (.invoked id c resolution s.view)) = some (outcome, u) := by
    rw [react, bind_of_eq_some hu]
    cases fault <;> exact ⟨_, rfl⟩
  obtain ⟨r, t, ht, hut⟩ := contain_apply .callback outcome u
  refine ⟨r, t, ?_, (hcall.aside haside).aside hut⟩
  rw [invoke_apply, bind_of_eq_some hreact, ht]

theorem worked_invoke? (id : PacketId) {callback : Option Callback}
    (h : ∀ c, callback = some c → c.Inert) (resolution : Resolution) :
    ∃ r t, invoke? run id resolution callback s = some (r, t) ∧
      Worked s.ledger (callOf id resolution callback) s t := by
  cases callback with
  | none => exact ⟨_, s, rfl, worked_of_aside (Aside.refl s)⟩
  | some c => exact worked_invoke hrun id (h c rfl) resolution

/-- The callbacks of a batch are called in its order. -/
theorem worked_cancelEach {batch : List (Ledger.Entry Callback)} (first : Except Fatal Unit)
    (h : ∀ e ∈ batch, ∀ c, e.2 = some c → c.Inert) :
    ∃ r t, cancelEach run first batch s = some (r, t) ∧
      Worked s.ledger (batch.flatMap fun e => callOf e.1 .cancelled e.2).reverse s t := by
  induction batch generalizing s first with
  | nil => exact ⟨_, s, rfl, worked_of_aside (Aside.refl s)⟩
  | cons e rest ih =>
    have hrest := fun e he => h e (List.mem_cons_of_mem _ he)
    rw [List.flatMap_cons, List.reverse_append]
    obtain ⟨id, callback⟩ := e
    cases callback with
    | none =>
      obtain ⟨r, t, ht, hworked⟩ := ih (s := s) first hrest
      exact ⟨r, t, ht, by simpa [callOf] using hworked⟩
    | some c =>
      obtain ⟨r, v, hv, hone⟩ := worked_invoke (s := s) hrun id
        (h _ (List.mem_cons_self ..) c rfl) .cancelled
      obtain ⟨kept, w, hw, haside, -⟩ := exists_keep id first r v
      obtain ⟨q, t, ht, hworked⟩ := ih (s := w) kept hrest
      rw [cancelEach_cons, bind_of_eq_some hv, bind_of_eq_some hw]
      exact ⟨q, t, ht, (hone.aside haside).then hworked⟩

/-! ## Work on the ledger -/

/-- An operation whose acknowledgement is there calls its callback. -/
theorem worked_track (id : PacketId) {callback : Option Callback}
    (h : ∀ c, callback = some c → c.Inert) :
    ∃ r t, track run id callback s = some (r, t) ∧ Worked (s.ledger.track id callback).2
      (if id ∈ s.ledger.early then callOf id .completed callback else []) s t := by
  have htracking : Worked (s.ledger.track id callback).2 [] s (s.tracking id callback) :=
    ⟨⟨rfl, rfl, rfl, rfl, rfl, rfl⟩, rfl, rfl, rfl, rfl⟩
  by_cases he : id ∈ s.ledger.early
  · rw [track_of_mem_early run he, if_pos he]
    have hfound := htracking.noted (o := .foundAcknowledged id) rfl rfl
    obtain ⟨r, t, ht, hworked⟩ := worked_invoke? hrun id h .completed
    exact ⟨r, t, ht, hfound.begun hworked⟩
  · rw [track_of_not_mem_early run he, if_neg he]
    cases s.ledger.pending[id]? with
    | none => exact ⟨_, _, rfl, htracking.noted rfl rfl⟩
    | some d => exact ⟨_, _, rfl, (htracking.noted (o := .displaced id d) rfl rfl).noted rfl rfl⟩

/-- An acknowledgement calls the callback of the operation that waits for it. -/
theorem worked_settle (id : PacketId) (h : s.ledger.All Reaction.Inert) :
    ∃ r t, settle run id s = some (r, t) ∧ Worked (s.ledger.settle id).2
      (s.ledger.pending[id]?.elim [] (callOf id .completed)) s t := by
  have hsettling : Worked (s.ledger.settle id).2 [] s (s.settling id) :=
    ⟨alike_withLedger s _, rfl, rfl, rfl, rfl⟩
  cases hp : s.ledger.pending[id]? with
  | none =>
    rw [settle_of_not_pending run hp]
    exact ⟨_, _, rfl, hsettling.noted rfl rfl⟩
  | some callback =>
    rw [settle_of_pending run hp]
    have hmet := hsettling.noted (o := .settled id) rfl rfl
    have hc : ∀ c, callback = some c → c.Inert := fun c hc => h id c (by rw [hp, hc])
    obtain ⟨r, t, ht, hworked⟩ := worked_invoke? hrun id hc .completed
    exact ⟨r, t, ht, hmet.begun hworked⟩

/-- Abandoning calls the callback of every operation that waits. -/
theorem worked_abandon (h : s.ledger.All Reaction.Inert) :
    ∃ r t, abandon run s = some (r, t) ∧
      Worked {} (s.batch.flatMap fun e => callOf e.1 .cancelled e.2).reverse s t := by
  rw [abandon_apply]
  have habandoning : Worked {} [] s s.abandoning :=
    ⟨⟨rfl, rfl, rfl, rfl, rfl, rfl⟩, rfl, rfl, rfl, rfl⟩
  have hc : ∀ e ∈ s.batch, ∀ c, e.2 = some c → c.Inert := by
    rintro ⟨k, callback⟩ he c rfl
    exact h k c (mem_batch.mp he)
  obtain ⟨r, t, ht, hworked⟩ := worked_cancelEach (s := s.abandoning) hrun (.ok ()) hc
  exact ⟨r, t, ht, habandoning.begun hworked⟩

end

/-! ## Around a step -/

theorem worked_holding {α : Type} {x : Play α}
    (h : ∃ a t, x { s with holders := s.holders + 1 } = some (a, t) ∧
      Worked l news { s with holders := s.holders + 1 } t) :
    ∃ a t, holding x s = some (a, t) ∧ Worked l news s t := by
  obtain ⟨a, t, ht, hworked⟩ := h
  exact ⟨a, _, holding_of_eq_some ht,
    (Worked.of_aside (aside_holders s _) hworked).aside (aside_holders t _)⟩

theorem worked_withLink {x : Play Answer} (hs : s.owned)
    (h : ∃ a t, x { s with holders := s.holders + 1 } = some (a, t) ∧
      Worked l news { s with holders := s.holders + 1 } t) :
    ∃ a t, withLink x s = some (a, t) ∧ Worked l news s t := by
  rw [withLink_of_owned hs]
  exact worked_holding h

theorem worked_sweeping {α : Type} {x : Play α}
    (h : ∃ a t, x (s.noted .sweepBegun) = some (a, t) ∧ Worked l news (s.noted .sweepBegun) t) :
    ∃ a t, sweeping x s = some (a, t) ∧ Worked l news s t := by
  obtain ⟨a, t, ht, hworked⟩ := h
  exact ⟨a, _, sweeping_of_eq_some ht,
    (Worked.of_aside (aside_noted s rfl) hworked).aside (aside_noted t rfl)⟩

theorem worked_map {α β : Type} {x : Play α} (f : α → β)
    (h : ∃ a t, x s = some (a, t) ∧ Worked l news s t) :
    ∃ b t, (do return f (← x)) s = some (b, t) ∧ Worked l news s t := by
  obtain ⟨a, t, ht, hworked⟩ := h
  exact ⟨f a, t, bind_of_eq_some ht _, hworked⟩

end Session

end MqttLink
