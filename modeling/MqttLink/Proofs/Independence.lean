import Mathlib.Data.List.Forall2
import MqttLink.Proofs.Stages

/-!
Identifiers leave each other alone. What becomes of the operations under one identifier hangs on
nothing but the steps that concern it, in their order, and on when everything is abandoned. Main
statement: two runs in which each identifier meets with the same end with the same ledger, and call
the same callbacks for each identifier.
-/

namespace MqttLink

/-! ## One identifier at a time -/

/-- What a ledger holds of one identifier: the operation that waits, and whether an acknowledgement
is there. -/
abbrev Cell := Option (Option Callback) × Bool

def Ledger.cell (l : Ledger Callback) (id : PacketId) : Cell :=
  (l.pending[id]?, l.early.contains id)

theorem Ledger.ext_cell {l m : Ledger Callback} (h : ∀ id, l.cell id = m.cell id) : l = m := by
  have hpending : l.pending = m.pending :=
    Std.ExtTreeMap.ext_getElem? fun id => congrArg Prod.fst (h id)
  have hearly : l.early = m.early := Std.ExtTreeSet.ext_mem fun id => by
    rw [← Std.ExtTreeSet.contains_iff_mem, ← Std.ExtTreeSet.contains_iff_mem]
    exact iff_of_eq (congrArg (· = true) (congrArg Prod.snd (h id)))
  cases l
  cases m
  cases hpending
  cases hearly
  rfl

namespace Step

/-- Operations that are handed over, with callbacks that satisfy `p`, and acknowledgements. -/
def Manages (p : Callback → Prop) : Step → Prop
  | track _ callback => ∀ c, callback = some c → p c
  | settle _ => True
  | _ => False

def identifier? : Step → Option PacketId
  | track id _ | settle id => some id
  | _ => none

def concerns (id : PacketId) (step : Step) : Bool :=
  step.identifier? = some id

def cancels : Step → Bool
  | abandon => true
  | _ => false

/-- What is held of an identifier after a step that concerns it. -/
def cellAfter : Step → Cell → Cell
  | track _ callback, (waiting, early) => if early then (waiting, false) else (some callback, false)
  | settle _, (waiting, early) => (none, early || waiting.isNone)
  | _, cell => cell

/-- The callback that such a step calls. -/
def called? : Step → Cell → Option Callback
  | track _ callback, (_, early) => if early then callback else none
  | settle _, (waiting, _) => waiting.join
  | _, _ => none

end Step

/-- What is held of an identifier after steps that concern it. -/
def cellFrom (cell : Cell) (steps : List Step) : Cell :=
  steps.foldl (fun cell step => step.cellAfter cell) cell

/-- The callback that each of these steps calls. -/
def calledFrom : Cell → List Step → List (Option Callback)
  | _, [] => []
  | cell, step :: rest => step.called? cell :: calledFrom (step.cellAfter cell) rest

namespace Ledger

variable {l : Ledger Callback} {id : PacketId}

theorem cell_track (callback : Option Callback) (k : PacketId) : (l.track id callback).2.cell k =
    if k = id then (Step.track id callback).cellAfter (l.cell id) else l.cell k := by
  have hearly : (l.track id callback).2.early.contains k = (l.early.contains k && k ≠ id) := by
    rw [Bool.eq_iff_iff, Std.ExtTreeSet.contains_iff_mem, mem_early_track]
    simp [and_comm]
  have hpending := getElem?_track l id k callback
  by_cases hk : k = id
  · subst hk
    by_cases he : k ∈ l.early <;> simp_all [cell, Step.cellAfter]
  · simp_all [cell]

theorem cell_settle (k : PacketId) : (l.settle id).2.cell k =
    if k = id then (Step.settle id).cellAfter (l.cell id) else l.cell k := by
  have hearly : (l.settle id).2.early.contains k =
      (l.early.contains k || k = id && l.pending[id]?.isNone) := by
    have hfree : l.pending[id]?.isNone ↔ id ∉ l.pending := by
      rw [Std.ExtTreeMap.mem_iff_isSome_getElem?]
      cases l.pending[id]? <;> simp
    rw [Bool.eq_iff_iff, Std.ExtTreeSet.contains_iff_mem, mem_early_settle, Bool.or_eq_true,
      Bool.and_eq_true, hfree, Std.ExtTreeSet.contains_iff_mem, decide_eq_true_eq]
  have hpending := getElem?_settle l id k
  by_cases hk : k = id
  · subst hk
    simp_all [cell, Step.cellAfter]
  · simp_all [cell]

theorem called?_track (callback : Option Callback) :
    (Step.track id callback).called? (l.cell id) = if id ∈ l.early then callback else none := by
  simp [Step.called?, cell]

theorem called?_settle : (Step.settle id).called? (l.cell id) = l.pending[id]?.join := rfl

end Ledger

namespace Session

open Play

variable {depth : Nat} {s t u : Session} {id : PacketId} {step : Step} {steps rest : List Step}

/-! ## What a step answers -/

/-- Wherever the callback is called, it comes back with its own outcome. -/
def Constant (c : Callback) : Prop :=
  ∀ depth s outcome t, react (performTo depth) c s = some (outcome, t) → outcome = c.outcome

/-- What comes of calling a callback, if there is one. -/
def resultOf (callback : Option Callback) : Except Fatal Unit :=
  callback.elim (.ok ()) fun c => contained c.outcome

def answerOf (callback : Option Callback) : Answer :=
  .ofResult ((resultOf callback).mapError .fatal)

theorem fault_of_runSteps (run : Runner) {r : Option Fault}
    (h : runSteps run false steps s = some (r, t)) : r = none := by
  induction steps generalizing s with
  | nil =>
    cases h
    rfl
  | cons step rest ih =>
    obtain ⟨answer, u, -, h⟩ := bind_eq_some_iff.mp h
    obtain ⟨_, v, -, h⟩ := bind_eq_some_iff.mp h
    cases hfault : answer.fault? with
    | none =>
      rw [hfault] at h
      exact ih h
    | some f =>
      rw [hfault] at h
      exact ih h

/-- A callback that has no steps, or goes on after faults, is constant. -/
theorem constant_of_undisturbed {c : Callback} (h : c.steps = [] ∨ c.stopsOnFault = false) :
    Constant c := by
  intro depth s outcome t hst
  obtain ⟨r, u, hu, hst⟩ := bind_eq_some_iff.mp hst
  have hr : r = none := by
    rcases h with h | h
    · rw [h] at hu
      cases hu
      rfl
    · rw [h] at hu
      exact fault_of_runSteps _ hu
  rw [hr] at hst
  cases hst
  rfl

theorem result_invoke? {callback : Option Callback} (hc : ∀ c, callback = some c → Constant c)
    {resolution : Resolution} {r : Except Fatal Unit}
    (h : invoke? (performTo depth) id resolution callback s = some (r, t)) :
    r = resultOf callback := by
  cases callback with
  | none =>
    cases h
    rfl
  | some c =>
    have h : invoke (performTo depth) id resolution c s = some (r, t) := h
    rw [invoke_apply] at h
    obtain ⟨outcome, u, hu, h⟩ := bind_eq_some_iff.mp h
    obtain rfl := hc c rfl _ _ _ _ hu
    obtain ⟨v, hv, -⟩ := contain_eq_contained .callback c.outcome u
    rw [hv] at h
    cases h
    rfl

theorem result_track {callback : Option Callback} (hc : ∀ c, callback = some c → Constant c)
    {r : Except Fatal Unit} (h : track (performTo depth) id callback s = some (r, t)) :
    r = resultOf ((Step.track id callback).called? (s.ledger.cell id)) := by
  rw [Ledger.called?_track]
  by_cases he : id ∈ s.ledger.early
  · rw [track_of_mem_early _ he] at h
    rw [if_pos he]
    exact result_invoke? hc h
  · rw [track_of_not_mem_early _ he] at h
    rw [if_neg he]
    cases hp : s.ledger.pending[id]? with
    | none =>
      rw [hp] at h
      cases h
      rfl
    | some d =>
      rw [hp] at h
      cases h
      rfl

theorem result_settle (hw : s.ledger.All Constant) {r : Except Fatal Unit}
    (h : settle (performTo depth) id s = some (r, t)) :
    r = resultOf ((Step.settle id).called? (s.ledger.cell id)) := by
  rw [Ledger.called?_settle]
  cases hp : s.ledger.pending[id]? with
  | none =>
    rw [settle_of_not_pending _ hp] at h
    cases h
    rfl
  | some callback =>
    rw [settle_of_pending _ hp] at h
    have hr : r = resultOf callback := result_invoke? (fun c hc => hw id c (by rw [hp, hc])) h
    exact hr

theorem answer_of_result {x : Play (Except Fatal Unit)} (hs : s.owned)
    {callback : Option Callback} {answer : Answer}
    (hx : ∀ r t, x { s with holders := s.holders + 1 } = some (r, t) → r = resultOf callback)
    (h : withLink (answeringFatal x) s = some (answer, t)) : answer = answerOf callback := by
  rw [withLink_of_owned hs] at h
  obtain ⟨u, hu, -⟩ := exists_of_holding h
  obtain ⟨r, v, hv, hu⟩ := bind_eq_some_iff.mp hu
  cases hu
  rw [hx r u hv]
  rfl

/-! ## One step -/

/-- From `s` to `t` a step was taken that concerns `id`: no other identifier was touched, and the
step called what the ledger held of this one. -/
structure Handled (step : Step) (id : PacketId) (s : Session) (answer : Answer) (t : Session) :
    Prop where
  owned : t.owned
  inert : t.ledger.All Reaction.Inert
  cell : ∀ k, t.ledger.cell k =
    if k = id then step.cellAfter (s.ledger.cell id) else s.ledger.cell k
  calls : t.calls = callOf id .completed (step.called? (s.ledger.cell id)) ++ s.calls
  constant : s.ledger.All Constant → step.Manages Constant →
    t.ledger.All Constant ∧ answer = answerOf (step.called? (s.ledger.cell id))

theorem handled_performTo (depth : Nat) (hs : s.owned) (hw : s.ledger.All Reaction.Inert)
    (hstep : step.Manages Reaction.Inert) :
    ∃ id answer t, step.identifier? = some id ∧
      performTo (depth + 2) step s = some (answer, t) ∧ Handled step id s answer t := by
  have howned {l : Ledger Callback} {news : List Invocation} {t : Session}
      (hworked : Worked l news s t) : t.owned := by
    rw [hworked.owned]
    exact hs
  cases step with
  | track id callback =>
    obtain ⟨answer, t, ht, hworked⟩ := worked_withLink hs (worked_map _
      (worked_track (s := { s with holders := s.holders + 1 }) (serving_performTo depth) id hstep))
    refine ⟨id, answer, t, rfl, ht, howned hworked, ?_, fun k => ?_, ?_, fun hstored hgiven => ?_⟩
    · rw [hworked.ledger]
      exact Ledger.all_track hw id hstep
    · rw [hworked.ledger]
      exact Ledger.cell_track callback k
    · rw [hworked.calls, Ledger.called?_track, apply_ite (callOf id .completed)]
      rfl
    · rw [hworked.ledger]
      exact ⟨Ledger.all_track hstored id hgiven,
        answer_of_result hs (fun _ _ => result_track hgiven) ht⟩
  | settle id =>
    obtain ⟨answer, t, ht, hworked⟩ := worked_withLink hs (worked_map _
      (worked_settle (s := { s with holders := s.holders + 1 }) (serving_performTo depth) id hw))
    refine ⟨id, answer, t, rfl, ht, howned hworked, ?_, fun k => ?_, ?_, fun hstored _ => ?_⟩
    · rw [hworked.ledger]
      exact Ledger.all_settle hw id
    · rw [hworked.ledger]
      exact Ledger.cell_settle k
    · rw [hworked.calls, Ledger.called?_settle]
      cases s.ledger.pending[id]? <;> rfl
    · rw [hworked.ledger]
      exact ⟨Ledger.all_settle hstored id,
        answer_of_result hs (fun _ _ =>
          result_settle (s := { s with holders := s.holders + 1 }) hstored) ht⟩
  | _ => cases hstep

/-- Abandoning forgets everything, and calls what waits. -/
theorem abandoned_performTo (depth : Nat) (hs : s.owned) (hw : s.ledger.All Reaction.Inert) :
    ∃ answer t, performTo (depth + 2) .abandon s = some (answer, t) ∧ t.owned ∧ t.ledger = {} ∧
      t.calls = (s.batch.flatMap fun e => callOf e.1 .cancelled e.2).reverse ++ s.calls := by
  have hbegun : (s.noted .sweepBegun).owned := hs
  obtain ⟨answer, t, ht, hworked⟩ := worked_sweeping (worked_withLink hbegun (worked_map _
    (worked_abandon (s := { s.noted .sweepBegun with holders := s.holders + 1 })
      (serving_performTo depth) hw)))
  refine ⟨answer, t, ht, ?_, hworked.ledger, hworked.calls⟩
  rw [hworked.owned]
  exact hs

/-! ## Steps between two abandonments -/

theorem concerns_eq {k : PacketId} (h : step.identifier? = some id) :
    step.concerns k = decide (id = k) := by
  simp [Step.concerns, h]

theorem reverse_callOf (id : PacketId) (resolution : Resolution) (callback : Option Callback) :
    (callOf id resolution callback).reverse = callOf id resolution callback := by
  cases callback <;> rfl

/-- From `s` to `t` steps were taken that manage operations: each identifier was treated as if it
were the only one. -/
structure Segment (steps : List Step) (s : Session) (ds : List Stage) (t : Session) : Prop where
  owned : t.owned
  inert : t.ledger.All Reaction.Inert
  cancels : ∀ d ∈ ds, d.step.cancels = false
  cell : ∀ id, t.ledger.cell id = cellFrom (s.ledger.cell id) (steps.filter (·.concerns id))
  calls : ∀ id, (ds.filter (·.step.concerns id)).map (·.calls) =
    (calledFrom (s.ledger.cell id) (steps.filter (·.concerns id))).map (callOf id .completed)
  constant : s.ledger.All Constant → (∀ step ∈ steps, step.Manages Constant) →
    t.ledger.All Constant ∧ ∀ id, (ds.filter (·.step.concerns id)).map (·.answer) =
      (calledFrom (s.ledger.cell id) (steps.filter (·.concerns id))).map answerOf

theorem segment_cons {answer : Answer} {ds : List Stage} (hid : step.identifier? = some id)
    (hstep : Handled step id s answer t) (hrest : Segment rest t ds u) :
    Segment (step :: rest) s (⟨step, answer, s, t⟩ :: ds) u where
  owned := hrest.owned
  inert := hrest.inert
  cancels := by
    refine List.forall_mem_cons.mpr ⟨?_, hrest.cancels⟩
    cases step with
    | abandon => cases hid
    | _ => rfl
  cell := by
    intro k
    rw [hrest.cell, hstep.cell, List.filter_cons, concerns_eq hid]
    by_cases hk : id = k
    · simp [hk, cellFrom]
    · simp [hk, Ne.symm hk]
  calls := by
    intro k
    have hcalls : (⟨step, answer, s, t⟩ : Stage).calls =
        callOf id .completed (step.called? (s.ledger.cell id)) := by
      rw [Stage.calls_of_append hstep.calls, reverse_callOf]
    have hlater := hrest.calls k
    rw [hstep.cell] at hlater
    rw [List.filter_cons, List.filter_cons, concerns_eq hid]
    by_cases hk : id = k
    · subst hk
      simpa [calledFrom, hcalls] using hlater
    · simpa [hk, Ne.symm hk] using hlater
  constant := by
    intro hstored hgiven
    obtain ⟨hfirst, hothers⟩ := List.forall_mem_cons.mp hgiven
    obtain ⟨hkept, hanswer⟩ := hstep.constant hstored hfirst
    obtain ⟨hend, hlater⟩ := hrest.constant hkept hothers
    refine ⟨hend, fun k => ?_⟩
    have hlater := hlater k
    rw [hstep.cell] at hlater
    rw [List.filter_cons, List.filter_cons, concerns_eq hid]
    by_cases hk : id = k
    · subst hk
      simpa [calledFrom, hanswer] using hlater
    · simpa [hk, Ne.symm hk] using hlater

theorem exists_segment (depth : Nat) (hs : s.owned) (hw : s.ledger.All Reaction.Inert)
    (hsteps : ∀ step ∈ steps, step.Manages Reaction.Inert) :
    ∃ ds t, performEach (depth + 2) steps s = some (ds, t) ∧ Segment steps s ds t := by
  induction steps generalizing s with
  | nil =>
    exact ⟨[], s, rfl, hs, hw, List.forall_mem_nil _, fun _ => rfl, fun _ => rfl,
      fun hstored _ => ⟨hstored, fun _ => rfl⟩⟩
  | cons step rest ih =>
    obtain ⟨hstep, hrest⟩ := List.forall_mem_cons.mp hsteps
    obtain ⟨id, answer, u, hid, hu, hhandled⟩ := handled_performTo depth hs hw hstep
    obtain ⟨ds, t, ht, hsegment⟩ := ih hhandled.owned hhandled.inert hrest
    exact ⟨_, t, performEach_cons hu ht, segment_cons hid hhandled hsegment⟩

/-! ## Two runs -/

/-- Steps that come in the same order for each identifier. -/
def SameByIdentifier (x y : List Step) : Prop :=
  ∀ id, x.filter (·.concerns id) = y.filter (·.concerns id)

/-- For each identifier, the stages that concern it called the same callbacks, one after the other;
and all abandonments, one after the other, called the same callbacks in some order. -/
structure Matching (ds es : List Stage) : Prop where
  calls : ∀ id, (ds.filter (·.step.concerns id)).map (·.calls) =
    (es.filter (·.step.concerns id)).map (·.calls)
  cancelled : List.Forall₂ List.Perm ((ds.filter (·.step.cancels)).map (·.calls))
    ((es.filter (·.step.cancels)).map (·.calls))

/-- For each identifier, the stages that concern it answered the same. -/
def SameAnswers (ds es : List Stage) : Prop :=
  ∀ id, (ds.filter (·.step.concerns id)).map (·.answer) =
    (es.filter (·.step.concerns id)).map (·.answer)

section

variable {x y : List Step} {ds es later later' : List Stage} {s' t' : Session}
  (hsame : SameByIdentifier x y) (hledger : t.ledger = s.ledger)
  (hx : Segment x s ds s') (hy : Segment y t es t')
include hsame hledger hx hy

theorem ledger_eq_of_segments : t'.ledger = s'.ledger :=
  Ledger.ext_cell fun id => by rw [hy.cell, hx.cell, hsame id, hledger]

theorem calls_eq_of_segments (id : PacketId) : (ds.filter (·.step.concerns id)).map (·.calls) =
    (es.filter (·.step.concerns id)).map (·.calls) := by
  rw [hx.calls, hy.calls, hsame id, hledger]

omit hsame hledger in
theorem cancels_eq_nil_of_segments :
    ds.filter (·.step.cancels) = [] ∧ es.filter (·.step.cancels) = [] := by
  constructor
  · exact List.filter_eq_nil_iff.mpr fun d hd => by simp [hx.cancels d hd]
  · exact List.filter_eq_nil_iff.mpr fun d hd => by simp [hy.cancels d hd]

theorem matching_of_segments : Matching ds es where
  calls := calls_eq_of_segments hsame hledger hx hy
  cancelled := by
    obtain ⟨hds, hes⟩ := cancels_eq_nil_of_segments hx hy
    rw [hds, hes]
    exact .nil

theorem sameAnswers_of_segments (hstored : s.ledger.All Constant)
    (hgiven : ∀ step ∈ x, step.Manages Constant) (hgiven' : ∀ step ∈ y, step.Manages Constant) :
    SameAnswers ds es := by
  intro id
  rw [(hx.constant hstored hgiven).2, (hy.constant (hledger ▸ hstored) hgiven').2, hsame id,
    hledger]

/-- Segments, abandonments, and what follows them. -/
theorem matching_append {d e : Stage} (hd : d.step = .abandon) (he : e.step = .abandon)
    (hcalls : d.calls.Perm e.calls) (hlater : Matching later later') :
    Matching (ds ++ d :: later) (es ++ e :: later') where
  calls := by
    intro id
    have hother : d.step.concerns id = false ∧ e.step.concerns id = false := by
      rw [hd, he]
      exact ⟨rfl, rfl⟩
    simp only [List.filter_append, List.filter_cons, hother.1, hother.2, List.map_append,
      Bool.false_eq_true, if_false]
    rw [calls_eq_of_segments hsame hledger hx hy id, hlater.calls id]
  cancelled := by
    obtain ⟨hds, hes⟩ := cancels_eq_nil_of_segments hx hy
    have hcancels : d.step.cancels = true ∧ e.step.cancels = true := by
      rw [hd, he]
      exact ⟨rfl, rfl⟩
    simp only [List.filter_append, List.filter_cons, hds, hes, hcancels.1, hcancels.2,
      List.nil_append, if_true, List.map_cons]
    exact .cons hcalls hlater.cancelled

end

theorem perm_of_abandoned {d e : Stage} (hledger : e.before.ledger = d.before.ledger)
    (hd : d.after.calls = (d.before.batch.flatMap fun e => callOf e.1 .cancelled e.2).reverse ++
      d.before.calls)
    (he : e.after.calls = (e.before.batch.flatMap fun e => callOf e.1 .cancelled e.2).reverse ++
      e.before.calls) : d.calls.Perm e.calls := by
  have hbatch : d.before.batch.Perm e.before.batch := by
    have hperm := d.before.batch_perm
    rw [← hledger] at hperm
    exact hperm.trans e.before.batch_perm.symm
  rw [Stage.calls_of_append hd, Stage.calls_of_append he, List.reverse_reverse,
    List.reverse_reverse]
  exact hbatch.flatMap_right _

/-- Take two runs that start with one ledger and are cut into equally many parts by abandonments,
where in each part every identifier meets with the same steps in the same order, and where no
callback does anything about operations. Both come to an end, with one ledger; for each identifier
they call the same callbacks in the same stages, and each abandonment calls the same callbacks. If
besides no callback changes its mind about its outcome, the stages answer the same, too. -/
theorem performEach_reordered {xs ys : List (List Step)}
    (hsame : List.Forall₂ SameByIdentifier xs ys)
    (hxs : ∀ x ∈ xs, ∀ step ∈ x, step.Manages Reaction.Inert)
    (hys : ∀ y ∈ ys, ∀ step ∈ y, step.Manages Reaction.Inert)
    (hs : s.owned) (ht : t.owned) (hledger : t.ledger = s.ledger)
    (hstored : s.ledger.All Reaction.Inert) (depth : Nat) :
    ∃ ds es s' t', performEach (depth + 2) ([.abandon].intercalate xs) s = some (ds, s') ∧
      performEach (depth + 2) ([.abandon].intercalate ys) t = some (es, t') ∧
      t'.ledger = s'.ledger ∧ Matching ds es ∧
      (s.ledger.All Constant → (∀ x ∈ xs, ∀ step ∈ x, step.Manages Constant) →
        (∀ y ∈ ys, ∀ step ∈ y, step.Manages Constant) → SameAnswers ds es) := by
  induction hsame generalizing s t with
  | nil =>
    exact ⟨[], [], s, t, rfl, rfl, hledger, ⟨fun _ => rfl, .nil⟩, fun _ _ _ _ => rfl⟩
  | @cons x y xs ys hfirst hrest ih =>
    obtain ⟨hx, hxs⟩ := List.forall_mem_cons.mp hxs
    obtain ⟨hy, hys⟩ := List.forall_mem_cons.mp hys
    obtain ⟨ds, s₁, hds, hsegx⟩ := exists_segment depth hs hstored hx
    obtain ⟨es, t₁, hes, hsegy⟩ := exists_segment depth ht (hledger ▸ hstored) hy
    have hledger₁ : t₁.ledger = s₁.ledger := ledger_eq_of_segments hfirst hledger hsegx hsegy
    cases hrest with
    | nil =>
      rw [List.intercalate_singleton, List.intercalate_singleton]
      refine ⟨ds, es, s₁, t₁, hds, hes, hledger₁, matching_of_segments hfirst hledger hsegx hsegy,
        fun hconst hgiven hgiven' => ?_⟩
      exact sameAnswers_of_segments hfirst hledger hsegx hsegy hconst
        (List.forall_mem_cons.mp hgiven).1 (List.forall_mem_cons.mp hgiven').1
    | @cons x' y' xs ys _ _ =>
      obtain ⟨a, s₂, hs₂, howned, hempty, hcalls⟩ :=
        abandoned_performTo depth hsegx.owned hsegx.inert
      obtain ⟨b, t₂, ht₂, howned', hempty', hcalls'⟩ :=
        abandoned_performTo depth hsegy.owned hsegy.inert
      have hall {p : Callback → Prop} : s₂.ledger.All p := by
        rw [hempty]
        exact Ledger.all_empty
      obtain ⟨ds', es', s', t', hds', hes', hend, hmatching, hanswers⟩ :=
        ih hxs hys howned howned' (hempty'.trans hempty.symm) hall
      refine ⟨_, _, s', t', ?_, ?_, hend, matching_append hfirst hledger hsegx hsegy rfl rfl
        (perm_of_abandoned (d := ⟨.abandon, a, s₁, s₂⟩) (e := ⟨.abandon, b, t₁, t₂⟩) hledger₁
          hcalls hcalls') hmatching, fun hconst hgiven hgiven' => ?_⟩
      · rw [List.intercalate_cons_cons, List.append_assoc]
        exact performEach_append hds (performEach_cons hs₂ hds')
      · rw [List.intercalate_cons_cons, List.append_assoc]
        exact performEach_append hes (performEach_cons ht₂ hes')
      · obtain ⟨hgx, hgxs⟩ := List.forall_mem_cons.mp hgiven
        obtain ⟨hgy, hgys⟩ := List.forall_mem_cons.mp hgiven'
        have hbefore := sameAnswers_of_segments hfirst hledger hsegx hsegy hconst hgx hgy
        have hafter := hanswers hall hgxs hgys
        intro id
        simp only [List.filter_append, List.filter_cons, List.map_append]
        have hother : Step.abandon.concerns id = false := rfl
        simp only [hother, Bool.false_eq_true, if_false]
        rw [hbefore id, hafter id]

/-- Two acknowledgements change places, and an operation after them finds its own. -/
theorem performEach_reordered_settles :
    ∃ ds es s' t',
      performEach 2 [.settle 1, .settle 2, .track 1 (some ⟨"c", [], .ok (), true⟩)]
        (opened {} (.ascending _)) = some (ds, s') ∧
      performEach 2 [.settle 2, .settle 1, .track 1 (some ⟨"c", [], .ok (), true⟩)]
        (opened {} (.ascending _)) = some (es, t') ∧
      t'.ledger = s'.ledger ∧ Matching ds es ∧ SameAnswers ds es := by
  have hsame : SameByIdentifier [.settle 1, .settle 2, .track 1 (some ⟨"c", [], .ok (), true⟩)]
      [.settle 2, .settle 1, .track 1 (some ⟨"c", [], .ok (), true⟩)] := by
    intro id
    by_cases hone : id = 1
    · subst hone
      rfl
    · simp [List.filter_cons, Step.concerns, Step.identifier?, Ne.symm hone]
  have hgiven {p : Callback → Prop} (hp : p ⟨"c", [], .ok (), true⟩) :
      ∀ x ∈ [[Step.settle 1, .settle 2, .track 1 (some ⟨"c", [], .ok (), true⟩)]],
        ∀ step ∈ x, step.Manages p := by
    simpa [Step.Manages] using hp
  have hgiven' {p : Callback → Prop} (hp : p ⟨"c", [], .ok (), true⟩) :
      ∀ y ∈ [[Step.settle 2, .settle 1, .track 1 (some ⟨"c", [], .ok (), true⟩)]],
        ∀ step ∈ y, step.Manages p := by
    simpa [Step.Manages] using hp
  have hinert : Reaction.Inert ⟨"c", [], .ok (), true⟩ := List.forall_mem_nil _
  have hconst : Constant ⟨"c", [], .ok (), true⟩ := constant_of_undisturbed (.inl rfl)
  obtain ⟨ds, es, s', t', hds, hes, hledger, hmatching, hanswers⟩ := performEach_reordered
    (.cons hsame .nil) (hgiven hinert) (hgiven' hinert) (s := opened {} (.ascending _))
    (t := opened {} (.ascending _)) rfl rfl rfl Ledger.all_empty 0
  exact ⟨ds, es, s', t', hds, hes, hledger, hmatching,
    hanswers Ledger.all_empty (hgiven hconst) (hgiven' hconst)⟩

end Session

end MqttLink
