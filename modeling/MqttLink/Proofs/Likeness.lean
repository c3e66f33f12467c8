import Mathlib.Data.List.Forall2
import MqttLink.Proofs.Stages

/-!
Sessions that are like each other. Two sessions run in step when their steps agree in all but what a
licence lets differ: how callbacks and handlers come back, passwords, the bytes of messages. Main
statements: what like sessions have in common, and that plays which follow each other can be put
together.
-/

namespace MqttLink

open Session (contained Stage)

/-- What may differ between two sessions. If `exact`, outcomes differ so little that all answers are
the same; if `full`, they do not differ at all, and the journals are compared entry by entry. -/
structure Licence where
  exact : Bool
  full : Bool
  password : Option String → Option String → Prop
  payload : Payload → Payload → Prop
  exact_of_full : full → exact
  size_eq : ∀ {p p' : Payload}, payload p p' → p'.size = p.size

/-! ## Scripts -/

/-- Outcomes that may stand for each other. -/
structure Licence.SameOutcome (L : Licence) (o o' : Outcome) : Prop where
  full : L.full → o = o'
  exact : L.exact → contained o = contained o'

/-- No step is left out because an earlier one answered differently. -/
def Licence.Careful (L : Licence) (stopsOnFault : Bool) (steps : List Step) : Prop :=
  stopsOnFault → L.exact ∨ steps.length ≤ 1

/-- Callbacks that run like steps in the sense of `R`, whichever outcomes earlier steps had. -/
inductive Reaction.LikeBy (L : Licence) (R : Step → Step → Prop) : Callback → Callback → Prop
  | intro (label : String) (stopsOnFault : Bool) {steps steps' : List Step}
      {outcome outcome' : Outcome} (same : List.Forall₂ R steps steps')
      (careful : L.Careful stopsOnFault steps) (outcomes : L.SameOutcome outcome outcome') :
      LikeBy L R ⟨label, steps, outcome, stopsOnFault⟩ ⟨label, steps', outcome', stopsOnFault⟩

/-- Steps that hand nothing over and carry no secret. -/
def Step.plain : Step → Bool
  | track _ _ | trackAll _ (some _) | settleAll _ | connect _ => false
  | subscribe _ _ _ | unsubscribe _ _ => false
  | publish _ _ _ _ | setHandler _ _ | setIssueHook _ | receive _ _ _ _ _ => false
  | clientSetCredentials _ _ | clientPublish _ _ _ _ => false
  | _ => true

/-- Steps that agree in all but what may differ. Ranges stop at the first fault, so where callbacks
can fail they are like each other only if all answers are the same. -/
inductive Step.Like (L : Licence) : Step → Step → Prop
  | plain (step : Step) (plain : step.plain) : Step.Like L step step
  | track (id : PacketId) {c c' : Option Callback}
      (same : Option.Rel (Reaction.LikeBy L (Step.Like L)) c c') :
      Step.Like L (.track id c) (.track id c')
  | trackAll (exact : L.exact) (ids : List PacketId) {c c' : Callback}
      (same : Reaction.LikeBy L (Step.Like L) c c') :
      Step.Like L (.trackAll ids (some c)) (.trackAll ids (some c'))
  | settleAll (exact : L.exact) (ids : List PacketId) :
      Step.Like L (.settleAll ids) (.settleAll ids)
  | connect {p p' : Option String} (password : L.password p p') :
      Step.Like L (.connect p) (.connect p')
  | subscribe (filter : String) (level : Nat) {c c' : Option Callback}
      (same : Option.Rel (Reaction.LikeBy L (Step.Like L)) c c') :
      Step.Like L (.subscribe filter level c) (.subscribe filter level c')
  | unsubscribe (filter : String) {c c' : Option Callback}
      (same : Option.Rel (Reaction.LikeBy L (Step.Like L)) c c') :
      Step.Like L (.unsubscribe filter c) (.unsubscribe filter c')
  | publish (topic : String) {p p' : Payload} (payload : L.payload p p') (level : Nat)
      {c c' : Option Callback} (same : Option.Rel (Reaction.LikeBy L (Step.Like L)) c c') :
      Step.Like L (.publish topic p level c) (.publish topic p' level c')
  | setHandler (slot : Slot) {c c' : Callback} (same : Reaction.LikeBy L (Step.Like L) c c') :
      Step.Like L (.setHandler slot c) (.setHandler slot c')
  | setIssueHook (stopsOnFault : Bool) {script script' : PacketId → List Step}
      (same : ∀ id, List.Forall₂ (Step.Like L) (script id) (script' id))
      (careful : ∀ id, L.Careful stopsOnFault (script id)) :
      Step.Like L (.setIssueHook ⟨script, stopsOnFault⟩) (.setIssueHook ⟨script', stopsOnFault⟩)
  | receive (topic : String) {p p' : Payload} (payload : L.payload p p') (level : Nat)
      (retain : Bool) (id : Option PacketId) :
      Step.Like L (.receive topic p level retain id) (.receive topic p' level retain id)
  | clientSetCredentials (username : String) {p p' : Option String} (password : L.password p p') :
      Step.Like L (.clientSetCredentials username p) (.clientSetCredentials username p')
  | clientPublish (topic : String) {p p' : Payload} (payload : L.payload p p')
      (level times : Nat) :
      Step.Like L (.clientPublish topic p level times) (.clientPublish topic p' level times)

abbrev Reaction.Like (L : Licence) : Callback → Callback → Prop :=
  Reaction.LikeBy L (Step.Like L)

structure IssueHook.Like (L : Licence) (h h' : IssueHook Step) : Prop where
  script : ∀ id, List.Forall₂ (Step.Like L) (h.script id) (h'.script id)
  stopsOnFault : h'.stopsOnFault = h.stopsOnFault
  careful : ∀ id, L.Careful h.stopsOnFault (h.script id)

/-! ## Calls, messages and entries -/

inductive Call.Like (L : Licence) : Call → Call → Prop
  | same (call : Call) : Call.Like L call call
  | setCredentials (username : String) {p p' : Option String} (password : L.password p p') :
      Call.Like L (.setCredentials username p) (.setCredentials username p')
  | publish (topic : String) {p p' : Payload} (payload : L.payload p p') (qos : Qos) :
      Call.Like L (.publish topic p qos) (.publish topic p' qos)

inductive Signal.Like (L : Licence) : Signal → Signal → Prop
  | same (x : Signal) : Signal.Like L x x
  | message (topic : String) {p p' : Payload} (payload : L.payload p p') (qos : Qos)
      (retain : Bool) (id : Option PacketId) :
      Signal.Like L (.message ⟨topic, p, qos, retain, id⟩) (.message ⟨topic, p', qos, retain, id⟩)

structure Ledger.Like (L : Licence) (l m : Ledger Callback) : Prop where
  pending : ∀ id : PacketId,
    Option.Rel (Option.Rel (Reaction.Like L)) l.pending[id]? m.pending[id]?
  early : m.early = l.early

structure View.Like (L : Licence) (v w : View) : Prop where
  ledger : v.ledger.Like L w.ledger
  pool : w.pool = v.pool

inductive Occurrence.Like (L : Licence) : Occurrence → Occurrence → Prop
  | same (o : Occurrence) : Occurrence.Like L o o
  | tracked (id : PacketId) {c c' : Option Callback} (same : Option.Rel (Reaction.Like L) c c') :
      Occurrence.Like L (.tracked id c) (.tracked id c')
  | displaced (id : PacketId) {c c' : Option Callback}
      (same : Option.Rel (Reaction.Like L) c c') :
      Occurrence.Like L (.displaced id c) (.displaced id c')
  | invoked (id : PacketId) {c c' : Callback} (same : Reaction.Like L c c')
      (resolution : Resolution) {v v' : View} (view : v.Like L v') :
      Occurrence.Like L (.invoked id c resolution v) (.invoked id c' resolution v')
  | handlerSet (slot : Slot) {c c' : Callback} (same : Reaction.Like L c c') :
      Occurrence.Like L (.handlerSet slot c) (.handlerSet slot c')
  | handled {x x' : Signal} (same : x.Like L x') (label : String) :
      Occurrence.Like L (.handled x label) (.handled x' label)

/-- Entries that tell of the call of a callback or handler. -/
def Occurrence.isCall : Occurrence → Bool
  | invoked _ _ _ _ | handled _ _ => true
  | _ => false

/-- The entries that are compared. -/
def Licence.compares (L : Licence) (o : Occurrence) : Bool :=
  L.full || o.isCall

def Licence.compared (L : Licence) (journal : List Occurrence) : List Occurrence :=
  journal.filter L.compares

/-! ## Sessions -/

structure Client.Like (L : Licence) (c d : Client) : Prop where
  sink : d.sink = c.sink
  record : List.Forall₂ (Call.Like L) c.record d.record
  shown : d.shown = c.shown
  pool : d.pool = c.pool
  queuedIds : d.queuedIds = c.queuedIds
  replies : d.replies = c.replies
  completesEarly : d.completesEarly = c.completesEarly
  earlyResults : L.exact → d.earlyResults = c.earlyResults
  issueHook : Option.Rel (IssueHook.Like L) c.issueHook d.issueHook
  connectDelay : d.connectDelay = c.connectDelay
  looping : d.looping = c.looping

/-- Both orders go through a batch of the same identifiers in the same way. -/
def VisitOrder.Same (o o' : VisitOrder Callback) : Prop :=
  ∀ sweep (b b' : List (Ledger.Entry Callback)), b'.map (·.1) = b.map (·.1) →
    (o'.arrange sweep b').map (·.1) = (o.arrange sweep b).map (·.1)

structure Session.Like (L : Licence) (s t : Session) : Prop where
  client : s.client.Like L t.client
  settings : t.settings = s.settings
  ledger : s.ledger.Like L t.ledger
  handlers : ∀ slot, Option.Rel (Reaction.Like L) (s.handlers slot) (t.handlers slot)
  owned : t.owned = s.owned
  holders : t.holders = s.holders
  order : s.order.Same t.order
  sweeps : t.sweeps = s.sweeps
  journal : List.Forall₂ (Occurrence.Like L) (L.compared s.journal) (L.compared t.journal)

variable {L : Licence}

/-! ## Ledgers that are like each other -/

theorem map_unit_of_rel {α β : Type} {R : α → β → Prop} {a : Option α} {b : Option β}
    (h : Option.Rel R a b) : b.map (fun _ => ()) = a.map fun _ => () := by
  cases h <;> rfl

theorem isSome_of_rel {α β : Type} {R : α → β → Prop} {a : Option α} {b : Option β}
    (h : Option.Rel R a b) : b.isSome = a.isSome := by
  cases h <;> rfl

theorem cases_of_rel {α β : Type} {R : α → β → Prop} {a : Option α} {b : Option β}
    (h : Option.Rel R a b) :
    a = none ∧ b = none ∨ ∃ c d, a = some c ∧ b = some d ∧ R c d := by
  cases h with
  | none => exact .inl ⟨rfl, rfl⟩
  | some h => exact .inr ⟨_, _, rfl, rfl, h⟩

namespace Ledger

variable {l m : Ledger Callback} {id : PacketId} {c c' : Option Callback}

theorem like_empty : Ledger.Like L {} {} :=
  ⟨fun id => by simp, rfl⟩

theorem like_track (h : l.Like L m) (id : PacketId) (hc : Option.Rel (Reaction.Like L) c c') :
    (l.track id c).2.Like L (m.track id c').2 where
  pending := by
    intro k
    rw [getElem?_track, getElem?_track, h.early]
    split
    · exact .some hc
    · exact h.pending k
  early := by
    refine Std.ExtTreeSet.ext_mem fun k => ?_
    rw [mem_early_track, mem_early_track, h.early]

theorem mem_pending_of_like (h : l.Like L m) : id ∈ m.pending ↔ id ∈ l.pending := by
  rw [Std.ExtTreeMap.mem_iff_isSome_getElem?, Std.ExtTreeMap.mem_iff_isSome_getElem?,
    isSome_of_rel (h.pending id)]

theorem like_settle (h : l.Like L m) (id : PacketId) :
    (l.settle id).2.Like L (m.settle id).2 where
  pending := by
    intro k
    rw [getElem?_settle, getElem?_settle]
    split
    · exact .none
    · exact h.pending k
  early := by
    refine Std.ExtTreeSet.ext_mem fun k => ?_
    rw [mem_early_settle, mem_early_settle, h.early, mem_pending_of_like h]

theorem keys_of_like (h : l.Like L m) : m.pending.keys = l.pending.keys := by
  have hshape : m.pending.map (fun _ _ => ()) = l.pending.map (fun _ _ => ()) := by
    refine Std.ExtTreeMap.ext_getElem? fun id => ?_
    rw [Std.ExtTreeMap.getElem?_map, Std.ExtTreeMap.getElem?_map]
    exact map_unit_of_rel (h.pending id)
  rw [← Std.ExtTreeMap.keys_map (t := m.pending) (f := fun _ _ => ()), hshape,
    Std.ExtTreeMap.keys_map]

theorem size_of_like (h : l.Like L m) : m.pending.size = l.pending.size := by
  rw [← Std.ExtTreeMap.length_keys, keys_of_like h, Std.ExtTreeMap.length_keys]

end Ledger

/-! ## Clients that are like each other -/

namespace Client

variable {c d : Client} (h : c.Like L d)
include h

theorem like_add {call call' : Call} (hcall : call.Like L call') :
    (c.add call).Like L (d.add call') :=
  { h with record := .cons hcall h.record }

theorem like_takeReply (m : Method) : (d.takeReply m).1 = (c.takeReply m).1 ∧
    (c.takeReply m).2.Like L (d.takeReply m).2 := by
  unfold takeReply
  rw [h.replies]
  cases c.replies m with
  | nil => exact ⟨rfl, h⟩
  | cons r rest => exact ⟨rfl, { h with replies := rfl }⟩

theorem like_reclaim (id : PacketId) : (c.reclaim id).Like L (d.reclaim id) :=
  { h with pool := by rw [reclaim, reclaim, h.pool] }

theorem like_setSink (installed : Bool) :
    (c.setSink installed).Like L (d.setSink installed) :=
  { like_add h (.same (.setSink installed)) with sink := rfl }

/-- Both take the same identifier, or neither finds one. -/
theorem like_takeId :
    Option.Rel (fun p q => q.1 = p.1 ∧ Client.Like L p.2 q.2) c.takeId d.takeId := by
  unfold takeId
  rw [h.queuedIds, h.pool]
  cases c.queuedIds with
  | nil =>
    cases c.pool.lend with
    | none => exact .none
    | some lent => exact .some ⟨rfl, { h with queuedIds := rfl, pool := rfl }⟩
  | cons id rest => exact .some ⟨rfl, { h with queuedIds := rfl, pool := rfl }⟩

theorem like_outlasts (limit : Duration) : d.outlasts limit = c.outlasts limit := by
  rw [outlasts, outlasts, h.connectDelay]

theorem like_connect (request : ConnectRequest) (limit : Option Duration) :
    (d.connect request limit).1 = (c.connect request limit).1 ∧
      (c.connect request limit).2.Like L (d.connect request limit).2 := by
  have hadd := like_add h (.same (.connect request))
  have hlimit : limit.any (d.add (.connect request)).outlasts =
      limit.any (c.add (.connect request)).outlasts :=
    congrArg limit.any (funext fun l => like_outlasts hadd l)
  obtain ⟨hreply, hlike⟩ := like_takeReply hadd .connect
  simp only [connect]
  rw [hlimit]
  split
  · exact ⟨rfl, hadd⟩
  · exact ⟨congrArg some hreply, hlike⟩

theorem like_disconnect : d.disconnect.1 = c.disconnect.1 ∧
    Client.Like L c.disconnect.2 d.disconnect.2 :=
  like_takeReply (like_add h (.same .disconnect)) .disconnect

/-- A call on the network loop, which leaves it as `looping` says if it goes well. -/
theorem like_loop {call : Call} {m : Method} {r r' : Reply} {e e' : Client} (looping : Bool)
    (hc : (c.add call).takeReply m = (r, e)) (hd : (d.add call).takeReply m = (r', e')) :
    r' = r ∧ e.Like L e' ∧
      Client.Like L { e with looping := looping } { e' with looping := looping } := by
  obtain ⟨hreply, hlike⟩ := like_takeReply (like_add h (.same call)) m
  rw [hc, hd] at hreply hlike
  exact ⟨hreply, hlike, { hlike with looping := rfl }⟩

theorem like_startLoop : d.startLoop.1 = c.startLoop.1 ∧
    Client.Like L c.startLoop.2 d.startLoop.2 := by
  cases hc : (c.add .startLoop).takeReply .startLoop with | mk r e
  cases hd : (d.add .startLoop).takeReply .startLoop with | mk r' e'
  obtain ⟨rfl, hlike, hstarted⟩ := like_loop h true hc hd
  rw [startLoop, startLoop, hc, hd]
  cases r' with
  | ok _ => exact ⟨rfl, hstarted⟩
  | error _ => exact ⟨rfl, hlike⟩

theorem like_stopLoop : d.stopLoop.1 = c.stopLoop.1 ∧
    Client.Like L c.stopLoop.2 d.stopLoop.2 := by
  cases hc : (c.add .stopLoop).takeReply .stopLoop with | mk r e
  cases hd : (d.add .stopLoop).takeReply .stopLoop with | mk r' e'
  obtain ⟨rfl, hlike, hstopped⟩ := like_loop h false hc hd
  rw [stopLoop, stopLoop, hc, hd]
  cases r' with
  | ok _ => exact ⟨rfl, hstopped⟩
  | error _ => exact ⟨rfl, hlike⟩

theorem like_countCalls (m : Method) : d.countCalls m = c.countCalls m := by
  have hmethod {call call' : Call} (hcall : call.Like L call') : call'.method? = call.method? := by
    cases hcall <;> rfl
  have hcount {r r' : List Call} (hr : List.Forall₂ (Call.Like L) r r') :
      r'.countP (·.method? = some m) = r.countP (·.method? = some m) := by
    induction hr with
    | nil => rfl
    | cons hcall _ ih => rw [List.countP_cons, List.countP_cons, ih, hmethod hcall]
  exact hcount h.record

end Client

end MqttLink
