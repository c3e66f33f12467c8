import MqttLink.Proofs.Conservation
import MqttLink.Proofs.Exchange
import MqttLink.Proofs.Simulation

/-!
Requests that are acknowledged while they are still being made, and requests that are acknowledged
right afterwards. Main statement: both end alike, and the callback is called once in both, at the
same view of the tables.
-/

namespace MqttLink

/-- The request that a step makes, and its callback. -/
def Step.request? : Step → Option (Session.Request × Option Callback)
  | subscribe filter level callback =>
    (Qos.ofLevel? level).map fun qos => (.subscribe filter qos, callback)
  | unsubscribe filter callback => some (.unsubscribe filter, callback)
  | publish topic payload level callback =>
    (Qos.ofLevel? level).map fun qos => (.publish topic payload qos, callback)
  | _ => none

/-- What a request under `id` answers when its callback came back with this outcome. -/
def Answer.ofTracked (id : PacketId) : Except Fatal Unit → Answer
  | .ok _ => .id id
  | .error f => .fault (.fatal f)

namespace Client

variable {c d next : Client} {id : PacketId}

/-- The identifier is chosen by the queue and the pool alone. -/
theorem takeId_of_steady (h : c.Steady d) (hid : c.takeId = some (id, next)) :
    d.takeId = some (id, { d with queuedIds := next.queuedIds, pool := next.pool }) := by
  unfold takeId at hid ⊢
  rw [h.queuedIds, h.pool]
  cases hq : c.queuedIds with
  | cons k rest =>
    rw [hq] at hid
    cases hid
    rw [← h.pool]
  | nil =>
    rw [hq] at hid
    obtain ⟨⟨k, p⟩, hl, hk⟩ := Option.map_eq_some_iff.mp hid
    cases hk
    have hd : d.queuedIds = [] := h.queuedIds.trans hq
    simp only [hl, Option.map_some, ← hd]

/-- Whether requests are acknowledged early has no part in the choice of a reply. -/
theorem takeReply_completesEarly (c : Client) (m : Method) (early : Bool) :
    ({ c with completesEarly := early } : Client).takeReply m =
      ((c.takeReply m).1, { (c.takeReply m).2 with completesEarly := early }) := by
  simp only [takeReply]
  split <;> rfl

theorem earlyResults_takeReply (c : Client) (m : Method) :
    (c.takeReply m).2.earlyResults = c.earlyResults := by
  unfold takeReply
  split <;> rfl

end Client

namespace Session

open Play

variable {s t u : Session} {r : Request} {callback : Option Callback} {step : Step}
  {id : PacketId} {next : Client} {depth : Nat}

/-- The session, with its requests acknowledged from inside the request or not. -/
def completingEarly (s : Session) (early : Bool) : Session :=
  { s with client := { s.client with completesEarly := early } }

/-- The session whose client has accepted a request under `id`, and is to choose its identifiers
like `next` from then on. -/
def granting (s : Session) (r : Request) (id : PacketId) (next : Client) : Session :=
  ({ s with client := { ((s.client.add r.call).takeReply r.method).2 with
      queuedIds := next.queuedIds, pool := next.pool } } : Session).noted (.issued r.method id 0)

theorem steady_granting (s : Session) (r : Request) :
    s.client.Steady ((s.client.add r.call).takeReply r.method).2 :=
  Client.steady_called rfl

/-- The session whose link is kept alive by a request, in the span of that request. -/
def requesting (s : Session) (r : Request) : Session :=
  ({ s with holders := s.holders + 1 } : Session).entering r.operation r.arguments

/-- The session when the request is over. -/
def requested (s : Session) (r : Request) : Session :=
  { s.noted (.left r.operation) with holders := s.holders - 1 }

/-- The session whose link is kept alive by the acknowledgement of an operation that waits, and is
about to call its callback; `o` tells of the event. -/
def hearing (s : Session) (o : Occurrence) (id : PacketId) : Session :=
  (({ (s.freeing id).noted o with holders := s.holders + 1 } : Session).settling id).noted
    (.settled id)

/-- In `t` the link is as it was in `s`, with the client `c`, after entries that call nobody. -/
structure Restored (c : Client) (s t : Session) : Prop where
  ledger : t.ledger = s.ledger
  owned : t.owned = s.owned
  order : t.order = s.order
  sweeps : t.sweeps = s.sweeps
  client : t.client = c
  journal : ∃ before, t.journal = before ++ s.journal ∧ ∀ o ∈ before, o.invocation? = none

/-- From `s` to `t` the callback of the operation `id` was called, and told that the operation is
completed. It found the tables as `view` has them, `later` was written down since, and nobody was
called before. It was called just once, if nobody handed it over once more in the meantime. -/
structure CalledOnce (id : PacketId) (c : Callback) (view : View) (later : List Occurrence)
    (s t : Session) : Prop where
  journal : ∃ before, t.journal = later ++ .invoked id c .completed view :: (before ++ s.journal) ∧
    ∀ o ∈ before, o.invocation? = none
  once : ∀ p : Callback → Bool, p c → t.trackings id p = s.trackings id p + 1 →
    t.invocations id p = s.invocations id p + 1

/-! ## The request and its acknowledgement -/

section

variable (run : Runner)

theorem issue_granting (hreply : (s.client.takeReply r.method).1 = .ok 0)
    (hid : s.client.takeId = some (id, next)) :
    issue run r s = conclude run r id 0 (s.granting r id next) := by
  have htake : (s.client.add r.call).takeReply r.method =
      (.ok 0, ((s.client.add r.call).takeReply r.method).2) := by
    rw [← hreply, ← takeReply_add s.client r.call]
  rw [issue_of_reply run htake, Client.takeId_of_steady (steady_granting s r) hid]
  rfl

theorem perform_request (hs : s.owned) (hstep : step.request? = some (r, callback)) :
    perform run step s = holding (answeringRequest run r callback) s := by
  cases step with
  | subscribe filter level c =>
    obtain ⟨qos, hq, heq⟩ := Option.map_eq_some_iff.mp hstep
    cases heq
    rw [perform, withLink_of_owned hs]
    simp only [withQos, hq]
  | unsubscribe filter c =>
    cases hstep
    exact withLink_of_owned hs _
  | publish topic payload level c =>
    obtain ⟨qos, hq, heq⟩ := Option.map_eq_some_iff.mp hstep
    cases heq
    rw [perform, withQos, hq]
    exact withLink_of_owned hs _
  | _ => cases hstep

/-- A request that the client has accepted answers as its callback came back. -/
theorem perform_request_of_issued {outcome : Except Fatal Unit} (hs : s.owned)
    (hstep : step.request? = some (r, callback)) (hcheck : r.check = .ok ())
    (h : issue run r (s.requesting r) = some (.ok (0, id), t))
    (htrack : track run id callback t = some (outcome, u)) :
    perform run step s = some (Answer.ofTracked id outcome, u.requested r) := by
  obtain ⟨res, hres, hanswer⟩ : ∃ res, trackAccepted run id callback t = some (res, u) ∧
      requestAnswer res = Answer.ofTracked id outcome := by
    rw [trackAccepted, bind_of_eq_some htrack]
    cases outcome <;> exact ⟨_, rfl, rfl⟩
  have hrequest := answeringRequest_of_eq_some
    ((request_of_issued run callback hcheck h).trans hres)
  rw [perform_request run hs hstep, holding_of_eq_some hrequest, hanswer]
  rfl

/-- The acknowledgement of an operation that waits. -/
theorem perform_acknowledgement {ack : Step} (hs : s.owned) (hsink : s.client.sink)
    (hack : ack.acknowledges? = some id) (hp : s.ledger.pending[id]? = some callback) :
    ∃ o : Occurrence, o.quiet ∧ ∀ outcome u,
      invoke? run id .completed callback (s.hearing o id) = some (outcome, u) →
      perform run ack s =
        some (.ofResult (outcome.mapError .fatal), { u with holders := u.holders - 1 }) := by
  obtain ⟨event, hevent, hperform⟩ := perform_acknowledges run hack
  obtain ⟨o, ho, hdeliver⟩ := deliver_acknowledgement run hevent hsink
  refine ⟨o, ho, fun outcome u hu => ?_⟩
  have hsettle : holding (settle run id) ((s.freeing id).noted o) =
      some (outcome, { u with holders := u.holders - 1 }) :=
    holding_of_eq_some ((settle_of_pending (s := { (s.freeing id).noted o with
      holders := s.holders + 1 }) run hp).trans hu)
  have howned : ((s.freeing id).noted o).owned := hs
  have hacknowledge : deliver run event s =
      some (outcome.mapError .fatal, { u with holders := u.holders - 1 }) := by
    rw [hdeliver, acknowledge_of_owned run howned, bind_of_eq_some hsettle]
    rfl
  rw [hperform, answering, bind_of_eq_some hacknowledge]
  rfl

end

/-! ## The two runs -/

section

variable (run : Runner) (hs : s.owned) (hsink : s.client.sink) (hhook : s.client.issueHook = none)
  (hreply : (s.client.takeReply r.method).1 = .ok 0) (hid : s.client.takeId = some (id, next))
include hhook hreply hid

theorem issue_late (he : s.client.completesEarly = false) :
    issue run r s = some (.ok (0, id), s.granting r id next) := by
  have hlate : (s.granting r id next).client.completesEarly = false :=
    (completesEarly_takeReply (s.client.add r.call) r.method).trans he
  exact (issue_granting run hreply hid).trans
    (conclude_of_late run hlate ((steady_granting s r).issueHook.trans hhook))

include hs hsink

theorem issue_early (he : s.client.completesEarly) (hpending : id ∉ s.ledger.pending) :
    ∃ o : Occurrence, o.quiet ∧
      issue run r s = some (.ok (0, id), (s.granting r id next).heardEarly o id) := by
  have hsteady := steady_granting s r
  have hflag : (s.granting r id next).client.completesEarly :=
    (completesEarly_takeReply (s.client.add r.call) r.method).trans he
  have hlistens : (s.granting r id next).client.sink := hsteady.sink.trans hsink
  obtain ⟨o, ho, hconclude⟩ := conclude_of_early (r := r) (s := s.granting r id next) run hflag
    (hsteady.issueHook.trans hhook) hs hlistens (Std.ExtTreeMap.getElem?_eq_none hpending)
  exact ⟨o, ho, (issue_granting run hreply hid).trans hconclude⟩

variable (hstep : step.request? = some (r, callback)) (hcheck : r.check = .ok ())
  (hpending : id ∉ s.ledger.pending) (hearly : id ∉ s.ledger.early)
include hstep hcheck hpending hearly

/-- When requests are acknowledged early, the request itself calls the callback. -/
theorem perform_early (he : s.client.completesEarly) : ∃ v,
    Restored { ((s.granting r id next).client.reclaim id) with
      earlyResults := .ok () :: s.client.earlyResults } s v ∧
    ∀ outcome w, invoke? run id .completed callback v = some (outcome, w) →
      perform run step s = some (Answer.ofTracked id outcome, w.requested r) := by
  obtain ⟨o, ho, hissue⟩ := issue_early (s := s.requesting r) run hs hsink hhook hreply hid he
    hpending
  generalize hgranted : (s.requesting r).granting r id next = granted at hissue
  have hresults : granted.client.earlyResults = s.client.earlyResults := by
    rw [← hgranted]
    exact Client.earlyResults_takeReply (s.client.add r.call) r.method
  have hremembered : id ∈ (granted.heardEarly o id).ledger.early := by
    rw [← hgranted]
    exact (Ledger.mem_early_settle ..).mpr (.inr ⟨rfl, hpending⟩)
  refine ⟨((granted.heardEarly o id).tracking id callback).noted (.foundAcknowledged id), ?_,
    fun outcome w hw => perform_request_of_issued run hs hstep hcheck hissue
      ((track_of_mem_early run hremembered callback).trans hw)⟩
  have hquiet := Occurrence.invocation?_of_quiet ho
  rw [← hresults]
  subst hgranted
  exact {
    ledger := Ledger.track_settle hpending hearly callback
    owned := rfl
    order := rfl
    sweeps := rfl
    client := rfl
    journal := ⟨[.foundAcknowledged id, .tracked id callback, .deferred id, o, .acknowledged id,
      .issued r.method id 0, .entered (.ofCall r.operation r.arguments s.settings)], rfl, by
        simpa only [List.forall_mem_cons] using ⟨rfl, rfl, rfl, hquiet, rfl, rfl, rfl, nofun⟩⟩ }

/-- When they are not, the acknowledgement does. -/
theorem perform_late {ack : Step} (he : s.client.completesEarly = false)
    (hack : ack.acknowledges? = some id) : ∃ u,
    perform run step s = some (.id id, u) ∧ ∃ v,
    Restored ((s.granting r id next).client.reclaim id) s v ∧
    ∀ outcome w, invoke? run id .completed callback v = some (outcome, w) →
      perform run ack u =
        some (.ofResult (outcome.mapError .fatal), { w with holders := w.holders - 1 }) := by
  have hissue := issue_late (s := s.requesting r) run hhook hreply hid he
  generalize hgranted : (s.requesting r).granting r id next = granted at hissue
  have htrack : track run id callback granted =
      some (.ok (), (granted.tracking id callback).noted (.waiting id)) := by
    refine track_of_absent run ?_ ?_ callback
    · rwa [← hgranted]
    · rwa [← hgranted]
  have hrequest := perform_request_of_issued run hs hstep hcheck hissue htrack
  generalize hwaiting :
    ((granted.tracking id callback).noted (.waiting id)).requested r = waiting at hrequest
  have hwaits : waiting.ledger.pending[id]? = some callback := by
    rw [← hwaiting, ← hgranted]
    exact (Ledger.getElem?_track ..).trans (if_pos ⟨rfl, hearly⟩)
  have howned : waiting.owned := by rwa [← hwaiting, ← hgranted]
  have hlistens : waiting.client.sink := by
    rw [← hwaiting, ← hgranted]
    exact (steady_granting s r).sink.trans hsink
  obtain ⟨o, ho, hperform⟩ := perform_acknowledgement run howned hlistens hack hwaits
  refine ⟨waiting, hrequest, waiting.hearing o id, ?_, hperform⟩
  have hquiet := Occurrence.invocation?_of_quiet ho
  subst hwaiting hgranted
  exact {
    ledger := Ledger.settle_track hpending hearly callback
    owned := rfl
    order := rfl
    sweeps := rfl
    client := rfl
    journal := ⟨[.settled id, o, .acknowledged id, .left r.operation, .waiting id,
      .tracked id callback, .issued r.method id 0,
      .entered (.ofCall r.operation r.arguments s.settings)], rfl, by
        simpa only [List.forall_mem_cons] using
          ⟨rfl, hquiet, rfl, rfl, rfl, rfl, rfl, rfl, nofun⟩⟩ }

end

/-! ## Both runs together -/

theorem granting_completingEarly (s : Session) (r : Request) (id : PacketId) (next : Client)
    (early : Bool) : ((s.completingEarly early).granting r id next).client =
      { (s.granting r id next).client with completesEarly := early } := by
  have htake := congrArg Prod.snd
    (Client.takeReply_completesEarly (s.client.add r.call) r.method early)
  exact congrArg (fun c : Client =>
    { c with queuedIds := next.queuedIds, pool := next.pool }) htake

/-- The clients of both runs differ in no more than what they keep of early acknowledgements. -/
theorem reclaim_granting (s : Session) (r : Request) (id : PacketId) (next : Client) :
    ((s.completingEarly false).granting r id next).client.reclaim id =
      { ({ ((s.completingEarly true).granting r id next).client.reclaim id with
          earlyResults := .ok () :: s.client.earlyResults } : Client) with
        completesEarly := false, earlyResults := s.client.earlyResults } := by
  have hresults : (s.granting r id next).client.earlyResults = s.client.earlyResults :=
    Client.earlyResults_takeReply (s.client.add r.call) r.method
  rw [granting_completingEarly, granting_completingEarly, ← hresults]
  rfl

theorem twin_of_restored {c : Client} {a : Session} (h : Restored c s t)
    (ha : a = { s with client := a.client }) (hp : c.pool = a.client.pool) : Twin a t a t where
  ledger := by rw [ha]; exact h.ledger
  owned := by rw [ha]; exact h.owned
  order := by rw [ha]; exact h.order
  sweeps := by rw [ha]; exact h.sweeps
  left := rfl
  right := rfl
  pool := by rw [h.client, hp]
  journal := ⟨[], rfl, rfl⟩

theorem calledOnce_of_journal {c : Callback} {view : View} {later before : List Occurrence}
    (hj : t.journal = later ++ .invoked id c .completed view :: (before ++ s.journal))
    (hbefore : ∀ o ∈ before, o.invocation? = none) (hpending : id ∉ s.ledger.pending)
    (hsame : ∀ p, SameInHand id p s t) : CalledOnce id c view later s t where
  journal := ⟨before, hj, hbefore⟩
  once p hc htracked := by
    have hwaits : s.waiting id p = 0 :=
      waiting_of_not_pending (Std.ExtTreeMap.getElem?_eq_none hpending)
    have hcalled : s.invocations id p + 1 ≤ t.invocations id p := by
      simp only [invocations, hj, List.countP_append, List.countP_cons, Occurrence.invokes, hc]
      simp
      omega
    have hdisplaced : s.displacements id p ≤ t.displacements id p := by
      simp only [displacements, hj, List.countP_append, List.countP_cons]
      omega
    have hbalance := hsame p
    simp only [SameInHand, inHand, hwaits] at hbalance
    omega

/-- In one run a request is acknowledged while it is made, in the other right afterwards. Both come
to their end if the callback comes back and nothing but the ledger is used meanwhile, and so it is
if neither the callback nor those that wait hand over anything but work on the ledger. Both leave
the same ledger, and the same client but for what it keeps of early acknowledgements; the callback
is called once in both, at the same view of the tables, in the first run before the request is over.
Its fatal fault comes out of the request in
the first run, and out of the acknowledgement in the second. -/
theorem performTo_early_or_late {ack : Step} (hs : s.owned) (hsink : s.client.sink)
    (hhook : s.client.issueHook = none) (hstep : step.request? = some (r, callback))
    (hcheck : r.check = .ok ()) (hreply : (s.client.takeReply r.method).1 = .ok 0)
    (hid : s.client.takeId = some (id, next)) (hpending : id ∉ s.ledger.pending)
    (hearly : id ∉ s.ledger.early) (hack : ack.acknowledges? = some id) :
    ((∀ c, callback = some c → c.Confined (·.aboutLedger)) →
      s.ledger.All (·.Confined (·.aboutLedger)) →
      s.ledger.weight + callbackWeight? callback ≤ depth →
      ∃ outcome, ComesBack depth id callback { s with client := next.reclaim id } outcome) ∧
    ∀ outcome, ComesBack depth id callback { s with client := next.reclaim id } outcome →
      ∃ t u v later,
        performTo (depth + 1) step (s.completingEarly true) =
          some (Answer.ofTracked id outcome, t) ∧
        performTo (depth + 1) step (s.completingEarly false) = some (.id id, u) ∧
        performTo (depth + 1) ack u = some (.ofResult (outcome.mapError .fatal), v) ∧
        v.ledger = t.ledger ∧
        v.client = { t.client with
          completesEarly := false, earlyResults := s.client.earlyResults } ∧
        ∀ c, callback = some c →
          CalledOnce id c ⟨s.ledger, next.pool.reclaim id⟩ (.left r.operation :: later) s t ∧
          CalledOnce id c ⟨s.ledger, next.pool.reclaim id⟩ later s v := by
  refine ⟨fun hc hwaiting hw => exists_comesBack id hc ⟨hs, hwaiting⟩ hw, fun outcome hback => ?_⟩
  have htake (early : Bool) : (s.completingEarly early).client.takeId =
      some (id, { (s.completingEarly early).client with
        queuedIds := next.queuedIds, pool := next.pool }) :=
    Client.takeId_of_steady (c := s.client) ⟨rfl, rfl, rfl, rfl⟩ hid
  have haccepts (early : Bool) :
      ((s.completingEarly early).client.takeReply r.method).1 = .ok 0 :=
    (congrArg Prod.fst (Client.takeReply_completesEarly s.client r.method early)).trans hreply
  obtain ⟨x, hx, hrequest⟩ := perform_early (s := s.completingEarly true) (performTo depth) hs hsink
    hhook (haccepts true) (htake true) hstep hcheck hpending hearly rfl
  obtain ⟨u, hu, y, hy, hacknowledge⟩ := perform_late (s := s.completingEarly false)
    (performTo depth) hs hsink hhook (haccepts false) (htake false) hstep hcheck hpending hearly rfl
    hack
  obtain ⟨later, ledger, hcalled⟩ := exists_called hback
  obtain ⟨t, ht, htledger, htclient, htjournal⟩ := hcalled x (twin_of_restored hx rfl rfl)
  obtain ⟨v, hv, hvledger, hvclient, hvjournal⟩ := hcalled y (twin_of_restored hy rfl rfl)
  have hfirst : performTo (depth + 1) step (s.completingEarly true) = _ :=
    hrequest outcome t ht
  have hsecond : performTo (depth + 1) ack u = _ := hacknowledge outcome v hv
  have hbetween : performTo (depth + 1) step (s.completingEarly false) = _ := hu
  refine ⟨t.requested r, u, { v with holders := v.holders - 1 }, later,
    hfirst, hu, hsecond, hvledger.trans htledger.symm, ?_, fun c hc => ⟨?_, ?_⟩⟩
  · calc v.client = _ := hvclient.trans hy.client
      _ = _ := reclaim_granting s r id next
      _ = { t.client with completesEarly := false, earlyResults := s.client.earlyResults } := by
        rw [htclient, hx.client]
        rfl
  · obtain ⟨before, hbefore, hnobody⟩ := hx.journal
    have hsame (p : Callback → Bool) : SameInHand id p (s.completingEarly true) _ :=
      (law_sameInHand id p).within_performTo _ _ hfirst
    refine calledOnce_of_journal ((congrArg (_ :: ·) (htjournal c hc)).trans ?_) hnobody hpending
      hsame
    rw [hbefore]
    rfl
  · obtain ⟨before, hbefore, hnobody⟩ := hy.journal
    have hsame (p : Callback → Bool) : SameInHand id p (s.completingEarly false) _ :=
      IsTrans.trans _ _ _ ((law_sameInHand id p).within_performTo _ _ hbetween)
        ((law_sameInHand id p).within_performTo _ _ hsecond)
    refine calledOnce_of_journal ((hvjournal c hc).trans ?_) hnobody hpending hsame
    rw [hbefore]
    rfl

/-- A callback that hands over another operation and fails. -/
def relaying : Callback :=
  ⟨"relay", [.track 7 none], .error (.fatal ⟨"stop"⟩), true⟩

/-- The first request of a link, with a callback that works on the ledger and fails. -/
theorem performTo_early_or_late_relaying : ∃ t u v,
    performTo 2 (.unsubscribe "t" (some relaying))
      ((opened {} (.ascending _)).completingEarly true) =
        some (.fault (.fatal ⟨"stop"⟩), t) ∧
    performTo 2 (.unsubscribe "t" (some relaying))
      ((opened {} (.ascending _)).completingEarly false) = some (.id 1, u) ∧
    performTo 2 (.acknowledgeUnsubscribe 1) u = some (.fault (.fatal ⟨"stop"⟩), v) ∧
    v.ledger = t.ledger ∧ v.client.pool = t.client.pool := by
  generalize hs : opened {} (.ascending _) = s
  generalize hnext : ({ s.client with pool := ⟨1, ∅⟩ } : Client) = next
  have htake : s.client.takeId = some (1, next) := by
    rw [← hnext, ← hs, takeId_of_queuedIds rfl]
    exact congrArg (Option.map _) lend_fresh
  have hstep : (Step.unsubscribe "t" (some relaying)).request? =
      some (.unsubscribe "t", some relaying) := rfl
  have hack : (Step.acknowledgeUnsubscribe 1).acknowledges? = some 1 := rfl
  have hback : ComesBack 1 1 (some relaying) { s with client := next.reclaim 1 }
      (.error ⟨"stop"⟩) := by
    subst hs
    exact ⟨_, rfl⟩
  have hempty : (1 : PacketId) ∉ s.ledger.pending ∧ 1 ∉ s.ledger.early := by
    rw [← hs]
    simp [opened, attached]
  obtain ⟨t, u, v, -, hearly, hlate, hacknowledged, hledger, hclient, -⟩ :=
    (performTo_early_or_late (by rw [← hs]; rfl) (by rw [← hs]; rfl) (by rw [← hs]; rfl) hstep rfl
      (by rw [← hs]; rfl) htake hempty.1 hempty.2 hack).2 _ hback
  exact ⟨t, u, v, hearly, hlate, hacknowledged, hledger, by rw [hclient]⟩

end Session

end MqttLink
