import MqttLink.Proofs.Calls

/-!
Requests from the client's side, when nothing is scripted about identifiers. Main statements: what
the client makes of a request, and that an acknowledgement frees its identifier before the ledger
hears of it.
-/

namespace MqttLink

namespace Session

open Play

variable (run : Runner) {s t u : Session} {id : PacketId}

/-- The link is there and listens to its client, which chooses the identifiers by itself. -/
structure Linked (s : Session) : Prop where
  owned : s.owned
  sink : s.client.sink
  queuedIds : s.client.queuedIds = []
  issueHook : s.client.issueHook = none
  canonical : s.client.pool.Canonical

theorem linked_of_alike (hs : s.Linked) (h : Alike s t) (hp : t.client.pool.Canonical) :
    t.Linked where
  owned := by rw [h.owned]; exact hs.owned
  sink := by rw [h.sink]; exact hs.sink
  queuedIds := h.queuedIds.trans hs.queuedIds
  issueHook := h.issueHook.trans hs.issueHook
  canonical := hp

theorem linked_of_aside (h : Aside s t) (hs : s.Linked) : t.Linked :=
  linked_of_alike hs h.toAlike (by rw [h.pool]; exact hs.canonical)

theorem linked_opened (settings : Settings) (order : VisitOrder Callback) :
    (opened settings order).Linked :=
  ⟨rfl, rfl, rfl, rfl, PacketId.Pool.canonical_fresh⟩

/-! ## Acknowledgements -/

theorem alike_freeing (s : Session) (id : PacketId) : Alike s (s.freeing id) :=
  ⟨rfl, rfl, rfl, rfl, rfl, rfl⟩

theorem linked_freeing (hs : s.Linked) (id : PacketId) : (s.freeing id).Linked :=
  linked_of_alike hs (alike_freeing s id) (PacketId.Pool.canonical_reclaim hs.canonical id)

theorem onLoan_freeing (s : Session) (id k : PacketId) :
    (s.freeing id).client.pool.onLoan k ↔ k ≠ id ∧ s.client.pool.onLoan k :=
  PacketId.Pool.onLoan_reclaim _ _ _

theorem acknowledge_of_owned (hs : s.owned) : acknowledge run id s =
    (do return Except.mapError Fault.fatal (← holding (settle run id))) s := by
  rw [acknowledge, bind_of_eq_some get_apply, if_pos (by simp [alive, hs])]

/-- The session whose client has an event: an identifier that it acknowledges is free again. -/
def noticing (s : Session) (event : BrokerEvent) : Session :=
  match event.acknowledged? with
  | some id => s.freeing id
  | none => s

/-- An event goes to the link if the link listens. -/
theorem deliver_apply (event : BrokerEvent) (s : Session) :
    deliver run event s =
      if s.client.sink then route run event (s.noticing event)
      else some (.ok (), s.noticing event) := by
  unfold deliver noticing
  cases event.acknowledged? with
  | none =>
    simp only
    rw [bind_of_eq_some get_apply]
    split <;> rfl
  | some id =>
    simp only
    rw [bind_of_eq_some (note_apply _), bind_of_eq_some (changeClient_apply _),
      bind_of_eq_some get_apply]
    have hsame : (s.client.reclaim id).sink = s.client.sink := rfl
    simp only [noted_client, hsame]
    split <;> rfl

/-- The acknowledgement reaches the ledger when its identifier is free again. -/
theorem deliver_acknowledgement {event : BrokerEvent} (h : event.acknowledged? = some id)
    (hs : s.client.sink) :
    ∃ o : Occurrence, o.quiet ∧
      deliver run event s = acknowledge run id ((s.freeing id).noted o) := by
  rw [deliver_apply, if_pos hs]
  cases event with
  | subscribed k granted =>
    cases h
    exact ⟨.subscribed id granted, rfl, rfl⟩
  | unsubscribed k =>
    cases h
    exact ⟨.unsubscribed id, rfl, rfl⟩
  | published k =>
    cases h
    exact ⟨.published id, rfl, rfl⟩
  | _ => cases h

/-! ## Requests -/

/-- From `s` to `t` a request was turned down, and nothing is left of it but entries that say so. -/
structure Refused (s t : Session) : Prop extends Alike s t where
  canonical : t.client.pool.Canonical
  onLoan : ∀ k, t.client.pool.onLoan k ↔ s.client.pool.onLoan k
  ledger : t.ledger = s.ledger
  journal : ∃ news : List Occurrence, t.journal = news ++ s.journal ∧
    ∀ o ∈ news, o.quiet ∨ ∃ m id code, code ≠ 0 ∧ o = .issued m id code

/-- From `s` to `t` the client accepted a request under an identifier that was free: the identifier
is on loan from then on, unless the client has already heard that the request is done. -/
inductive Accepted (r : Request) (id : PacketId) (s t : Session) : Prop
  | late (late : s.client.completesEarly = false) (free : ¬ s.client.pool.onLoan id)
      (alike : Alike s t) (canonical : t.client.pool.Canonical)
      (onLoan : ∀ k, t.client.pool.onLoan k ↔ k = id ∨ s.client.pool.onLoan k)
      (ledger : t.ledger = s.ledger) (journal : t.journal = .issued r.method id 0 :: s.journal)
  | early (early : s.client.completesEarly) (free : ¬ s.client.pool.onLoan id)
      (alike : Alike s t) (canonical : t.client.pool.Canonical)
      (onLoan : ∀ k, t.client.pool.onLoan k ↔ s.client.pool.onLoan k)
      (ledger : t.ledger = (s.ledger.settle id).2)
      (journal : ∃ o : Occurrence, o.quiet ∧ t.journal =
        .deferred id :: o :: .acknowledged id :: .issued r.method id 0 :: s.journal)

/-- What the client makes of a request at `s`: what it answers, and the state after. -/
inductive Issued (r : Request) (s : Session) : Except ClientFault (Int × PacketId) → Session → Prop
  | failed (f : ClientFault) (t : Session) (refused : Refused s t)
      (cause : (s.client.takeReply r.method).1 = .error f ∨ s.client.pool.lend = none) :
      Issued r s (.error f) t
  | rejected (code : Int) (id : PacketId) (t : Session) (hcode : code ≠ 0) (refused : Refused s t)
      (cause : (s.client.takeReply r.method).1 = .ok code) : Issued r s (.ok (code, id)) t
  | accepted (id : PacketId) (t : Session) (accepted : Accepted r id s t) :
      Issued r s (.ok (0, id)) t

theorem refused_of_aside (hs : s.Linked) (h : Aside s t) : Refused s t := by
  obtain ⟨news, hn, hq⟩ := h.journal
  exact {
    toAlike := h.toAlike
    canonical := by rw [h.pool]; exact hs.canonical
    onLoan := fun k => by rw [h.pool]
    ledger := h.ledger
    journal := ⟨news, hn, fun o ho => .inl (hq o ho)⟩ }

theorem refused_noted (h : Refused s t) {o : Occurrence} (ho : o.quiet) :
    Refused s (t.noted o) := by
  obtain ⟨news, hn, hq⟩ := h.journal
  exact {
    toAlike := h.toAlike.trans (alike_noted t o)
    canonical := h.canonical
    onLoan := h.onLoan
    ledger := h.ledger
    journal := ⟨o :: news, congrArg (o :: ·) hn, List.forall_mem_cons.mpr ⟨.inl ho, hq⟩⟩ }

theorem acknowledged?_acknowledgement (r : Request) (id : PacketId) :
    (r.acknowledgement id).acknowledged? = some id := by
  cases r <;> rfl

theorem callHook_of_eq_none (h : s.client.issueHook = none) (m : Method) (id : PacketId) :
    callHook run m id s = some ((), s) := by
  rw [callHook, bind_of_eq_some get_apply]
  simp only [h]
  rfl

/-- An acknowledgement that comes before its operation calls nobody. -/
theorem acknowledge_of_not_pending (hs : s.owned) (hp : s.ledger.pending[id]? = none) :
    acknowledge run id s = some (.ok (), (s.settling id).noted (.deferred id)) := by
  have hdeferred := settle_of_not_pending (s := { s with holders := s.holders + 1 }) run hp
  have hsettle := holding_of_eq_some (s := s) hdeferred
  rw [acknowledge_of_owned run hs, bind_of_eq_some hsettle]
  rfl

/-- The session whose link has heard, under an entry `o` of its own, that the request under `id` is
done, and whose client keeps what came of it. -/
def heardEarly (s : Session) (o : Occurrence) (id : PacketId) : Session :=
  let t := (((s.freeing id).noted o).settling id).noted (.deferred id)
  { t with client := { t.client with earlyResults := .ok () :: t.client.earlyResults } }

theorem alike_heardEarly (s : Session) (o : Occurrence) (id : PacketId) :
    Alike s (s.heardEarly o id) :=
  ⟨rfl, rfl, rfl, rfl, rfl, rfl⟩

/-- The link hears of a request that is done before it tracks the request. -/
theorem acknowledgeEarly_apply (r : Request) (hs : s.owned) (hsink : s.client.sink)
    (hp : s.ledger.pending[id]? = none) :
    ∃ o : Occurrence, o.quiet ∧ acknowledgeEarly run r id s = some ((), s.heardEarly o id) := by
  obtain ⟨o, ho, hdeliver⟩ :=
    deliver_acknowledgement run (acknowledged?_acknowledgement r id) hsink
  have hacknowledge := acknowledge_of_not_pending (s := (s.freeing id).noted o) run hs hp
  exact ⟨o, ho, bind_of_eq_some (hdeliver.trans hacknowledge) _⟩

theorem takeId_of_queuedIds {c : Client} (h : c.queuedIds = []) :
    c.takeId = c.pool.lend.map fun (id, pool) => (id, { c with pool := pool }) := by
  rw [Client.takeId, h]

theorem completesEarly_takeReply (c : Client) (m : Method) :
    (c.takeReply m).2.completesEarly = c.completesEarly := by
  unfold Client.takeReply
  split <;> rfl

theorem completesEarly_called {c d : Client} {call : Call} {m : Method} {reply : Reply}
    (h : (c.add call).takeReply m = (reply, d)) : d.completesEarly = c.completesEarly := by
  have htaken := completesEarly_takeReply (c.add call) m
  rwa [h] at htaken

theorem takeReply_add (c : Client) (call : Call) (m : Method) :
    ((c.add call).takeReply m).1 = (c.takeReply m).1 := by
  simp only [Client.takeReply, Client.add]
  split <;> rfl

/-- What is left to do for the client when it has chosen an identifier. -/
def conclude (r : Request) (id : PacketId) (code : Int) :
    Play (Except ClientFault (Int × PacketId)) := do
  if code ≠ 0 then changeClient (·.reclaim id)
  else if (← get).client.completesEarly then acknowledgeEarly run r id
  callHook run r.method id
  return .ok (code, id)

theorem issue_of_error {r : Request} {c : Client} {f : ClientFault}
    (h : (s.client.add r.call).takeReply r.method = (.error f, c)) :
    issue run r s = some (.error f, { s with client := c }) := by
  have htake : onClient (·.takeReply r.method) { s with client := s.client.add r.call } =
      some (.error f, { s with client := c }) := by
    rw [onClient_apply, h]
  rw [issue, bind_of_eq_some (changeClient_apply _), bind_of_eq_some htake]
  rfl

theorem issue_of_reply {r : Request} {c : Client} {code : Int}
    (h : (s.client.add r.call).takeReply r.method = (.ok code, c)) :
    issue run r s = match c.takeId with
      | none => some (.error noFreeId, { s with client := c })
      | some (id, d) => conclude run r id code
          (({ s with client := d } : Session).noted (.issued r.method id code)) := by
  have htake : onClient (·.takeReply r.method) { s with client := s.client.add r.call } =
      some (.ok code, { s with client := c }) := by
    rw [onClient_apply, h]
  unfold issue
  rw [bind_of_eq_some (changeClient_apply _), bind_of_eq_some htake]
  simp only
  rw [bind_of_eq_some get_apply]
  cases c.takeId <;> rfl

theorem issue_of_ok {r : Request} {c : Client} {code : Int}
    (h : (s.client.add r.call).takeReply r.method = (.ok code, c)) (hq : c.queuedIds = []) :
    issue run r s = match c.pool.lend with
      | none => some (.error noFreeId, { s with client := c })
      | some (id, q) => conclude run r id code
          (({ s with client := { c with pool := q } } : Session).noted
            (.issued r.method id code)) := by
  rw [issue_of_reply run h, takeId_of_queuedIds hq]
  cases c.pool.lend <;> rfl

theorem conclude_of_late {r : Request} (he : s.client.completesEarly = false)
    (hh : s.client.issueHook = none) : conclude run r id 0 s = some (.ok (0, id), s) := by
  rw [conclude, if_neg (by simp), bind_of_eq_some get_apply, if_neg (by simp [he])]
  exact bind_of_eq_some (callHook_of_eq_none run hh _ _) _

theorem conclude_of_ne_zero {r : Request} {code : Int} (hcode : code ≠ 0)
    (hh : s.client.issueHook = none) : conclude run r id code s =
      some (.ok (code, id), { s with client := s.client.reclaim id }) := by
  have hhook := callHook_of_eq_none (s := { s with client := s.client.reclaim id }) run hh
    r.method id
  rw [conclude, if_pos hcode, bind_of_eq_some (changeClient_apply _)]
  exact bind_of_eq_some hhook _

theorem conclude_of_early {r : Request} (he : s.client.completesEarly)
    (hh : s.client.issueHook = none) (hs : s.owned) (hsink : s.client.sink)
    (hp : s.ledger.pending[id]? = none) :
    ∃ o : Occurrence, o.quiet ∧
      conclude run r id 0 s = some (.ok (0, id), s.heardEarly o id) := by
  obtain ⟨o, ho, happly⟩ := acknowledgeEarly_apply run r hs hsink hp
  refine ⟨o, ho, ?_⟩
  rw [conclude, if_neg (by simp), bind_of_eq_some get_apply, if_pos he, bind_of_eq_some happly]
  exact bind_of_eq_some (callHook_of_eq_none (s := s.heardEarly o id) run hh _ _) _

/-- What has become of a request under its identifier when the issue hook is called: the identifier
of a rejected one is free again, and an accepted one may have been acknowledged. -/
inductive BeforeHook (r : Request) (id : PacketId) (code : Int) (s : Session) : Session → Prop
  | rejected (hcode : code ≠ 0) :
      BeforeHook r id code s { s with client := s.client.reclaim id }
  | early {t : Session} (hcode : code = 0) (hearly : s.client.completesEarly)
      (acknowledged : acknowledgeEarly run r id s = some ((), t)) : BeforeHook r id code s t
  | late (hcode : code = 0) (hlate : ¬ s.client.completesEarly) : BeforeHook r id code s s

/-- A request is answered with its identifier, whatever the hook does. -/
theorem exists_of_conclude {r : Request} {code : Int} {res : Except ClientFault (Int × PacketId)}
    (h : conclude run r id code s = some (res, t)) :
    res = .ok (code, id) ∧
      ∃ u, BeforeHook run r id code s u ∧ callHook run r.method id u = some ((), t) := by
  have hhook {u : Session} (h : (do
      callHook run r.method id
      return (Except.ok (code, id) : Except ClientFault (Int × PacketId))) u = some (res, t)) :
      res = .ok (code, id) ∧ callHook run r.method id u = some ((), t) := by
    obtain ⟨_, v, hv, h⟩ := bind_eq_some_iff.mp h
    cases h
    exact ⟨rfl, hv⟩
  by_cases hcode : code = 0
  · rw [conclude, if_neg (by simp [hcode]), bind_of_eq_some get_apply] at h
    by_cases hearly : s.client.completesEarly
    · rw [if_pos hearly] at h
      obtain ⟨_, u, hu, h⟩ := bind_eq_some_iff.mp h
      obtain ⟨hres, hcalled⟩ := hhook h
      exact ⟨hres, u, .early hcode hearly hu, hcalled⟩
    · rw [if_neg hearly] at h
      obtain ⟨hres, hcalled⟩ := hhook h
      exact ⟨hres, s, .late hcode hearly, hcalled⟩
  · rw [conclude, if_pos hcode, bind_of_eq_some (changeClient_apply _)] at h
    obtain ⟨hres, hcalled⟩ := hhook h
    exact ⟨hres, _, .rejected hcode, hcalled⟩

/-- The session when a client that had lent nothing has accepted a request. -/
def accepting (s : Session) (r : Request) : Session :=
  ({ s with client := { s.client.add r.call with pool := ⟨1, ∅⟩ } } : Session).noted
    (.issued r.method 1 0)

theorem lend_fresh : PacketId.Pool.fresh.lend = some (1, ⟨1, ∅⟩) := by
  simp [PacketId.Pool.lend, PacketId.Pool.fresh]

theorem issue_of_fresh {r : Request} (hr : s.client.replies r.method = [])
    (hq : s.client.queuedIds = []) (hp : s.client.pool = .fresh) :
    issue run r s = conclude run r 1 0 (s.accepting r) := by
  have htake : (s.client.add r.call).takeReply r.method = (.ok 0, s.client.add r.call) := by
    have hr : (s.client.add r.call).replies r.method = [] := hr
    rw [Client.takeReply, hr]
  have hlend : (s.client.add r.call).pool.lend = some (1, ⟨1, ∅⟩) :=
    (congrArg PacketId.Pool.lend hp).trans lend_fresh
  rw [issue_of_ok run htake hq, hlend]
  rfl

/-- The client has lent an identifier and makes the request come back. -/
theorem issued_conclude {r : Request} {code : Int} (hlinked : u.Linked) (halike : Alike s u)
    (hreply : (s.client.takeReply r.method).1 = .ok code)
    (hflag : u.client.completesEarly = s.client.completesEarly)
    (hfree : ¬ s.client.pool.onLoan id)
    (honLoan : ∀ k, u.client.pool.onLoan k ↔ k = id ∨ s.client.pool.onLoan k)
    (hledger : u.ledger = s.ledger) (hp : s.ledger.pending[id]? = none)
    (hjournal : u.journal = .issued r.method id code :: s.journal) :
    ∃ res t, conclude run r id code u = some (res, t) ∧ Issued r s res t := by
  have hback (k : PacketId) : (u.client.pool.reclaim id).onLoan k ↔ s.client.pool.onLoan k := by
    rw [PacketId.Pool.onLoan_reclaim, honLoan]
    constructor
    · rintro ⟨hne, rfl | hk⟩
      · exact absurd rfl hne
      · exact hk
    · intro hk
      exact ⟨fun e => hfree (e ▸ hk), .inr hk⟩
  by_cases hcode : code = 0
  · subst hcode
    cases hcompletes : s.client.completesEarly with
    | false =>
      exact ⟨_, u, conclude_of_late run (hflag.trans hcompletes) hlinked.issueHook,
        .accepted id u (.late hcompletes hfree halike hlinked.canonical honLoan hledger hjournal)⟩
    | true =>
      have hnone : u.ledger.pending[id]? = none := by
        rw [hledger]
        exact hp
      obtain ⟨o, ho, hconclude⟩ := conclude_of_early (r := r) run (hflag.trans hcompletes)
        hlinked.issueHook hlinked.owned hlinked.sink hnone
      refine ⟨_, _, hconclude, .accepted id _ (.early hcompletes hfree
        (halike.trans (alike_heardEarly u o id)) ?_ hback ?_ ⟨o, ho, ?_⟩)⟩
      · exact PacketId.Pool.canonical_reclaim hlinked.canonical id
      · exact congrArg (fun l : Ledger Callback => (l.settle id).2) hledger
      · exact congrArg (.deferred id :: o :: .acknowledged id :: ·) hjournal
  · refine ⟨_, _, conclude_of_ne_zero run hcode hlinked.issueHook,
      .rejected code id _ hcode ?_ hreply⟩
    exact {
      toAlike := halike.trans ⟨rfl, rfl, rfl, rfl, rfl, rfl⟩
      canonical := PacketId.Pool.canonical_reclaim hlinked.canonical id
      onLoan := hback
      ledger := hledger
      journal := ⟨[_], hjournal, List.forall_mem_singleton.mpr (.inr ⟨_, _, _, hcode, rfl⟩)⟩ }

/-- A request always comes back from the client, and calls nobody. -/
theorem issue_apply (r : Request) (hs : s.Linked)
    (hp : ∀ id ∈ s.ledger.pending, s.client.pool.onLoan id) :
    ∃ res t, issue run r s = some (res, t) ∧ Issued r s res t := by
  obtain ⟨reply, c, hc⟩ : ∃ reply c, (s.client.add r.call).takeReply r.method = (reply, c) :=
    ⟨_, _, rfl⟩
  have hreply : (s.client.takeReply r.method).1 = reply := by
    rw [← takeReply_add, hc]
  have hsteady : s.client.Steady c := Client.steady_called hc
  have hrefused : Refused s { s with client := c } := refused_of_aside hs (aside_client s hsteady)
  cases reply with
  | error f =>
    refine ⟨.error f, _, ?_, .failed f _ hrefused (.inl hreply)⟩
    have htake : onClient (·.takeReply r.method) { s with client := s.client.add r.call } =
        some (.error f, { s with client := c }) := by
      rw [onClient_apply, hc]
    rw [issue, bind_of_eq_some (changeClient_apply _), bind_of_eq_some htake]
    rfl
  | ok code =>
    rw [issue_of_ok run hc (hsteady.queuedIds.trans hs.queuedIds), hsteady.pool]
    cases hl : s.client.pool.lend with
    | none => exact ⟨_, _, rfl, .failed _ _ hrefused (.inr hl)⟩
    | some lent =>
      obtain ⟨id, q⟩ := lent
      obtain ⟨-, hfree, -, honLoan⟩ := PacketId.Pool.onLoan_of_lend hs.canonical hl
      have hearly : c.completesEarly = s.client.completesEarly := completesEarly_called hc
      have halike : Alike s (({ s with client := { c with pool := q } } : Session).noted
          (.issued r.method id code)) :=
        ⟨rfl, rfl, rfl, hsteady.sink, hsteady.queuedIds, hsteady.issueHook⟩
      exact issued_conclude run
        (linked_of_alike hs halike (PacketId.Pool.canonical_of_lend hs.canonical hl)) halike hreply
        hearly hfree honLoan rfl (Std.ExtTreeMap.getElem?_eq_none fun hm => hfree (hp id hm)) rfl

theorem checkCode_of_ne_zero (o : Operation) {code : Int} (h : code ≠ 0) :
    checkCode o code s = some (.error (.rejected o code), s.noted (.rejected o code)) := by
  rw [checkCode, if_neg h]
  rfl

theorem request_of_check {r : Request} {f : Fault} (callback : Option Callback)
    (hcheck : r.check = .error f) : request run r callback s = some (.error f, s) := by
  rw [request, hcheck]
  rfl

theorem request_of_failed {r : Request} {f : ClientFault} (callback : Option Callback)
    (hcheck : r.check = .ok ()) (h : issue run r s = some (.error f, t)) :
    request run r callback s = some (.error (.client f), t) := by
  rw [request, hcheck]
  exact bind_of_eq_some h _

theorem request_of_rejected {r : Request} {code : Int} (callback : Option Callback)
    (hcheck : r.check = .ok ()) (hcode : code ≠ 0)
    (h : issue run r s = some (.ok (code, id), t)) : request run r callback s =
      some (.error (.rejected r.operation code), t.noted (.rejected r.operation code)) := by
  rw [request, hcheck]
  simp only
  rw [bind_of_eq_some h]
  exact bind_of_eq_some (checkCode_of_ne_zero r.operation hcode) _

/-- What is left to do of a request that the client has accepted. -/
def trackAccepted (id : PacketId) (callback : Option Callback) : Play (Except Fault PacketId) := do
  match ← track run id callback with
  | .error f => return .error (.fatal f)
  | .ok _ => return .ok id

theorem request_of_issued {r : Request} (callback : Option Callback) (hcheck : r.check = .ok ())
    (h : issue run r s = some (.ok (0, id), t)) :
    request run r callback s = trackAccepted run id callback t := by
  rw [request, hcheck]
  simp only
  rw [bind_of_eq_some h]
  rfl

/-- The first request of a client is accepted under the first identifier. -/
theorem request_of_fresh {r : Request} (callback : Option Callback) (hcheck : r.check = .ok ())
    (hr : s.client.replies r.method = []) (hq : s.client.queuedIds = [])
    (hp : s.client.pool = .fresh) (he : s.client.completesEarly = false)
    (hh : s.client.issueHook = none) :
    request run r callback s = trackAccepted run 1 callback (s.accepting r) :=
  request_of_issued run callback hcheck ((issue_of_fresh run hr hq hp).trans
    (conclude_of_late (s := s.accepting r) run he hh))

/-- A request is turned down, or accepted by the client and then tracked with its callback. -/
theorem request_apply (r : Request) (callback : Option Callback) (hs : s.Linked)
    (hp : ∀ id ∈ s.ledger.pending, s.client.pool.onLoan id) :
    (∃ f t, request run r callback s = some (.error f, t) ∧ Refused s t) ∨
    ∃ id t, Accepted r id s t ∧ request run r callback s = trackAccepted run id callback t := by
  cases hcheck : r.check with
  | error f =>
    exact .inl ⟨f, s, request_of_check run callback hcheck, refused_of_aside hs (Aside.refl s)⟩
  | ok _ =>
    obtain ⟨res, t, ht, hissued⟩ := issue_apply run r hs hp
    cases hissued with
    | failed f _ refused _ =>
      exact .inl ⟨_, t, request_of_failed run callback hcheck ht, refused⟩
    | rejected code id _ hcode refused _ =>
      exact .inl ⟨_, _, request_of_rejected run callback hcheck hcode ht,
        refused_noted refused rfl⟩
    | accepted id _ accepted =>
      exact .inr ⟨id, t, accepted, request_of_issued run callback hcheck ht⟩

/-- A valid request is accepted when no other reply is scripted and an identifier is free. -/
theorem request_accepted (r : Request) (callback : Option Callback) (hs : s.Linked)
    (hp : ∀ id ∈ s.ledger.pending, s.client.pool.onLoan id) (hcheck : r.check = .ok ())
    (hreply : (s.client.takeReply r.method).1 = .ok 0) (hlend : s.client.pool.lend ≠ none) :
    ∃ id t, Accepted r id s t ∧ request run r callback s = trackAccepted run id callback t := by
  obtain ⟨res, t, ht, hissued⟩ := issue_apply run r hs hp
  unfold request
  rw [hcheck]
  simp only
  rw [bind_of_eq_some ht]
  cases hissued with
  | failed f _ _ cause =>
    rcases cause with cause | cause
    · rw [hreply] at cause
      cases cause
    · exact absurd cause hlend
  | rejected code id _ hcode _ cause =>
    rw [hreply] at cause
    exact absurd (Except.ok.inj cause).symm hcode
  | accepted id _ accepted => exact ⟨id, t, accepted, rfl⟩

variable {run}

theorem track_of_trackAccepted {callback : Option Callback} {answer : Except Fault PacketId}
    (h : trackAccepted run id callback s = some (answer, t)) :
    ∃ r, track run id callback s = some (r, t) := by
  obtain ⟨r, u, hu, h⟩ := bind_eq_some_iff.mp h
  cases r with
  | error _ =>
    cases h
    exact ⟨_, hu⟩
  | ok _ =>
    cases h
    exact ⟨_, hu⟩

theorem worked_trackAccepted (hrun : Serving run) (id : PacketId) {callback : Option Callback}
    (hc : ∀ c, callback = some c → c.Inert) :
    ∃ res t, trackAccepted run id callback s = some (res, t) ∧
      Worked (s.ledger.track id callback).2
        (if id ∈ s.ledger.early then callOf id .completed callback else []) s t := by
  obtain ⟨r, t, ht, hworked⟩ := worked_track (s := s) hrun id hc
  rw [trackAccepted, bind_of_eq_some ht]
  cases r with
  | error f => exact ⟨_, t, rfl, hworked⟩
  | ok _ => exact ⟨_, t, rfl, hworked⟩

/-- The first request of a link is accepted, and waits. -/
theorem unsubscribe_opened (depth : Nat) (settings : Settings) (order : VisitOrder Callback)
    {filter : String} (hfilter : Topic.checkFilter filter = .ok ()) (callback : Option Callback)
    (hc : ∀ c, callback = some c → c.Inert) :
    ∃ id answer t, performTo (depth + 2) (.unsubscribe filter callback) (opened settings order) =
      some (answer, t) ∧ t.accepted = [id] ∧ id ∈ t.ledger.pending := by
  have hs : (({ opened settings order with holders := 1 } : Session).entering .unsubscribe
      [.topic filter]).Linked :=
    linked_of_aside ((aside_holders _ 1).trans (aside_entering _ _ _))
      (linked_opened settings order)
  have hlend : PacketId.Pool.fresh.lend ≠ none := by
    rw [Ne, PacketId.Pool.lend_eq_none_iff PacketId.Pool.canonical_fresh]
    exact fun hall => PacketId.Pool.not_onLoan_fresh 1 (hall 1 (by decide))
  obtain ⟨id, u, haccepted, hu⟩ := request_accepted (performTo (depth + 1)) (.unsubscribe filter)
    callback hs (by simp [opened, attached, entering]) hfilter rfl hlend
  obtain ⟨res, v, hv, hworked⟩ := worked_trackAccepted (s := u)
    (serving_performTo depth) id hc
  have hanswer := answeringRequest_of_eq_some (r := .unsubscribe filter) (hu.trans hv)
  refine ⟨id, requestAnswer res, _, holding_of_eq_some hanswer, ?_⟩
  cases haccepted with
  | late _ _ _ _ _ ledger journal =>
    have haccepted : u.accepted = [id] := by
      rw [accepted, journal]
      rfl
    have hearly : id ∉ u.ledger.early := by simp [ledger, opened, attached, entering]
    have hwaits : id ∈ v.ledger.pending := by
      rw [hworked.ledger]
      exact Ledger.mem_pending_track.mpr (.inl ⟨rfl, hearly⟩)
    exact ⟨hworked.accepted.trans haccepted, hwaits⟩
  | early early _ _ _ _ _ _ => cases early

end Session

end MqttLink
