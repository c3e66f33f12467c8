import MqttLink.Proofs.EarlyCompletion
import MqttLink.Proofs.Silence

/-!
Requests that are turned down. They are so by the link itself before the client is asked, or by the
client. Main statement: in either case the tables are left as they are, nobody is called, the
callback of the request is never called later, and the client is left with no identifier on loan
that was not so before.
-/

namespace MqttLink

namespace Fault

/-- Faults that are found before the client is asked. -/
def foundFirst : Fault → Bool
  | invalidTopic _ | payloadTooLarge _ _ => true
  | _ => false

/-- Faults that come from the client. -/
def fromClient : Fault → Bool
  | client _ | rejected _ _ => true
  | _ => false

end Fault

namespace Session

open Play

variable {s t : Session} {r : Request} {callback : Option Callback} {f : Fault} {step : Step}
  {depth : Nat}

/-! ## Requests that the client does not hear of -/

theorem check_publish_of_not_isName {topic : String} (h : Topic.isName topic = false)
    (payload : Payload) (qos : Qos) :
    (Request.publish topic payload qos).check = .error (.invalidTopic topic) := by
  have hname : Topic.checkName topic = .error (.invalidTopic topic) := by
    simp [Topic.checkName, h]
  rw [Request.check, hname]
  rfl

theorem foundFirst_of_check (h : r.check = .error f) : f.foundFirst := by
  have hfilter {filter : String} (h : Topic.checkFilter filter = .error f) : f.foundFirst := by
    unfold Topic.checkFilter at h
    split at h
    · cases h
    · cases h
      rfl
  cases r with
  | subscribe filter _ => exact hfilter h
  | unsubscribe filter => exact hfilter h
  | publish topic payload qos =>
    cases hname : Topic.isName topic with
    | false =>
      cases (check_publish_of_not_isName hname payload qos).symm.trans h
      rfl
    | true =>
      have hok : Topic.checkName topic = .ok () := if_pos hname
      rw [Request.check, hok] at h
      change (if Payload.maxSize < payload.size then _ else _) = _ at h
      split at h
      · cases h
        rfl
      · cases h

/-! ## Requests that the client hears of -/

/-- How a request is turned down at `s`: with which fault, and in which state after. -/
inductive TurnedDown (r : Request) (s : Session) : Fault → Session → Prop
  /-- The link turns it down by itself. -/
  | unasked {f : Fault} (check : r.check = .error f) : TurnedDown r s f s
  /-- The client turns it down. -/
  | asked {f : Fault} (c : Client) (news : List Occurrence) (fromClient : f.fromClient)
      (record : c.record = r.call :: s.client.record)
      (onLoan : s.client.queuedIds = [] → ∀ k, c.pool.onLoan k ↔ s.client.pool.onLoan k)
      (journal : ∀ o ∈ news, ¬ o.onLedger ∧ ¬ o.isCall) :
      TurnedDown r s f { s with client := c, journal := news ++ s.journal }

/-- A request that the client accepts fails only if its callback does. -/
theorem isFatal_of_accepted {run : Runner} (id : PacketId) (hcheck : r.check = .ok ())
    (hissue : ∀ res u, issue run r s = some (res, u) → res = .ok (0, id))
    (h : request run r callback s = some (.error f, t)) : f.isFatal := by
  have hrequest := h
  rw [request, hcheck] at h
  obtain ⟨res, u, hu, -⟩ := bind_eq_some_iff.mp h
  rw [hissue res u hu] at hu
  rw [request_of_issued run callback hcheck hu] at hrequest
  obtain ⟨outcome, v, -, hv⟩ := bind_eq_some_iff.mp hrequest
  cases outcome <;> cases hv
  rfl

/-- An identifier that the client chooses and takes back is no more on loan than before. -/
theorem onLoan_reclaim_of_takeId {c d : Client} {id : PacketId} (h : c.takeId = some (id, d))
    (hq : c.queuedIds = []) (k : PacketId) :
    (d.reclaim id).pool.onLoan k ↔ c.pool.onLoan k := by
  rw [takeId_of_queuedIds hq] at h
  obtain ⟨⟨i, q⟩, hlend, heq⟩ := Option.map_eq_some_iff.mp h
  cases heq
  exact PacketId.Pool.onLoan_reclaim_of_lend hlend

/-- Without a hook, a request is turned down whatever its callback, or fails only fatally. -/
theorem request_turnedDown (run : Runner) (r : Request) (hhook : s.client.issueHook = none) :
    (∃ f t, TurnedDown r s f t ∧ ∀ callback, request run r callback s = some (.error f, t)) ∨
    ∀ callback f t, request run r callback s = some (.error f, t) → f.isFatal := by
  cases hcheck : r.check with
  | error f =>
    exact .inl ⟨f, s, .unasked hcheck, fun callback => request_of_check run callback hcheck⟩
  | ok _ =>
    obtain ⟨reply, c, hc⟩ : ∃ reply c, (s.client.add r.call).takeReply r.method = (reply, c) :=
      ⟨_, _, rfl⟩
    have hsteady : s.client.Steady c := Client.steady_called hc
    have hrecord : c.record = r.call :: s.client.record := Client.record_of_called hc
    cases reply with
    | error g =>
      refine .inl ⟨.client g, _, .asked c [] rfl hrecord (fun _ k => ?_) (by simp),
        fun callback => request_of_failed run callback hcheck (issue_of_error run hc)⟩
      rw [hsteady.pool]
    | ok code =>
      have hissue := issue_of_reply run hc
      cases htake : c.takeId with
      | none =>
        rw [htake] at hissue
        refine .inl ⟨.client noFreeId, _, .asked c [] rfl hrecord (fun _ k => ?_) (by simp),
          fun callback => request_of_failed run callback hcheck hissue⟩
        rw [hsteady.pool]
      | some chosen =>
        obtain ⟨id, d⟩ := chosen
        rw [htake] at hissue
        by_cases hcode : code = 0
        · subst hcode
          refine .inr fun callback f t h => isFatal_of_accepted id hcheck (fun res u hu => ?_) h
          rw [hissue] at hu
          exact (exists_of_conclude _ hu).1
        · obtain ⟨ids, pool, hd⟩ := Client.exists_of_takeId htake
          have hhook : d.issueHook = none := by
            rw [hd]
            exact hsteady.issueHook.trans hhook
          have hconclude : conclude run r id code
              (({ s with client := d } : Session).noted (.issued r.method id code)) = _ :=
            conclude_of_ne_zero run hcode hhook
          refine .inl ⟨.rejected r.operation code, _,
            .asked (d.reclaim id) [.rejected r.operation code, .issued r.method id code] rfl
              ?_ (fun hq k => ?_) (by simp [Occurrence.onLedger, Occurrence.isCall]),
            fun callback =>
              request_of_rejected run callback hcheck hcode (hissue.trans hconclude)⟩
          · rw [hd]
            exact hrecord
          · rw [onLoan_reclaim_of_takeId htake (hsteady.queuedIds.trans hq), hsteady.pool]

/-! ## What a request leaves behind that is turned down -/

theorem told_of_turnedDown (h : TurnedDown r s f t) : t.told = s.told := by
  cases h with
  | unasked _ => rfl
  | asked c news _ _ _ hjournal =>
    have hnews : news.filter (·.isCall) = [] :=
      List.filter_eq_nil_iff.mpr fun o ho => (hjournal o ho).2
    rw [told, List.filter_append, hnews, List.nil_append, told]

theorem trackings_of_turnedDown (h : TurnedDown r s f t) (id : PacketId) (p : Callback → Bool) :
    t.trackings id p = s.trackings id p := by
  cases h with
  | unasked _ => rfl
  | asked c news _ _ _ hjournal =>
    have hnews : news.countP (·.tracks id p) = 0 := List.countP_eq_zero.mpr fun o ho htracks =>
      (hjournal o ho).1 (Occurrence.onLedger_of_tracks htracks)
    rw [trackings, List.countP_append, hnews, Nat.zero_add, trackings]

theorem fromClient_of_turnedDown (h : TurnedDown r s f t) :
    f.foundFirst ∧ t = s ∨ f.fromClient ∧ t.client.record = r.call :: s.client.record ∧
      (s.client.queuedIds = [] → ∀ k, t.client.pool.onLoan k ↔ s.client.pool.onLoan k) := by
  cases h with
  | unasked hcheck => exact .inl ⟨foundFirst_of_check hcheck, rfl⟩
  | asked c news hclient hrecord hpool _ => exact .inr ⟨hclient, hrecord, hpool⟩

/-- The session after a request that did nothing. -/
def passing (s : Session) (r : Request) : Session :=
  { s with
    journal := .left r.operation :: .entered (.ofCall r.operation r.arguments s.settings) ::
      s.journal }

theorem same_of_turnedDown (h : TurnedDown r (s.requesting r) f t) :
    t.requested r =
      { s with client := (t.requested r).client, journal := (t.requested r).journal } := by
  cases h with
  | unasked _ | asked _ _ _ _ _ _ => rfl

/-- If no operation waits with a callback of this kind, and none is handed over, none is called. -/
theorem invocations_of_untracked {id : PacketId} {p : Callback → Bool}
    (hsame : SameInHand id p s t) (hgrows : Grows s t) (hwaiting : s.waiting id p = 0)
    (htrackings : t.trackings id p = s.trackings id p) :
    t.invocations id p = s.invocations id p := by
  obtain ⟨news, hn⟩ := hgrows
  have hcalled : s.invocations id p ≤ t.invocations id p := by
    simp only [invocations, hn, List.countP_append]
    omega
  have hdisplaced : s.displacements id p ≤ t.displacements id p := by
    simp only [displacements, hn, List.countP_append]
    omega
  simp only [SameInHand, inHand, hwaiting, htrackings] at hsame
  omega

/-- From `s` to `t` no callback was taken in: none that did not wait at `s` already is called after
`t`, however the session goes on, unless it is handed over then. -/
def TakesNone (s t : Session) : Prop :=
  ∀ deep later u, performAll deep later t = some ((), u) → ∀ (id : PacketId) (p : Callback → Bool),
    s.waiting id p = 0 → u.trackings id p = t.trackings id p →
      u.invocations id p = s.invocations id p

theorem takesNone_of_performTo (h : performTo depth step s = some (.fault f, t))
    (htrackings : ∀ id p, t.trackings id p = s.trackings id p) : s.TakesNone t := by
  intro deep later u hu id p hwaiting hafter
  have hsame : SameInHand id p s u := IsTrans.trans _ _ _
    ((law_sameInHand id p).within_performTo _ _ h) ((law_sameInHand id p).within_performAll hu)
  have hgrows : Grows s u := IsTrans.trans _ _ _ (law_grows.within_performTo _ _ h)
    (law_grows.within_performAll hu)
  exact invocations_of_untracked hsame hgrows hwaiting (hafter.trans (htrackings id p))

/-- A step that makes a request is turned down if the request is. -/
theorem performTo_of_turnedDown (hs : s.owned) (hstep : step.request? = some (r, callback))
    (h : request (performTo depth) r callback (s.requesting r) = some (.error f, t)) :
    performTo (depth + 1) step s = some (.fault f, t.requested r) := by
  have hrequest := answeringRequest_of_eq_some h
  rw [performTo, perform_request (performTo depth) hs hstep, holding_of_eq_some hrequest]
  rfl

theorem exists_turnedDown (hs : s.owned) (hhook : s.client.issueHook = none)
    (hstep : step.request? = some (r, callback))
    (h : performTo (depth + 1) step s = some (.fault f, t)) (hf : ¬ f.isFatal) :
    ∃ u, TurnedDown r (s.requesting r) f u ∧ t = u.requested r ∧
      ∀ other callback, other.request? = some (r, callback) →
        performTo (depth + 1) other s = some (.fault f, t) := by
  have hperform := h
  rw [performTo, perform_request (performTo depth) hs hstep] at hperform
  obtain ⟨_, hu, rfl⟩ := exists_of_holding hperform
  obtain ⟨res, v, hv, hanswer, rfl⟩ := exists_of_answeringRequest hu
  cases res <;> cases hanswer
  obtain ⟨g, w, hdown, hany⟩ | hfatal :=
    request_turnedDown (s := s.requesting r) (performTo depth) r hhook
  · obtain ⟨rfl, rfl⟩ : g = f ∧ w = v := by simpa using (hany callback).symm.trans hv
    exact ⟨w, hdown, rfl, fun other callback hother =>
      performTo_of_turnedDown hs hother (hany callback)⟩
  · exact absurd (hfatal callback f v hv) hf

/-- A request of a link whose client has no hook is turned down if it fails, and not fatally. Then
the tables and the handlers are left as they are, and nobody is called. The state after is the same
whatever callback was passed, which is not taken in, and so not called later either. Either the link
turned the request down for its topic or its payload, and nothing has happened but that its span
began and ended; or the client did, by failing or by rejecting it, and it has recorded this one call
and, if nothing is scripted about identifiers, has the same ones on loan as before. A message to no
valid topic is always turned down for its topic, whatever its payload. -/
theorem performTo_turnedDown (hs : s.owned) (hhook : s.client.issueHook = none) :
    (∀ step r callback f t, step.request? = some (r, callback) →
      performTo (depth + 1) step s = some (.fault f, t) → ¬ f.isFatal →
        t = { s with client := t.client, journal := t.journal } ∧ t.told = s.told ∧
        s.TakesNone t ∧
        (∀ other callback, other.request? = some (r, callback) →
          performTo (depth + 1) other s = some (.fault f, t)) ∧
        (f.foundFirst ∧ t = s.passing r ∨
          f.fromClient ∧ t.client.record = r.call :: s.client.record ∧
            (s.client.queuedIds = [] →
              ∀ k, t.client.pool.onLoan k ↔ s.client.pool.onLoan k))) ∧
    ∀ step topic payload qos callback, step.request? = some (.publish topic payload qos, callback) →
      Topic.isName topic = false →
        performTo (depth + 1) step s =
          some (.fault (.invalidTopic topic), s.passing (.publish topic payload qos)) := by
  refine ⟨fun step r callback f t hstep h hf => ?_,
    fun step topic payload qos callback hstep htopic => ?_⟩
  · obtain ⟨u, hdown, rfl, hany⟩ := exists_turnedDown hs hhook hstep h hf
    have hends : f.foundFirst ∧ u.requested r = s.passing r ∨
        f.fromClient ∧ u.client.record = r.call :: s.client.record ∧
          (s.client.queuedIds = [] →
            ∀ k, u.client.pool.onLoan k ↔ s.client.pool.onLoan k) := by
      refine (fromClient_of_turnedDown hdown).imp_left fun ⟨hfound, hu⟩ => ⟨hfound, ?_⟩
      rw [hu]
      rfl
    have htold := told_of_turnedDown hdown
    have htrackings := trackings_of_turnedDown hdown
    exact ⟨same_of_turnedDown hdown, htold, takesNone_of_performTo h htrackings, hany, hends⟩
  · exact performTo_of_turnedDown hs hstep (request_of_check (performTo depth) callback
      (check_publish_of_not_isName htopic payload qos))

/-- A new link, whose client acknowledges requests early and is about to reject one. -/
def rejecting : Session :=
  let link := opened default (.ascending _)
  { link with client :=
    { link.client.queueReply .unsubscribe (.ok 5) with completesEarly := true } }

theorem issue_rejecting (run : Runner) :
    ∃ t, issue run (.unsubscribe "t") (rejecting.requesting (.unsubscribe "t")) =
      some (.ok (5, 1), t) := by
  have hreply : ((rejecting.client.add (.unsubscribe "t")).takeReply .unsubscribe).1 = .ok 5 := rfl
  generalize hc : (rejecting.client.add (.unsubscribe "t")).takeReply .unsubscribe = taken at hreply
  obtain ⟨_, c⟩ := taken
  subst hreply
  have hsteady : rejecting.client.Steady c := Client.steady_called hc
  have hlend : c.pool.lend = some (1, ⟨1, ∅⟩) := by
    rw [hsteady.pool]
    exact lend_fresh
  rw [issue_of_ok (s := rejecting.requesting (.unsubscribe "t")) (r := .unsubscribe "t") run hc
    hsteady.queuedIds, hlend]
  exact ⟨_, conclude_of_ne_zero run (by decide) hsteady.issueHook⟩

/-- The client rejects the first request of a link, which has a callback. -/
theorem performTo_turnedDown_rejected : ∃ t,
    performTo 1 (.unsubscribe "t" (some ⟨"c", [], .ok (), false⟩)) rejecting =
      some (.fault (.rejected .unsubscribe 5), t) ∧
    t.ledger = rejecting.ledger ∧ t.told = rejecting.told ∧ rejecting.TakesNone t ∧
    t.client.record = .unsubscribe "t" :: rejecting.client.record ∧
    ∀ k, t.client.pool.onLoan k ↔ rejecting.client.pool.onLoan k := by
  obtain ⟨u, hu⟩ := issue_rejecting (performTo 0)
  have hstep : (Step.unsubscribe "t" (some ⟨"c", [], .ok (), false⟩)).request? =
      some (.unsubscribe "t", some ⟨"c", [], .ok (), false⟩) := rfl
  have hdown : performTo 1 _ rejecting = some (.fault (.rejected .unsubscribe 5), _) :=
    performTo_of_turnedDown rfl hstep (request_of_rejected (performTo 0) _ rfl (by decide) hu)
  obtain ⟨hsame, htold, hnone, -, ⟨hfound, -⟩ | ⟨-, hrecord, hpool⟩⟩ :=
    (performTo_turnedDown (s := rejecting) rfl rfl).1 _ _ _ _ _ hstep hdown
      (by simp [Fault.isFatal])
  · cases hfound
  · exact ⟨_, hdown, by rw [hsame], htold, hnone, hrecord, hpool rfl⟩

end Session

end MqttLink
