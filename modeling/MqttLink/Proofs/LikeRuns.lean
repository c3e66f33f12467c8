import MqttLink.Proofs.Lockstep

/-!
Sessions in lockstep. Main statement: like sessions that take like steps stay like each other,
however deep the steps are nested, and come to the same answers if outcomes differ by no more than
what is swallowed.
-/

namespace MqttLink

variable {L : Licence}

namespace Session

open Play

/-- Requests that agree in all but a payload. -/
inductive Request.Like (L : Licence) : Request → Request → Prop
  | same (r : Request) : Request.Like L r r
  | publish (topic : String) {p p' : Payload} (payload : L.payload p p') (qos : Qos) :
      Request.Like L (.publish topic p qos) (.publish topic p' qos)

namespace Request

variable {r r' : Request} (h : r.Like L r')
include h

theorem Like.call : r.call.Like L r'.call := by
  cases h with
  | same _ => exact .same _
  | publish topic payload qos => exact .publish topic payload qos

theorem Like.method_eq : r'.method = r.method := by
  cases h <;> rfl

theorem Like.operation_eq : r'.operation = r.operation := by
  cases h <;> rfl

theorem Like.acknowledgement_eq (id : PacketId) :
    r'.acknowledgement id = r.acknowledgement id := by
  cases h <;> rfl

/-- The span of a request does not tell of a payload. -/
theorem Like.ofCall_eq (settings : Settings) :
    Span.ofCall r'.operation r'.arguments settings =
      Span.ofCall r.operation r.arguments settings := by
  cases h <;> rfl

/-- What is checked does not look into a payload. -/
theorem Like.check_eq : r'.check = r.check := by
  cases h with
  | same _ => rfl
  | publish topic payload qos => rw [check, check, L.size_eq payload]

end Request

/-! ## Single changes and reports -/

theorem follows_setHandler (slot : Slot) {c c' : Callback} (h : Reaction.Like L c c') :
    Follows L Eq (modify (·.setHandler slot c)) (modify (·.setHandler slot c') : Play Unit) := by
  refine follows_modify fun s t hst => { hst with handlers := fun k => ?_ }
  unfold setHandler
  dsimp only
  split
  · exact .some h
  · exact hst.handlers k

theorem follows_scripting {f g : Client → Client}
    (h : ∀ c d : Client, c.Like L d → (f c).Like L (g d)) :
    Follows L L.Agree (do changeClient f; return Answer.done)
      (do changeClient g; return Answer.done) :=
  follows_bindEq (follows_changeClient h) fun _ => follows_pure fun _ => rfl

section

variable {l m : Ledger Callback} (h : l.Like L m)
include h

theorem isPending_eq_of_like (id : PacketId) : m.isPending id = l.isPending id := by
  rw [Ledger.isPending, Ledger.isPending, Bool.eq_iff_iff, Std.ExtTreeMap.contains_iff_mem,
    Std.ExtTreeMap.contains_iff_mem, Ledger.mem_pending_of_like h]

theorem inspection_eq_of_like (id : PacketId) : inspection m id = inspection l id := by
  rw [inspection, inspection, isPending_eq_of_like h, Ledger.size_of_like h, Ledger.isEarly,
    Ledger.isEarly, h.early]

theorem description_eq_of_like : description m = description l := by
  have hpending : m.pending.size = l.pending.size := Ledger.size_of_like h
  have hearly : m.early.size = l.early.size := congrArg _ h.early
  unfold description
  rw [hpending, hearly]

end

/-! ## Events -/

section

variable {run run' : Runner}
  (hrun : ∀ x y, Step.Like L x y → Follows L L.Agree (run x) (run' y))
include hrun

theorem follows_acknowledge (id : PacketId) :
    Follows L L.Agree (acknowledge run id) (acknowledge run' id) :=
  follows_get fun _ _ hst => follows_ite (by rw [alive_of_like hst])
    (follows_mapAgree _ (follows_holding (follows_settle hrun id))) (follows_pure fun _ => rfl)

theorem follows_routeConnectAnswer (code : Int) :
    Follows L L.Agree (routeConnectAnswer run code) (routeConnectAnswer run' code) := by
  refine follows_get fun _ _ hst => follows_ite (by rw [alive_of_like hst])
    (follows_holding ?_) (follows_pure fun _ => rfl)
  refine follows_ite Iff.rfl ?_ ?_
  · exact follows_bindEq (follows_noteSame _) fun _ => follows_signal hrun (.same _)
  · exact follows_bindEq (follows_noteSame _) fun _ => follows_signal hrun (.same _)

theorem follows_routeClose (code : Int) :
    Follows L L.Agree (routeClose run code) (routeClose run' code) := by
  refine follows_get fun _ _ hst => follows_ite (by rw [alive_of_like hst]) ?_ ?_
  · refine follows_holding (follows_ite Iff.rfl ?_ ?_)
    · exact follows_bindEq (follows_noteSame _) fun _ => follows_signal hrun (.same _)
    · refine follows_bindEq (follows_noteSame _) fun _ =>
        follows_bindEq follows_hangUp fun a => ?_
      match a with
      | .error _ => exact follows_pure fun _ => rfl
      | .ok _ => exact follows_signal hrun (.same _)
  · exact follows_bindEq (follows_noteSame _) fun _ =>
      follows_mapAgree _ follows_stopLoop.agree

theorem follows_routeMessage {m m' : Message} (h : Signal.Like L (.message m) (.message m')) :
    Follows L L.Agree (routeMessage run m) (routeMessage run' m') := by
  have hentry : Occurrence.received m'.topic m'.payload.size =
      .received m.topic m.payload.size := by
    cases h with
    | same _ => rfl
    | message topic payload qos retain id => rw [L.size_eq payload]
  rw [routeMessage, routeMessage, hentry]
  exact follows_bindEq (follows_noteSame _) fun _ =>
    follows_get fun _ _ hst => follows_ite (by rw [alive_of_like hst])
      (follows_holding (follows_signal hrun h)) (follows_pure fun _ => rfl)

omit hrun in
/-- What the client does if it has a listener. -/
theorem follows_listening {x y : Play (Except Fault Unit)} (h : Follows L L.Agree x y) :
    Follows L L.Agree (do if (← get).client.sink then x else return .ok ())
      (do if (← get).client.sink then y else return .ok ()) :=
  follows_get fun _ _ hst => follows_ite (by rw [hst.client.sink]) h (follows_pure fun _ => rfl)

theorem follows_deliver_message {m m' : Message}
    (h : Signal.Like L (.message m) (.message m')) :
    Follows L L.Agree (deliver run (.message m)) (deliver run' (.message m')) :=
  follows_listening (follows_routeMessage hrun h)

theorem follows_deliver (event : BrokerEvent) :
    Follows L L.Agree (deliver run event) (deliver run' event) := by
  have hack (id : PacketId) (heard : Occurrence) : Follows L L.Agree (do
        note (.acknowledged id)
        changeClient (·.reclaim id)
        if (← get).client.sink then do note heard; acknowledge run id else return .ok ())
      (do
        note (.acknowledged id)
        changeClient (·.reclaim id)
        if (← get).client.sink then do note heard; acknowledge run' id else return .ok ()) :=
    follows_bindEq (follows_noteSame _) fun _ =>
      follows_bindEq (follows_changeClient fun _ _ h => Client.like_reclaim h id) fun _ =>
      follows_listening (follows_bindEq (follows_noteSame _) fun _ =>
        follows_acknowledge hrun id)
  cases event with
  | subscribed id granted => exact hack id _
  | unsubscribed id => exact hack id _
  | published id => exact hack id _
  | connectAnswered code => exact follows_listening (follows_routeConnectAnswer hrun code)
  | closed code => exact follows_listening (follows_routeClose hrun code)
  | message m => exact follows_deliver_message hrun (.same _)

/-! ## Requests -/

omit hrun in
theorem follows_standing (id : PacketId) : Follows L Eq (standing id) (standing id) := by
  refine follows_get fun s t hst => ?_
  rw [hst.owned, isPending_eq_of_like hst.ledger, Ledger.isEarly, Ledger.isEarly, hst.ledger.early]
  exact follows_pure rfl

theorem follows_callHook (method : Method) (id : PacketId) :
    Follows L Eq (callHook run method id) (callHook run' method id) := by
  refine follows_get fun s t hst => ?_
  rcases cases_of_rel hst.client.issueHook with ⟨hs, ht⟩ | ⟨k, k', hs, ht, hk⟩
  · rw [hs, ht]
    exact follows_pure rfl
  · rw [hs, ht]
    refine follows_bindEq (follows_standing id) fun a => ?_
    refine follows_bindEq (follows_noteSame _) fun _ => ?_
    rw [hk.stopsOnFault]
    -- what comes of the steps is dropped, so it need not be the same
    exact follows_bind (follows_runSteps hrun (hk.careful id) (hk.script id)) fun _ _ _ =>
      follows_pure rfl

theorem follows_acknowledgeEarly {r r' : Request} (h : r.Like L r') (id : PacketId) :
    Follows L Eq (acknowledgeEarly run r id) (acknowledgeEarly run' r' id) := by
  rw [acknowledgeEarly, acknowledgeEarly, h.acknowledgement_eq]
  exact follows_bind (follows_deliver hrun _) fun _ _ hab => follows_changeClient fun c d hcd =>
    { hcd with earlyResults := fun hL => by rw [hab hL, hcd.earlyResults hL] }

theorem follows_issue {r r' : Request} (h : r.Like L r') :
    Follows L Eq (issue run r) (issue run' r') := by
  refine follows_bindEq (follows_changeClient fun _ _ hcd => Client.like_add hcd h.call) fun _ => ?_
  rw [h.method_eq]
  refine follows_bindEq (follows_onClient fun _ _ hcd => Client.like_takeReply hcd _) fun a => ?_
  match a with
  | .error _ => exact follows_pure rfl
  | .ok code =>
    refine follows_get fun s t hst => ?_
    rcases cases_of_rel (Client.like_takeId hst.client) with
      ⟨hs, ht⟩ | ⟨⟨id, c⟩, ⟨id', d⟩, hs, ht, hid, hcd⟩
    · rw [hs, ht]
      exact follows_pure rfl
    · -- both clients choose the same identifier, so all that follows is about one
      obtain rfl : id' = id := hid
      have hhook : Follows L Eq (do
          callHook run r.method id'
          return (Except.ok (code, id') : Except ClientFault (Int × PacketId)))
          (do
          callHook run' r.method id'
          return (Except.ok (code, id') : Except ClientFault (Int × PacketId))) :=
        follows_bindEq (follows_callHook hrun _ _) fun _ => follows_pure rfl
      rw [hs, ht]
      refine follows_bindEq (follows_changeClient fun _ _ _ => hcd) fun _ =>
        follows_bindEq (follows_noteSame _) fun _ => follows_ite Iff.rfl ?_ ?_
      · exact follows_bindEq (follows_changeClient fun _ _ h => Client.like_reclaim h id')
          fun _ => hhook
      · refine follows_get fun _ _ hst => follows_ite (by rw [hst.client.completesEarly]) ?_ hhook
        exact follows_bindEq (follows_acknowledgeEarly hrun h id') fun _ => hhook

theorem follows_request {r r' : Request} (h : r.Like L r') {c c' : Option Callback}
    (hc : Option.Rel (Reaction.Like L) c c') :
    Follows L L.Agree (request run r c) (request run' r' c') := by
  rw [request, request, h.check_eq]
  split
  · exact follows_pure fun _ => rfl
  · refine follows_bindEq (follows_issue hrun h) fun a => ?_
    match a with
    | .error _ => exact follows_pure fun _ => rfl
    | .ok (code, id) =>
      simp only
      rw [h.operation_eq]
      refine follows_bindEq (follows_checkCode _ code) fun a => ?_
      match a with
      | .error _ => exact follows_pure fun _ => rfl
      | .ok _ =>
        refine follows_bindAgree (follows_track hrun id hc) (fun a => ?_) fun hL a b => ?_
        · cases a <;> exact follows_pure fun _ => rfl
        · cases a <;> cases b <;> exact follows_pure fun h => absurd h hL

theorem follows_answeringRequest {r r' : Request} (h : r.Like L r') {c c' : Option Callback}
    (hc : Option.Rel (Reaction.Like L) c c') :
    Follows L L.Agree (answeringRequest run r c) (answeringRequest run' r' c') := by
  have hspan := h.ofCall_eq
  rw [h.operation_eq] at hspan
  rw [answeringRequest, answeringRequest, h.operation_eq]
  exact follows_answeringId (follows_spanning hspan (follows_request hrun h hc))

theorem follows_issueMany {r r' : Request} (h : r.Like L r') (times : Nat) (last : Answer) :
    Follows L Eq (issueMany run r times last) (issueMany run' r' times last) := by
  induction times generalizing last with
  | zero => exact follows_pure rfl
  | succ times ih =>
    refine follows_bindEq (follows_answeringIssued (follows_issue hrun h)) fun a => ?_
    split
    · exact follows_pure rfl
    · exact ih _

/-! ## Steps and runs -/

theorem follows_perform_plain {step : Step} (plain : step.plain) :
    Follows L L.Agree (perform run step) (perform run' step) := by
  have hdone : Follows L L.Agree (pure Answer.done) (pure .done) := follows_pure fun _ => rfl
  cases step with
  | settle id => exact follows_withLink (follows_answeringFatal (follows_settle hrun id))
  | abandon =>
    exact follows_sweeping (follows_withLink (follows_answeringFatal (follows_abandon hrun)))
  | inspect id =>
    refine follows_withLink (follows_get fun s t hst => ?_)
    rw [inspection_eq_of_like hst.ledger]
    exact follows_pure fun _ => rfl
  | describe =>
    refine follows_withLink (follows_get fun s t hst => ?_)
    rw [description_eq_of_like hst.ledger]
    exact follows_pure fun _ => rfl
  | disconnect clear =>
    cases clear with
    | true =>
      exact follows_sweeping (follows_withLink (follows_answering
        (follows_spanning (fun _ => rfl) (follows_disconnect hrun true))))
    | false =>
      exact follows_withLink (follows_answering
        (follows_spanning (fun _ => rfl) (follows_disconnect hrun false)))
  | shutDown => exact follows_withLink (follows_answering follows_shutDown.agree)
  | clearHandlers =>
    exact follows_withLink (follows_bindEq (follows_noteSame _) fun _ =>
      follows_bindEq (follows_modify fun _ _ hst => { hst with handlers := fun _ => .none })
        fun _ => hdone)
  | dropLink =>
    exact follows_bindEq (follows_modify fun _ _ hst => { hst with owned := rfl }) fun _ => hdone
  | showRequest =>
    refine follows_withLink (follows_get fun s t hst => ?_)
    rw [hst.settings]
    exact follows_pure fun _ => rfl
  | scriptReply method reply =>
    exact follows_scripting fun _ _ h =>
      { h with replies := by rw [Client.queueReply, Client.queueReply, h.replies] }
  | scriptIds ids =>
    exact follows_scripting fun _ _ h => { h with queuedIds := by rw [h.queuedIds] }
  | completeEarly enabled =>
    exact follows_scripting fun _ _ h => { h with completesEarly := rfl }
  | delayConnect milliseconds =>
    exact follows_scripting fun _ _ h => { h with connectDelay := rfl }
  | forgetCalls =>
    exact follows_scripting fun _ _ h => { h with record := .nil, shown := rfl }
  | countCalls method =>
    refine follows_get fun s t hst => ?_
    rw [Client.like_countCalls hst.client]
    exact follows_pure fun _ => rfl
  | takeEarlyResults =>
    refine follows_get fun s t hst => follows_bindEq (follows_changeClient fun _ _ h =>
      { h with earlyResults := fun _ => rfl }) fun _ => follows_pure fun hL => ?_
    rw [hst.client.earlyResults hL]
  | answerConnect _ | close _ | acknowledgeUnsubscribe _ | acknowledgePublish _ =>
    exact follows_answering (follows_deliver hrun _)
  | acknowledgeSubscribe id level =>
    exact follows_withQos fun _ => follows_answering (follows_deliver hrun _)
  | clientDetach => exact follows_scripting fun _ _ h => Client.like_setSink h false
  | clientConnect settings =>
    refine follows_bindEq (follows_onClient fun _ _ h => Client.like_connect h _ _) fun a => ?_
    match a with
    | none => exact follows_pure fun _ => rfl
    | some reply => exact (follows_answeringReply (follows_pure rfl)).agree
  | clientDisconnect =>
    exact (follows_answeringReply (follows_onClient fun _ _ h => Client.like_disconnect h)).agree
  | clientSubscribe _ _ =>
    exact follows_withQos fun _ =>
      (follows_answeringIssued (follows_issue hrun (.same _))).agree
  | clientUnsubscribe _ => exact (follows_answeringIssued (follows_issue hrun (.same _))).agree
  | clientStartLoop =>
    exact (follows_answeringStopped (follows_onClient fun _ _ h => Client.like_startLoop h)).agree
  | clientStopLoop => exact (follows_answeringStopped follows_stopLoop).agree
  | trackAll ids callback =>
    cases callback with
    | none => exact follows_withLink (follows_answeringFatal (follows_trackAll_none ids).agree)
    | some _ => cases plain
  | track _ _ | settleAll _ | connect _ | subscribe _ _ _ | unsubscribe _ _ => cases plain
  | publish _ _ _ _ | setHandler _ _ | setIssueHook _ | receive _ _ _ _ _ => cases plain
  | clientSetCredentials _ _ | clientPublish _ _ _ _ => cases plain

theorem follows_perform {x y : Step} (h : x.Like L y) :
    Follows L L.Agree (perform run x) (perform run' y) := by
  cases h with
  | plain step plain => exact follows_perform_plain hrun plain
  | track id hc => exact follows_withLink (follows_answeringFatal (follows_track hrun id hc))
  | trackAll hL ids hc =>
    exact follows_withLink (follows_answeringFatal (follows_trackAll hrun hL hc ids))
  | settleAll hL ids =>
    exact follows_withLink (follows_answeringFatal (follows_settleAll hrun hL ids))
  | connect hp =>
    exact follows_withLink (follows_answering
      (follows_spanning (fun _ => rfl) (follows_connect hp).agree))
  | subscribe filter level hc =>
    exact follows_withLink (follows_withQos fun qos =>
      follows_answeringRequest hrun (.same _) hc)
  | unsubscribe filter hc => exact follows_withLink (follows_answeringRequest hrun (.same _) hc)
  | publish topic hp level hc =>
    exact follows_withQos fun qos =>
      follows_withLink (follows_answeringRequest hrun (.publish topic hp qos) hc)
  | setHandler slot hc =>
    exact follows_withLink (follows_bindEq (follows_note (.handlerSet slot hc)) fun _ =>
      follows_bindEq (follows_setHandler slot hc) fun _ => follows_pure fun _ => rfl)
  | setIssueHook stopsOnFault same careful =>
    exact follows_scripting fun _ _ h => { h with issueHook := .some ⟨same, rfl, careful⟩ }
  | receive topic hp level retain id =>
    exact follows_withQos fun qos =>
      follows_answering (follows_deliver_message hrun (.message topic hp qos retain id))
  | clientSetCredentials username hp =>
    exact follows_scripting fun _ _ h => Client.like_add h (.setCredentials username hp)
  | clientPublish topic hp level times =>
    exact follows_withQos fun qos =>
      (follows_issueMany hrun (.publish topic hp qos) times .nothing).agree

end

theorem follows_performTo (depth : Nat) {x y : Step} (h : x.Like L y) :
    Follows L L.Agree (performTo depth x) (performTo depth y) := by
  induction depth generalizing x y with
  | zero =>
    intro s t hst a s' hs
    cases hs
  | succ depth ih => exact follows_perform (fun _ _ hxy => ih hxy) h

/-- Stages of runs in lockstep. -/
structure Stage.Like (L : Licence) (d e : Stage) : Prop where
  step : d.step.Like L e.step
  before : d.before.Like L e.before
  answer : L.Agree d.answer e.answer
  after : d.after.Like L e.after

theorem like_performEach {depth : Nat} {xs ys : List Step} {s t s' : Session} {ds : List Stage}
    (hsteps : List.Forall₂ (Step.Like L) xs ys) (hst : s.Like L t)
    (h : performEach depth xs s = some (ds, s')) :
    ∃ es t', performEach depth ys t = some (es, t') ∧ List.Forall₂ (Stage.Like L) ds es := by
  induction hsteps generalizing s t ds with
  | nil =>
    cases h
    exact ⟨[], t, rfl, .nil⟩
  | @cons x y xs ys hxy _ ih =>
    obtain ⟨a, s₁, later, hx, hxs, rfl⟩ := performEach_cons_eq_some_iff.mp h
    obtain ⟨b, t₁, hy, hab, hlike⟩ := follows_performTo depth hxy hst hx
    obtain ⟨es, t', hys, hlater⟩ := ih hlike hxs
    exact ⟨_, t', performEach_cons hy hys, .cons ⟨hxy, hst, hab, hlike⟩ hlater⟩

theorem like_opened {order order' : VisitOrder Callback} (h : order.Same order')
    (settings : Settings) : (opened settings order).Like L (opened settings order') where
  client :=
    { sink := rfl, record := .cons (.same _) .nil, shown := rfl, pool := rfl, queuedIds := rfl
      replies := rfl, completesEarly := rfl, earlyResults := fun _ => rfl, issueHook := .none
      connectDelay := rfl, looping := rfl }
  settings := rfl
  ledger := Ledger.like_empty
  handlers := fun _ => .none
  owned := rfl
  holders := rfl
  order := h
  sweeps := rfl
  journal := .nil

end Session

end MqttLink
