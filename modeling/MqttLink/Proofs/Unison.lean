import MqttLink.Proofs.Accord

/-!
Sessions in unison. Two sessions are in unison, in a sense that is left open, if they differ in
their journals alone, and are in unison again when the same has happened in both. Main statement:
steps, with all that is nested in them, give the same answers in sessions that are in unison and
leave such sessions behind.
-/

namespace MqttLink.Session

open Play

variable {α β : Type}

/-- The session as if nothing had been written down. -/
def unwritten (s : Session) : Session :=
  { s with journal := [] }

/-! ## Rules that hold of any relation -/

section

variable {T : Session → Session → Prop}

theorem accords_map {x y : Play α} (h : Accords T x y) (f : α → β) :
    Accords T (do return f (← x)) (do return f (← y)) :=
  accords_bind h fun a => accords_pure (f a)

theorem accords_ite {p : Prop} [Decidable p] {x x' y y' : Play α} (hx : Accords T x x')
    (hy : Accords T y y') : Accords T (if p then x else y) (if p then x' else y') := by
  split
  · exact hx
  · exact hy

theorem accords_withQos {level : Nat} {x y : Qos → Play Answer}
    (h : ∀ qos, Accords T (x qos) (y qos)) : Accords T (withQos level x) (withQos level y) := by
  unfold withQos
  split
  · exact h _
  · exact accords_pure _

theorem accords_answering {x y : Play (Except Fault Unit)} (h : Accords T x y) :
    Accords T (answering x) (answering y) :=
  accords_map h _

theorem accords_answeringId {x y : Play (Except Fault PacketId)} (h : Accords T x y) :
    Accords T (answeringId x) (answeringId y) := by
  refine accords_bind h fun r => ?_
  cases r <;> exact accords_pure _

theorem accords_answeringIssued {x y : Play (Except ClientFault (Int × PacketId))}
    (h : Accords T x y) : Accords T (answeringIssued x) (answeringIssued y) := by
  refine accords_bind h fun r => ?_
  cases r <;> exact accords_pure _

theorem accords_answeringReply {x y : Play Reply} (h : Accords T x y) :
    Accords T (answeringReply x) (answeringReply y) := by
  refine accords_bind h fun r => ?_
  cases r <;> exact accords_pure _

end

/-- What it takes for sessions that are in unison in the sense of `T` to be so again. That a handler
is set, or that all are cleared, is written down together with the change itself. -/
structure Unison (T : Session → Session → Prop) : Prop where
  same : ∀ ⦃s t⦄, T s t → t.unwritten = s.unwritten
  noted : ∀ ⦃s t⦄, T s t → ∀ ⦃o⦄, o.setsHandlers = false → T (s.noted o) (t.noted o)
  changed : ∀ ⦃s t s' t'⦄, T s t → t'.unwritten = s'.unwritten → s'.journal = s.journal →
    t'.journal = t.journal → s'.handlers = s.handlers → T s' t'
  handlerSet : ∀ ⦃s t⦄, T s t → ∀ slot c,
    T ((s.noted (.handlerSet slot c)).setHandler slot c)
      ((t.noted (.handlerSet slot c)).setHandler slot c)
  handlersCleared : ∀ ⦃s t⦄, T s t →
    T (s.noted .handlersCleared).clearHandlers (t.noted .handlersCleared).clearHandlers

namespace Unison

variable {T : Session → Session → Prop} (hT : Unison T)
include hT

theorem accord : Accord T where
  ledger _ _ h := (congrArg Session.ledger (hT.same h) :)
  owned _ _ h := (congrArg Session.owned (hT.same h) :)
  order _ _ h := (congrArg Session.order (hT.same h) :)
  sweeps _ _ h := (congrArg Session.sweeps (hT.same h) :)
  noted := hT.noted
  called s t h id c resolution := by
    have hview : t.view = s.view := (congrArg Session.view (hT.same h) :)
    rw [hview]
    exact hT.noted h rfl
  worked _ _ h l _ := hT.changed h (congrArg (·.withLedger l) (hT.same h)) rfl rfl rfl
  swept _ _ h := hT.changed h
    (congrArg (fun u : Session => { u with sweeps := u.sweeps + 1 }) (hT.same h)) rfl rfl rfl
  held _ _ h f := hT.changed h
    (congrArg (fun u : Session => { u with holders := f u.holders }) (hT.same h)) rfl rfl rfl

/-! ## Plays -/

theorem accords_note {o : Occurrence} (ho : o.setsHandlers = false) :
    Accords T (note o) (note o) :=
  hT.accord.accords_note ho

/-- What is read off the session must not be in the journal. -/
theorem accords_read {f g : Session → Play α} (hf : ∀ u, f u.unwritten = f u)
    (hg : ∀ u, g u.unwritten = g u) (h : ∀ u, Accords T (f u) (g u)) :
    Accords T (get >>= f) (get >>= g) := by
  refine accords_get fun s t hst => ?_
  rw [← hf s, ← hg t, hT.same hst]
  exact h _

theorem accords_changeClient (f : Client → Client) :
    Accords T (changeClient f) (changeClient f) :=
  accords_modify fun _ _ h => hT.changed h
    (congrArg (fun u : Session => { u with client := f u.client }) (hT.same h)) rfl rfl rfl

theorem accords_onClient (f : Client → α × Client) : Accords T (onClient f) (onClient f) := by
  intro s t a s' h hx
  cases hx
  have hclient : t.client = s.client := (congrArg Session.client (hT.same h) :)
  refine ⟨{ t with client := (f s.client).2 }, ?_, hT.changed h ?_ rfl rfl rfl⟩
  · rw [onClient_apply, hclient]
  · exact congrArg (fun u : Session => { u with client := (f s.client).2 }) (hT.same h)

theorem accords_spanning (operation : Operation) (arguments : List Argument) {x y : Play α}
    (h : Accords T x y) :
    Accords T (spanning operation arguments x) (spanning operation arguments y) :=
  hT.accords_read (fun _ => rfl) (fun _ => rfl) fun _ => accords_bind (hT.accords_note rfl) fun _ =>
    accords_bind h fun _ => accords_bind (hT.accords_note rfl) fun _ => accords_pure _

/-! ## Calls that end at once -/

theorem accords_stopLoop : Accords T Play.stopLoop Play.stopLoop := by
  refine accords_bind (hT.accords_onClient _) fun r => ?_
  cases r with
  | ok _ => exact accords_bind (hT.accords_note rfl) fun _ => accords_pure _
  | error _ => exact accords_pure _

theorem accords_hangUp : Accords T hangUp hangUp := by
  refine accords_bind (hT.accords_onClient _) fun r => ?_
  cases r with
  | ok _ => exact accords_map hT.accords_stopLoop _
  | error _ => exact accords_pure _

theorem accords_checkCode (operation : Operation) (code : Int) :
    Accords T (checkCode operation code) (checkCode operation code) :=
  accords_ite (accords_pure _) (accords_bind (hT.accords_note rfl) fun _ => accords_pure _)

theorem accords_stopAfterFailure : Accords T stopAfterFailure stopAfterFailure := by
  have hstop : Accords T tryStopLoop tryStopLoop := by
    refine accords_bind hT.accords_stopLoop fun r => ?_
    cases r with
    | ok _ => exact accords_pure _
    | error _ => exact hT.accords_note rfl
  refine accords_bind (hT.accords_onClient _) fun r => ?_
  cases r with
  | ok _ => exact hstop
  | error _ => exact accords_bind (hT.accords_note rfl) fun _ => hstop

theorem accords_connect (password : Option String) :
    Accords T (connect password) (connect password) := by
  refine hT.accords_read (fun _ => rfl) (fun _ => rfl) fun s =>
    accords_bind (hT.accords_note rfl) fun _ =>
    accords_bind (hT.accords_changeClient _) fun _ =>
    accords_bind (hT.accords_onClient _) fun reply => ?_
  match reply with
  | none | some (.error _) =>
    exact accords_bind (hT.accords_note rfl) fun _ =>
      accords_bind hT.accords_stopAfterFailure fun _ => accords_pure _
  | some (.ok code) =>
    refine accords_bind (hT.accords_checkCode _ code) fun checked => ?_
    match checked with
    | .error _ => exact accords_pure _
    | .ok _ =>
      refine accords_bind (hT.accords_onClient _) fun started => ?_
      match started with
      | .error _ => exact accords_pure _
      | .ok _ => exact accords_bind (hT.accords_note rfl) fun _ => accords_pure _

theorem accords_shutDown : Accords T shutDown shutDown := by
  refine hT.accords_read (fun _ => rfl) (fun _ => rfl) fun s =>
    accords_bind (hT.accords_note rfl) fun _ =>
    accords_bind (hT.accords_changeClient _) fun _ =>
    accords_bind (hT.accords_onClient _) fun disconnected =>
    accords_bind hT.accords_stopLoop fun stopped => ?_
  match disconnected, stopped with
  | .error _, _ => exact accords_pure _
  | .ok _, .error _ => exact accords_pure _
  | .ok code, .ok _ =>
    exact accords_ite (accords_bind (hT.accords_note rfl) fun _ => accords_pure _)
      (accords_pure _)

section

variable {run run' : Runner} (hrun : ∀ step, Accords T (run step) (run' step))
include hrun

theorem accords_disconnect (clear : Bool) :
    Accords T (disconnect run clear) (disconnect run' clear) := by
  refine accords_bind (hT.accords_note rfl) fun _ =>
    accords_bind (hT.accords_onClient _) fun disconnected =>
    accords_bind hT.accords_stopLoop fun stopped => ?_
  match disconnected, stopped with
  | .error _, _ => exact accords_pure _
  | .ok _, .error _ => exact accords_pure _
  | .ok code, .ok _ =>
    refine accords_bind (hT.accords_checkCode _ code) fun checked => ?_
    match checked with
    | .error _ => exact accords_pure _
    | .ok _ => exact accords_ite (accords_map (hT.accord.accords_abandon hrun) _) (accords_pure _)

/-! ## Events -/

theorem accords_signal (x : Signal) : Accords T (signal run x) (signal run' x) := by
  refine hT.accords_read (fun _ => rfl) (fun _ => rfl) fun s => ?_
  split
  · exact accords_pure _
  · exact accords_bind (hT.accords_note rfl) fun _ =>
      accords_bind (hT.accord.accords_react hrun _) fun _ =>
      accords_map (hT.accord.accords_contain _ _) _

theorem accords_acknowledge (id : PacketId) :
    Accords T (acknowledge run id) (acknowledge run' id) :=
  hT.accords_read (fun _ => rfl) (fun _ => rfl) fun _ => accords_ite
    (accords_map (hT.accord.accords_holding (hT.accord.accords_settle hrun id)) _)
    (accords_pure _)

theorem accords_routeConnectAnswer (code : Int) :
    Accords T (routeConnectAnswer run code) (routeConnectAnswer run' code) :=
  hT.accords_read (fun _ => rfl) (fun _ => rfl) fun _ => accords_ite
    (hT.accord.accords_holding (accords_ite
      (accords_bind (hT.accords_note rfl) fun _ => hT.accords_signal hrun _)
      (accords_bind (hT.accords_note rfl) fun _ => hT.accords_signal hrun _)))
    (accords_pure _)

theorem accords_routeClose (code : Int) :
    Accords T (routeClose run code) (routeClose run' code) := by
  refine hT.accords_read (fun _ => rfl) (fun _ => rfl) fun _ =>
    accords_ite (hT.accord.accords_holding (accords_ite ?_ ?_)) ?_
  · exact accords_bind (hT.accords_note rfl) fun _ => hT.accords_signal hrun _
  · refine accords_bind (hT.accords_note rfl) fun _ =>
      accords_bind hT.accords_hangUp fun r => ?_
    cases r with
    | ok _ => exact hT.accords_signal hrun _
    | error _ => exact accords_pure _
  · exact accords_bind (hT.accords_note rfl) fun _ => accords_map hT.accords_stopLoop _

theorem accords_routeMessage (m : Message) :
    Accords T (routeMessage run m) (routeMessage run' m) :=
  accords_bind (hT.accords_note rfl) fun _ =>
    hT.accords_read (fun _ => rfl) (fun _ => rfl) fun _ =>
      accords_ite (hT.accord.accords_holding (hT.accords_signal hrun _)) (accords_pure _)

theorem accords_route (event : BrokerEvent) :
    Accords T (route run event) (route run' event) := by
  cases event with
  | connectAnswered code => exact hT.accords_routeConnectAnswer hrun code
  | closed code => exact hT.accords_routeClose hrun code
  | subscribed id _ | unsubscribed id | published id =>
    exact accords_bind (hT.accords_note rfl) fun _ => hT.accords_acknowledge hrun id
  | message m => exact hT.accords_routeMessage hrun m

theorem accords_deliver (event : BrokerEvent) :
    Accords T (deliver run event) (deliver run' event) := by
  have hroute : Accords T (do if (← get).client.sink then route run event else return .ok ())
      (do if (← get).client.sink then route run' event else return .ok ()) :=
    hT.accords_read (fun _ => rfl) (fun _ => rfl) fun _ =>
      accords_ite (hT.accords_route hrun event) (accords_pure _)
  unfold deliver
  split
  · exact accords_bind (hT.accords_note rfl) fun _ =>
      accords_bind (hT.accords_changeClient _) fun _ => hroute
  · exact hroute

/-! ## Requests -/

theorem accords_callHook (method : Method) (id : PacketId) :
    Accords T (callHook run method id) (callHook run' method id) := by
  refine hT.accords_read (fun _ => rfl) (fun _ => rfl) fun s => ?_
  split
  · exact accords_pure _
  · have hstanding : Accords T (standing id) (standing id) :=
      hT.accords_read (fun _ => rfl) (fun _ => rfl) fun _ => accords_pure _
    exact accords_bind hstanding fun _ => accords_bind (hT.accords_note rfl) fun _ =>
      accords_bind (hT.accord.accords_runSteps hrun _ _) fun _ => accords_pure _

theorem accords_acknowledgeEarly (r : Request) (id : PacketId) :
    Accords T (acknowledgeEarly run r id) (acknowledgeEarly run' r id) :=
  accords_bind (hT.accords_deliver hrun _) fun _ => hT.accords_changeClient _

theorem accords_issue (r : Request) : Accords T (issue run r) (issue run' r) := by
  refine accords_bind (hT.accords_changeClient _) fun _ =>
    accords_bind (hT.accords_onClient _) fun reply => ?_
  match reply with
  | .error _ => exact accords_pure _
  | .ok code =>
    refine hT.accords_read (fun _ => rfl) (fun _ => rfl) fun s => ?_
    split
    · exact accords_pure _
    next id _ _ =>
      have hhook : Accords T (do
            callHook run r.method id
            return (Except.ok (code, id) : Except ClientFault (Int × PacketId)))
          (do
            callHook run' r.method id
            return (Except.ok (code, id) : Except ClientFault (Int × PacketId))) :=
        accords_bind (hT.accords_callHook hrun _ _) fun _ => accords_pure _
      refine accords_bind (hT.accords_changeClient _) fun _ =>
        accords_bind (hT.accords_note rfl) fun _ =>
        accords_ite (accords_bind (hT.accords_changeClient _) fun _ => hhook) ?_
      exact hT.accords_read (fun _ => rfl) (fun _ => rfl) fun _ =>
        accords_ite (accords_bind (hT.accords_acknowledgeEarly hrun r id) fun _ => hhook) hhook

theorem accords_request (r : Request) (callback : Option Callback) :
    Accords T (request run r callback) (request run' r callback) := by
  unfold request
  split
  · exact accords_pure _
  · refine accords_bind (hT.accords_issue hrun r) fun issued => ?_
    match issued with
    | .error _ => exact accords_pure _
    | .ok (code, id) =>
      refine accords_bind (hT.accords_checkCode _ code) fun checked => ?_
      match checked with
      | .error _ => exact accords_pure _
      | .ok _ =>
        refine accords_bind (hT.accord.accords_track hrun id callback) fun tracked => ?_
        cases tracked <;> exact accords_pure _

theorem accords_answeringRequest (r : Request) (callback : Option Callback) :
    Accords T (answeringRequest run r callback) (answeringRequest run' r callback) :=
  accords_answeringId (hT.accords_spanning _ _ (hT.accords_request hrun r callback))

theorem accords_issueMany (r : Request) (times : Nat) (last : Answer) :
    Accords T (issueMany run r times last) (issueMany run' r times last) := by
  induction times generalizing last with
  | zero => exact accords_pure _
  | succ times ih =>
    refine accords_bind (accords_answeringIssued (hT.accords_issue hrun r)) fun answer => ?_
    split
    · exact accords_pure _
    · exact ih _

/-! ## Steps -/

theorem accords_perform (step : Step) : Accords T (perform run step) (perform run' step) := by
  have hlink {x y : Play Answer} (h : Accords T x y) : Accords T (withLink x) (withLink y) :=
    hT.accord.accords_withLink h
  cases step with
  | track _ _ | settle _ | abandon | trackAll _ _ | settleAll _ | inspect _ | describe =>
    exact hT.accord.accords_perform hrun rfl
  | showRequest =>
    exact hlink (hT.accords_read (fun _ => rfl) (fun _ => rfl) fun _ => accords_pure _)
  | connect password =>
    exact hlink (accords_answering (hT.accords_spanning _ _ (hT.accords_connect password)))
  | disconnect clear =>
    cases clear with
    | true =>
      exact hT.accord.accords_sweeping (hlink (accords_answering
        (hT.accords_spanning _ _ (hT.accords_disconnect hrun true))))
    | false =>
      exact hlink (accords_answering
        (hT.accords_spanning _ _ (hT.accords_disconnect hrun false)))
  | shutDown => exact hlink (accords_answering hT.accords_shutDown)
  | subscribe filter level callback =>
    exact hlink (accords_withQos fun _ => hT.accords_answeringRequest hrun _ _)
  | unsubscribe filter callback => exact hlink (hT.accords_answeringRequest hrun _ _)
  | publish topic payload level callback =>
    exact accords_withQos fun _ => hlink (hT.accords_answeringRequest hrun _ _)
  | setHandler slot handler =>
    refine hlink fun s t a s' h hx => ?_
    cases hx
    exact ⟨_, rfl, hT.handlerSet h slot handler⟩
  | clearHandlers =>
    refine hlink fun s t a s' h hx => ?_
    cases hx
    exact ⟨_, rfl, hT.handlersCleared h⟩
  | dropLink =>
    refine accords_bind (accords_modify fun s t h => ?_) fun _ => accords_pure _
    exact hT.changed h (congrArg (fun u : Session => { u with owned := false }) (hT.same h)) rfl
      rfl rfl
  | scriptReply _ _ | scriptIds _ | completeEarly _ | delayConnect _ | forgetCalls
  | setIssueHook _ | clientSetCredentials _ _ | clientDetach =>
    exact accords_bind (hT.accords_changeClient _) fun _ => accords_pure _
  | countCalls _ => exact hT.accords_read (fun _ => rfl) (fun _ => rfl) fun _ => accords_pure _
  | takeEarlyResults =>
    exact hT.accords_read (fun _ => rfl) (fun _ => rfl) fun _ =>
      accords_bind (hT.accords_changeClient _) fun _ => accords_pure _
  | answerConnect _ | close _ | acknowledgeUnsubscribe _ | acknowledgePublish _ =>
    exact accords_answering (hT.accords_deliver hrun _)
  | acknowledgeSubscribe _ _ | receive _ _ _ _ _ =>
    exact accords_withQos fun _ => accords_answering (hT.accords_deliver hrun _)
  | clientConnect settings =>
    refine accords_bind (hT.accords_onClient _) fun reply => ?_
    cases reply with
    | none => exact accords_pure _
    | some reply => exact accords_answeringReply (accords_pure reply)
  | clientDisconnect => exact accords_answeringReply (hT.accords_onClient _)
  | clientSubscribe _ _ =>
    exact accords_withQos fun _ => accords_answeringIssued (hT.accords_issue hrun _)
  | clientUnsubscribe _ => exact accords_answeringIssued (hT.accords_issue hrun _)
  | clientPublish _ _ _ _ => exact accords_withQos fun _ => hT.accords_issueMany hrun _ _ _
  | clientStartLoop => exact accords_map (hT.accords_onClient _) _
  | clientStopLoop => exact accords_map hT.accords_stopLoop _

end

theorem accords_performTo (depth : Nat) (step : Step) :
    Accords T (performTo depth step) (performTo depth step) := by
  induction depth generalizing step with
  | zero => exact accords_none _
  | succ depth ih => exact hT.accords_perform ih step

end Unison

end MqttLink.Session
