import MqttLink.Proofs.Issue

/-!
Everything that a session can do. Main statement: a relation that holds across each way in which a
session changes, and across work on the ledger, handlers and hooks if it holds across the steps
that these run, holds across whole runs.
-/

namespace MqttLink

namespace Client

variable {c d : Client}

theorem looping_takeReply (c : Client) (m : Method) : (c.takeReply m).2.looping = c.looping := by
  unfold takeReply
  split <;> rfl

theorem record_takeReply (c : Client) (m : Method) : (c.takeReply m).2.record = c.record := by
  unfold takeReply
  split <;> rfl

theorem record_of_called {call : Call} {m : Method} {r : Reply}
    (h : (c.add call).takeReply m = (r, d)) : d.record = call :: c.record := by
  have hd := record_takeReply (c.add call) m
  rwa [h] at hd

theorem record_startLoop (c : Client) : c.startLoop.2.record = .startLoop :: c.record := by
  unfold startLoop
  split
  next hr =>
    have hd := record_of_called hr
    exact hd
  next hr => exact record_of_called hr

theorem record_stopLoop (c : Client) : c.stopLoop.2.record = .stopLoop :: c.record := by
  unfold stopLoop
  split
  next hr =>
    have hd := record_of_called hr
    exact hd
  next hr => exact record_of_called hr

theorem record_connect (c : Client) (request : ConnectRequest) (limit : Option Duration) :
    (c.connect request limit).2.record = .connect request :: c.record := by
  simp only [connect]
  split
  · rfl
  · exact record_takeReply _ _

theorem looping_disconnect (c : Client) : c.disconnect.2.looping = c.looping :=
  looping_takeReply _ _

theorem looping_connect (c : Client) (request : ConnectRequest) (limit : Option Duration) :
    (c.connect request limit).2.looping = c.looping := by
  simp only [connect]
  split
  · rfl
  · exact looping_takeReply _ _

theorem looping_of_called {call : Call} {m : Method} {r : Reply}
    (h : (c.add call).takeReply m = (r, d)) : d.looping = c.looping := by
  have hd := looping_takeReply (c.add call) m
  rwa [h] at hd

theorem connect_fst_setCredentials (c : Client) (username : String) (password : Option String)
    (request : ConnectRequest) (limit : Option Duration) :
    ((c.setCredentials username password).connect request limit).1 =
      (c.connect request limit).1 := by
  have houtlasts : ((c.setCredentials username password).add (.connect request)).outlasts =
      (c.add (.connect request)).outlasts := rfl
  simp only [connect, houtlasts]
  split
  · rfl
  · simp only [takeReply, add, setCredentials]
    split <;> rfl

theorem looping_startLoop_of_error {f : ClientFault} (h : c.startLoop = (.error f, d)) :
    d.looping = c.looping := by
  unfold startLoop at h
  split at h
  next => cases h
  next hr =>
    cases h
    exact looping_of_called hr

theorem looping_stopLoop_of_error {f : ClientFault} (h : c.stopLoop = (.error f, d)) :
    d.looping = c.looping := by
  unfold stopLoop at h
  split at h
  next => cases h
  next hr =>
    cases h
    exact looping_of_called hr

end Client

namespace Session

open Play

variable {α : Type} {s t : Session} {c : Client} {f : ClientFault}

/-- The session whose client has just stopped the network loop. -/
def stopping (s : Session) (c : Client) : Session :=
  ({ s with client := c } : Session).noted .loopStopped

/-- The session whose client has just connected and started the network loop. -/
def starting (s : Session) (c : Client) : Session :=
  ({ s with client := c } : Session).noted .connectDone

theorem stopLoop_of_ok (h : s.client.stopLoop = (.ok (), c)) :
    Play.stopLoop s = some (.ok (), s.stopping c) := by
  rw [Play.stopLoop, bind_of_eq_some (onClient_apply _), h]
  rfl

theorem stopLoop_of_error (h : s.client.stopLoop = (.error f, c)) :
    Play.stopLoop s = some (.error f, { s with client := c }) := by
  rw [Play.stopLoop, bind_of_eq_some (onClient_apply _), h]
  rfl

theorem aside_starting (h : s.client.startLoop = (.ok (), c)) : Aside s (s.starting c) := by
  have hsteady := Client.steady_startLoop s.client
  rw [h] at hsteady
  exact (aside_client s hsteady).trans (aside_noted _ rfl)

theorem aside_stopping (h : s.client.stopLoop = (.ok (), c)) : Aside s (s.stopping c) := by
  have hsteady := Client.steady_stopLoop s.client
  rw [h] at hsteady
  exact (aside_client s hsteady).trans (aside_noted _ rfl)

/-- Starts the network loop at the end of a connect. -/
def finishConnect : Play (Except Fault Unit) := do
  match ← onClient Client.startLoop with
  | .error f => return .error (.client f)
  | .ok _ =>
    note .connectDone
    return .ok ()

theorem finishConnect_of_ok (h : s.client.startLoop = (.ok (), c)) :
    finishConnect s = some (.ok (), s.starting c) := by
  rw [finishConnect, bind_of_eq_some (onClient_apply _), h]
  rfl

theorem finishConnect_of_error (h : s.client.startLoop = (.error f, c)) :
    finishConnect s = some (.error (.client f), { s with client := c }) := by
  rw [finishConnect, bind_of_eq_some (onClient_apply _), h]
  rfl

/-- The session whose client has just been asked to connect. -/
def asking (s : Session) (password : Option String) : Session :=
  let named := s.client.setCredentials s.settings.username password
  { s.noted (.connecting s.settings.hostname s.settings.effectivePort s.settings.webSockets) with
    client := (named.connect s.settings.connectRequest (some s.settings.connectTimeout)).2 }

/-- What is left to do of a connect when the client has replied, or has not replied in time. -/
def afterConnect (limit : Duration) : Option Reply → Play (Except Fault Unit)
  | none => do
    note (.connectTimedOut limit)
    stopAfterFailure
    return .error (.timedOut .connect)
  | some (.error f) => do
    note (.connectFailed f)
    stopAfterFailure
    return .error (.client f)
  | some (.ok code) => do
    match ← checkCode .connect code with
    | .error f => return .error f
    | .ok _ => finishConnect

theorem connect_apply (s : Session) (password : Option String) :
    connect password s = afterConnect s.settings.connectTimeout
      (s.client.connect s.settings.connectRequest (some s.settings.connectTimeout)).1
      (s.asking password) := by
  have hreply : ((s.client.setCredentials s.settings.username password).connect
      s.settings.connectRequest (some s.settings.connectTimeout)).1 =
        (s.client.connect s.settings.connectRequest (some s.settings.connectTimeout)).1 :=
    Client.connect_fst_setCredentials _ _ _ _ _
  rw [connect, bind_of_eq_some get_apply, bind_of_eq_some (note_apply _),
    bind_of_eq_some (changeClient_apply _), bind_of_eq_some (onClient_apply _), ← hreply]
  simp only [noted_client]
  match ((s.client.setCredentials s.settings.username password).connect
    s.settings.connectRequest (some s.settings.connectTimeout)).1 with
  | none => rfl
  | some (.error f) => rfl
  | some (.ok code) => rfl

/-- What is left to do of a disconnect when both calls on the client have been made. -/
def afterDisconnect (run : Runner) (clear : Bool) :
    Reply → Except ClientFault Unit → Play (Except Fault Unit)
  | .error f, _ => return .error (.client f)
  | .ok _, .error f => return .error (.client f)
  | .ok code, .ok _ => do
    match ← checkCode .disconnect code with
    | .error f => return .error f
    | .ok _ =>
      if clear then
        let r ← abandon run
        return r.mapError .fatal
      else return .ok ()

theorem disconnect_eq (run : Runner) (clear : Bool) : disconnect run clear = (do
    note .disconnecting
    let disconnected ← onClient Client.disconnect
    let stopped ← Play.stopLoop
    afterDisconnect run clear disconnected stopped) := by
  refine bind_congr fun _ => bind_congr fun disconnected => bind_congr fun stopped => ?_
  cases disconnected <;> cases stopped <;> rfl

/-- What is left to do of a shutdown when both calls on the client have been made. -/
def afterShutDown : Reply → Except ClientFault Unit → Play (Except Fault Unit)
  | .error f, _ => return .error (.client f)
  | .ok _, .error f => return .error (.client f)
  | .ok code, .ok _ => do
    if code ≠ 0 then note (.codeIgnored code)
    return .ok ()

theorem shutDown_eq : shutDown = (do
    note (.shuttingDown (← get).settings.clientId)
    changeClient (·.setSink false)
    let disconnected ← onClient Client.disconnect
    let stopped ← Play.stopLoop
    afterShutDown disconnected stopped) := by
  refine bind_congr fun _ => bind_congr fun _ => bind_congr fun _ =>
    bind_congr fun disconnected => bind_congr fun stopped => ?_
  cases disconnected <;> cases stopped <;> rfl

/-- A relation across everything that a session does, where only steps that satisfy `A` are run. -/
structure Frame (A : Step → Prop) (R : Session → Session → Prop) : Prop where
  carried : ∀ ⦃step c⦄, A step → step.carried? = some c → ∀ n ∈ c.steps, A n
  -- what a session does by itself
  noted : ∀ s o, o.calm → R s (s.noted o)
  held : ∀ ⦃s t⦄, R { s with holders := s.holders + 1 } t → R s { t with holders := t.holders - 1 }
  handled : ∀ s slot c, A (.setHandler slot c) → R s (s.setHandler slot c)
  cleared : ∀ s, R s s.clearHandlers
  dropped : ∀ s, R s { s with owned := false }
  -- what its client does
  client : ∀ s c, s.client.Steady c → c.looping = s.client.looping → R s { s with client := c }
  started : ∀ s, A .clientStartLoop → R s { s with client := s.client.startLoop.2 }
  connected : ∀ s c password, A (.connect password) → s.client.startLoop = (.ok (), c) →
    R s (s.starting c)
  stopped : ∀ s c, s.client.stopLoop = (.ok (), c) → R s (s.stopping c)
  detached : ∀ s, R s { s with client := s.client.setSink false }
  queued : ∀ s ids, A (.scriptIds ids) →
    R s { s with client := { s.client with queuedIds := s.client.queuedIds ++ ids } }
  hooked : ∀ s hook, A (.setIssueHook hook) →
    R s { s with client := { s.client with issueHook := some hook } }
  freed : ∀ s id, R s (s.freeing id)
  given : ∀ s m id c code, s.client.takeId = some (id, c) →
    R s (s.giving m id code (if code = 0 then c else c.reclaim id))
  -- what further steps are run for
  track : ∀ {run : Runner}, (∀ n, A n → Within R (run n)) → ∀ id callback,
    (∀ c, callback = some c → ∀ n ∈ c.steps, A n) → Within R (Session.track run id callback)
  settle : ∀ {run : Runner}, (∀ n, A n → Within R (run n)) → ∀ id,
    Within R (Session.settle run id)
  abandon : ∀ {run : Runner}, (∀ n, A n → Within R (run n)) → Within R (Session.abandon run)
  signal : ∀ {run : Runner}, (∀ n, A n → Within R (run n)) → ∀ x, Within R (Session.signal run x)
  callHook : ∀ {run : Runner}, (∀ n, A n → Within R (run n)) → ∀ m id,
    Within R (Session.callHook run m id)

namespace Frame

variable {A : Step → Prop} {R : Session → Session → Prop} [IsPreorder Session R] (hF : Frame A R)

/-! ## What calls nobody -/

section

omit [IsPreorder Session R]
include hF

theorem within_note {o : Occurrence} (h : o.calm) : Within R (note o) :=
  Play.within_note fun s => hF.noted s o h

theorem within_onClient {f : Client → α × Client} (h : ∀ c : Client, c.Steady (f c).2)
    (hl : ∀ c : Client, (f c).2.looping = c.looping) : Within R (onClient f) :=
  Play.within_onClient fun s => hF.client s _ (h _) (hl _)

theorem within_changeClient {f : Client → Client} (h : ∀ c : Client, c.Steady (f c))
    (hl : ∀ c : Client, (f c).looping = c.looping) : Within R (changeClient f) :=
  Play.within_changeClient fun s => hF.client s _ (h _) (hl _)

theorem within_holding {x : Play α} (hx : Within R x) : Within R (holding x) := by
  intro s a t h
  obtain ⟨u, hu, rfl⟩ := exists_of_holding h
  exact hF.held (hx hu)

theorem within_stopLoop : Within R Play.stopLoop := by
  intro s a t h
  match hr : s.client.stopLoop with
  | (.ok (), c) =>
    rw [stopLoop_of_ok hr] at h
    cases h
    exact hF.stopped s c hr
  | (.error f, c) =>
    rw [stopLoop_of_error hr] at h
    cases h
    have hsteady := Client.steady_stopLoop s.client
    rw [hr] at hsteady
    exact hF.client s c hsteady (Client.looping_stopLoop_of_error hr)

theorem within_finishConnect {password : Option String} (hA : A (.connect password)) :
    Within R finishConnect := by
  intro s a t h
  match hr : s.client.startLoop with
  | (.ok (), c) =>
    rw [finishConnect_of_ok hr] at h
    cases h
    exact hF.connected s c password hA hr
  | (.error f, c) =>
    rw [finishConnect_of_error hr] at h
    cases h
    have hsteady := Client.steady_startLoop s.client
    rw [hr] at hsteady
    exact hF.client s c hsteady (Client.looping_startLoop_of_error hr)

end

include hF

theorem within_withLink {x : Play Answer} (hx : Within R x) : Within R (withLink x) := by
  refine within_bind within_get fun s => ?_
  split
  · exact hF.within_holding hx
  · exact within_pure _

theorem within_sweeping {x : Play α} (hx : Within R x) : Within R (sweeping x) :=
  within_bind (hF.within_note rfl) fun _ => within_bind hx fun _ =>
    within_bind (hF.within_note rfl) fun _ => within_pure _

theorem within_spanning (operation : Operation) (arguments : List Argument) {x : Play α}
    (hx : Within R x) : Within R (spanning operation arguments x) :=
  within_bind within_get fun _ => within_bind (hF.within_note rfl) fun _ =>
    within_bind hx fun _ => within_bind (hF.within_note rfl) fun _ => within_pure _

theorem within_hangUp : Within R hangUp := by
  refine within_bind (hF.within_onClient Client.steady_disconnect Client.looping_disconnect)
    fun r => ?_
  match r with
  | .ok _ => exact within_bind hF.within_stopLoop fun _ => within_pure _
  | .error _ => exact within_pure _

theorem within_checkCode (operation : Operation) (code : Int) :
    Within R (checkCode operation code) := by
  unfold checkCode
  split
  · exact within_pure _
  · exact within_bind (hF.within_note rfl) fun _ => within_pure _

theorem within_tryStopLoop : Within R tryStopLoop := by
  refine within_bind hF.within_stopLoop fun r => ?_
  match r with
  | .error _ => exact hF.within_note rfl
  | .ok _ => exact within_pure _

theorem within_stopAfterFailure : Within R stopAfterFailure := by
  refine within_bind (hF.within_onClient Client.steady_disconnect Client.looping_disconnect)
    fun r => ?_
  match r with
  | .error _ => exact within_bind (hF.within_note rfl) fun _ => hF.within_tryStopLoop
  | .ok _ => exact hF.within_tryStopLoop

theorem within_afterConnect {password : Option String} (hA : A (.connect password))
    (limit : Duration) (reply : Option Reply) : Within R (afterConnect limit reply) := by
  match reply with
  | none =>
    exact within_bind (hF.within_note rfl) fun _ =>
      within_bind hF.within_stopAfterFailure fun _ => within_pure _
  | some (.error _) =>
    exact within_bind (hF.within_note rfl) fun _ =>
      within_bind hF.within_stopAfterFailure fun _ => within_pure _
  | some (.ok code) =>
    refine within_bind (hF.within_checkCode .connect code) fun r => ?_
    match r with
    | .error _ => exact within_pure _
    | .ok _ => exact hF.within_finishConnect hA

theorem within_connect {password : Option String} (hA : A (.connect password)) :
    Within R (connect password) := by
  intro s a t h
  rw [connect_apply] at h
  have hasking : R s (s.asking password) :=
    IsTrans.trans _ _ _ (hF.noted s _ rfl) (hF.client (s.noted _) _
      ((s.client.steady_setCredentials _ _).trans (Client.steady_connect _ _ _))
      (Client.looping_connect _ _ _))
  exact IsTrans.trans _ _ _ hasking (hF.within_afterConnect hA _ _ h)

theorem within_afterShutDown (disconnected : Reply) (stopped : Except ClientFault Unit) :
    Within R (afterShutDown disconnected stopped) := by
  match disconnected, stopped with
  | .error _, _ => exact within_pure _
  | .ok _, .error _ => exact within_pure _
  | .ok code, .ok _ =>
    rw [afterShutDown]
    split
    · exact within_bind (hF.within_note rfl) fun _ => within_pure _
    · exact within_pure _

theorem within_shutDown : Within R shutDown := by
  rw [shutDown_eq]
  exact within_bind within_get fun _ => within_bind (hF.within_note rfl) fun _ =>
    within_bind (Play.within_changeClient hF.detached) fun _ =>
    within_bind (hF.within_onClient Client.steady_disconnect Client.looping_disconnect) fun _ =>
    within_bind hF.within_stopLoop fun _ => hF.within_afterShutDown _ _

variable {run : Runner} (hrun : ∀ n, A n → Within R (run n))
include hrun

/-! ## Events -/

theorem within_afterDisconnect (clear : Bool) (disconnected : Reply)
    (stopped : Except ClientFault Unit) :
    Within R (afterDisconnect run clear disconnected stopped) := by
  match disconnected, stopped with
  | .error _, _ => exact within_pure _
  | .ok _, .error _ => exact within_pure _
  | .ok code, .ok _ =>
    refine within_bind (hF.within_checkCode .disconnect code) fun r => ?_
    match r with
    | .error _ => exact within_pure _
    | .ok _ =>
      cases clear with
      | false => exact within_pure _
      | true => exact within_bind (hF.abandon hrun) fun _ => within_pure _

theorem within_disconnect (clear : Bool) : Within R (disconnect run clear) := by
  rw [disconnect_eq]
  exact within_bind (hF.within_note rfl) fun _ =>
    within_bind (hF.within_onClient Client.steady_disconnect Client.looping_disconnect) fun _ =>
    within_bind hF.within_stopLoop fun _ => hF.within_afterDisconnect hrun clear _ _

theorem within_acknowledge (id : PacketId) : Within R (acknowledge run id) := by
  refine within_bind within_get fun s => ?_
  split
  · exact within_bind (hF.within_holding (hF.settle hrun id)) fun _ => within_pure _
  · exact within_pure _

theorem within_routeConnectAnswer (code : Int) : Within R (routeConnectAnswer run code) := by
  refine within_bind within_get fun s => ?_
  split
  · refine hF.within_holding ?_
    split
    · exact within_bind (hF.within_note rfl) fun _ => hF.signal hrun _
    · exact within_bind (hF.within_note rfl) fun _ => hF.signal hrun _
  · exact within_pure _

theorem within_routeClose (code : Int) : Within R (routeClose run code) := by
  refine within_bind within_get fun s => ?_
  split
  · refine hF.within_holding ?_
    split
    · exact within_bind (hF.within_note rfl) fun _ => hF.signal hrun _
    · refine within_bind (hF.within_note rfl) fun _ =>
        within_bind hF.within_hangUp fun r => ?_
      match r with
      | .error _ => exact within_pure _
      | .ok _ => exact hF.signal hrun _
  · exact within_bind (hF.within_note rfl) fun _ =>
      within_bind hF.within_stopLoop fun _ => within_pure _

theorem within_routeMessage (m : Message) : Within R (routeMessage run m) := by
  refine within_bind (hF.within_note rfl) fun _ => within_bind within_get fun s => ?_
  split
  · exact hF.within_holding (hF.signal hrun _)
  · exact within_pure _

theorem within_route (event : BrokerEvent) : Within R (route run event) := by
  cases event with
  | connectAnswered code => exact hF.within_routeConnectAnswer hrun code
  | closed code => exact hF.within_routeClose hrun code
  | subscribed id _ | unsubscribed id | published id =>
    exact within_bind (hF.within_note rfl) fun _ => hF.within_acknowledge hrun id
  | message m => exact hF.within_routeMessage hrun m

theorem within_deliver (event : BrokerEvent) : Within R (deliver run event) := by
  have hroute : Within R (do
      if (← get).client.sink then route run event else return .ok ()) := by
    refine within_bind within_get fun s => ?_
    split
    · exact hF.within_route hrun event
    · exact within_pure _
  unfold deliver
  split
  next id _ =>
    intro s a t h
    rw [bind_of_eq_some (note_apply _), bind_of_eq_some (changeClient_apply _)] at h
    exact IsTrans.trans _ _ _ (hF.freed s id) (hroute h)
  next => exact hroute

/-! ## Requests -/

theorem within_acknowledgeEarly (r : Request) (id : PacketId) :
    Within R (acknowledgeEarly run r id) :=
  within_bind (hF.within_deliver hrun _) fun _ =>
    hF.within_changeClient (fun _ => ⟨rfl, rfl, rfl, rfl⟩) fun _ => rfl

theorem within_issue (r : Request) : Within R (issue run r) := by
  intro s a t h
  obtain ⟨reply, c, hc⟩ : ∃ reply c, (s.client.add r.call).takeReply r.method = (reply, c) :=
    ⟨_, _, rfl⟩
  have hasked : R s { s with client := c } :=
    hF.client s c (Client.steady_called hc) (Client.looping_of_called hc)
  cases reply with
  | error f =>
    rw [issue_of_error run hc] at h
    cases h
    exact hasked
  | ok code =>
    rw [issue_of_reply run hc] at h
    match hid : c.takeId with
    | none =>
      rw [hid] at h
      cases h
      exact hasked
    | some (id, d) =>
      rw [hid] at h
      have hgiven := hF.given { s with client := c } r.method id d code hid
      obtain ⟨-, u, hbefore, hcalled⟩ := exists_of_conclude run h
      have hhook := hF.callHook hrun _ _ hcalled
      refine IsTrans.trans _ _ _ hasked ?_
      cases hbefore with
      | rejected hcode =>
        -- a request that is turned down gives its identifier back before anything else happens
        rw [if_neg hcode] at hgiven
        exact IsTrans.trans _ _ _ hgiven hhook
      | early hcode _ acknowledged =>
        rw [if_pos hcode] at hgiven
        have hearly := hF.within_acknowledgeEarly hrun r id acknowledged
        exact IsTrans.trans _ _ _ hgiven (IsTrans.trans _ _ _ hearly hhook)
      | late hcode _ =>
        rw [if_pos hcode] at hgiven
        exact IsTrans.trans _ _ _ hgiven hhook

theorem within_request (r : Request) {callback : Option Callback}
    (hc : ∀ c, callback = some c → ∀ n ∈ c.steps, A n) : Within R (request run r callback) := by
  unfold request
  split
  · exact within_pure _
  · refine within_bind (hF.within_issue hrun r) fun issued => ?_
    match issued with
    | .error _ => exact within_pure _
    | .ok (code, id) =>
      refine within_bind (hF.within_checkCode _ code) fun checked => ?_
      match checked with
      | .error _ => exact within_pure _
      | .ok _ =>
        refine within_bind (hF.track hrun id callback hc) fun tracked => ?_
        cases tracked <;> exact within_pure _

theorem within_issueMany (r : Request) (times : Nat) (last : Answer) :
    Within R (issueMany run r times last) := by
  induction times generalizing last with
  | zero => exact within_pure _
  | succ times ih =>
    refine within_bind (within_answeringIssued (hF.within_issue hrun r)) fun answer => ?_
    split
    · exact within_pure _
    · exact ih _

/-! ## Steps and runs -/

theorem within_trackAll {callback : Option Callback}
    (hc : ∀ c, callback = some c → ∀ n ∈ c.steps, A n) (ids : List PacketId) :
    Within R (trackAll run callback ids) := by
  induction ids with
  | nil => exact within_pure _
  | cons id rest ih =>
    refine within_bind (hF.track hrun id callback hc) fun r => ?_
    match r with
    | .ok _ => exact ih
    | .error _ => exact within_pure _

theorem within_settleAll (ids : List PacketId) : Within R (settleAll run ids) := by
  induction ids with
  | nil => exact within_pure _
  | cons id rest ih =>
    refine within_bind (hF.settle hrun id) fun r => ?_
    match r with
    | .ok _ => exact ih
    | .error _ => exact within_pure _

theorem within_perform {step : Step} (hstep : A step) : Within R (perform run step) := by
  have hlink {x : Play Answer} (hx : Within R x) : Within R (withLink x) := hF.within_withLink hx
  have hask (r : Request) {callback : Option Callback} (h : step.carried? = callback) :=
    within_answeringId (hF.within_spanning r.operation r.arguments
      (hF.within_request hrun r fun _ hc => hF.carried hstep (h.trans hc)))
  cases step with
  | track id callback =>
    exact hlink (within_answeringFatal (hF.track hrun id callback fun _ => hF.carried hstep))
  | settle id => exact hlink (within_answeringFatal (hF.settle hrun id))
  | abandon => exact hF.within_sweeping (hlink (within_answeringFatal (hF.abandon hrun)))
  | trackAll ids callback =>
    exact hlink (within_answeringFatal
      (hF.within_trackAll hrun (fun _ => hF.carried hstep) ids))
  | settleAll ids => exact hlink (within_answeringFatal (hF.within_settleAll hrun ids))
  | inspect _ | describe | showRequest =>
    exact hlink (within_bind within_get fun _ => within_pure _)
  | connect password =>
    exact hlink (within_answering (hF.within_spanning _ _ (hF.within_connect hstep)))
  | disconnect clear =>
    cases clear with
    | true =>
      exact hF.within_sweeping (hlink (within_answering
        (hF.within_spanning _ _ (hF.within_disconnect hrun true))))
    | false =>
      exact hlink (within_answering (hF.within_spanning _ _ (hF.within_disconnect hrun false)))
  | shutDown => exact hlink (within_answering hF.within_shutDown)
  | subscribe filter level callback => exact hlink (within_withQos fun _ => hask _ rfl)
  | unsubscribe filter callback => exact hlink (hask _ rfl)
  | publish topic payload level callback => exact within_withQos fun _ => hlink (hask _ rfl)
  | setHandler slot handler =>
    exact hlink (within_bind (hF.within_note rfl) fun _ =>
      within_bind (within_modify fun s => hF.handled s slot handler hstep) fun _ => within_pure _)
  | clearHandlers =>
    exact hlink (within_bind (hF.within_note rfl) fun _ =>
      within_bind (within_modify hF.cleared) fun _ => within_pure _)
  | dropLink => exact within_bind (within_modify hF.dropped) fun _ => within_pure _
  | scriptReply m r =>
    exact within_bind (hF.within_changeClient (fun c => c.steady_queueReply m r) fun _ => rfl)
      fun _ => within_pure _
  | completeEarly _ | delayConnect _ | forgetCalls =>
    exact within_bind (hF.within_changeClient (fun _ => ⟨rfl, rfl, rfl, rfl⟩) fun _ => rfl)
      fun _ => within_pure _
  | scriptIds ids =>
    exact within_bind (Play.within_changeClient fun s => hF.queued s ids hstep) fun _ =>
      within_pure _
  | setIssueHook hook =>
    exact within_bind (Play.within_changeClient fun s => hF.hooked s hook hstep) fun _ =>
      within_pure _
  | countCalls _ => exact within_bind within_get fun _ => within_pure _
  | takeEarlyResults =>
    exact within_bind within_get fun _ =>
      within_bind (hF.within_changeClient (fun _ => ⟨rfl, rfl, rfl, rfl⟩) fun _ => rfl)
        fun _ => within_pure _
  | answerConnect _ | close _ | acknowledgeUnsubscribe _ | acknowledgePublish _ =>
    exact within_answering (hF.within_deliver hrun _)
  | acknowledgeSubscribe _ _ | receive _ _ _ _ _ =>
    exact within_withQos fun _ => within_answering (hF.within_deliver hrun _)
  | clientSetCredentials username password =>
    exact within_bind
      (hF.within_changeClient (fun c => c.steady_setCredentials username password) fun _ => rfl)
      fun _ => within_pure _
  | clientDetach =>
    exact within_bind (Play.within_changeClient hF.detached) fun _ => within_pure _
  | clientConnect settings =>
    refine within_bind (hF.within_onClient (fun c => c.steady_connect _ _)
      fun c => c.looping_connect _ _) fun reply => ?_
    match reply with
    | none => exact within_pure _
    | some reply => exact within_answeringReply (within_pure _)
  | clientDisconnect =>
    exact within_answeringReply
      (hF.within_onClient Client.steady_disconnect Client.looping_disconnect)
  | clientSubscribe _ _ =>
    exact within_withQos fun _ => within_answeringIssued (hF.within_issue hrun _)
  | clientUnsubscribe _ => exact within_answeringIssued (hF.within_issue hrun _)
  | clientPublish _ _ _ times => exact within_withQos fun _ => hF.within_issueMany hrun _ _ _
  | clientStartLoop =>
    exact within_bind (Play.within_onClient fun s => hF.started s hstep) fun _ => within_pure _
  | clientStopLoop => exact within_bind hF.within_stopLoop fun _ => within_pure _

omit hrun in
theorem within_performTo (depth : Nat) {step : Step} (hstep : A step) :
    Within R (performTo depth step) := by
  induction depth generalizing step with
  | zero =>
    intro s a t h
    cases h
  | succ depth ih => exact hF.within_perform (fun _ => ih) hstep

omit hrun in
theorem within_performAll (depth : Nat) {steps : List Step} (hsteps : ∀ step ∈ steps, A step) :
    Within R (performAll depth steps) :=
  Session.within_performAll fun step hm => hF.within_performTo depth (hsteps step hm)

end Frame

end Session

end MqttLink
