import MqttLink.Session.Events
import MqttLink.Topic

/-!
What a link asks of its broker client: to connect and disconnect, and to subscribe, unsubscribe
and publish.
-/

namespace MqttLink.Session

open Play

variable (run : Runner)

/-! ## Operations on the client -/

/-- The requests that are given a packet identifier. -/
inductive Request
  | subscribe (filter : String) (qos : Qos)
  | unsubscribe (filter : String)
  | publish (topic : String) (payload : Payload) (qos : Qos)

namespace Request

def method : Request → Method
  | subscribe _ _ => .subscribe
  | unsubscribe _ => .unsubscribe
  | publish _ _ _ => .publish

def operation : Request → Operation
  | subscribe _ _ => .subscribe
  | unsubscribe _ => .unsubscribe
  | publish _ _ _ => .publish

def call : Request → Call
  | subscribe filter qos => .subscribe filter qos
  | unsubscribe filter => .unsubscribe filter
  | publish topic payload qos => .publish topic payload qos

def arguments : Request → List Argument
  | subscribe filter qos => [.topic filter, .qos qos]
  | unsubscribe filter => [.topic filter]
  | publish topic payload qos => [.topic topic, .payload payload, .qos qos]

/-- The event that acknowledges a request. -/
def acknowledgement (id : PacketId) : Request → BrokerEvent
  | subscribe _ qos => .subscribed id qos
  | unsubscribe _ => .unsubscribed id
  | publish _ _ _ => .published id

/-- What is checked before the client is asked. -/
def check : Request → Except Fault Unit
  | subscribe filter _ => Topic.checkFilter filter
  | unsubscribe filter => Topic.checkFilter filter
  | publish topic payload _ => do
    Topic.checkName topic
    if Payload.maxSize < payload.size then
      .error (.payloadTooLarge payload.size Payload.maxSize)
    else .ok ()

end Request

/-- Whether an identifier is pending and early, if there is a link to ask. -/
def standing (id : PacketId) : Play (Option (Bool × Bool)) := do
  let s ← get
  return if s.owned then some (s.ledger.isPending id, s.ledger.isEarly id) else none

/-- Calls the issue hook; what becomes of its steps is of no consequence. -/
def callHook (method : Method) (id : PacketId) : Play Unit := do
  match (← get).client.issueHook with
  | none => return ()
  | some hook =>
    note (.hooked method id (← standing id))
    let _ ← runSteps run hook.stopsOnFault (hook.script id)
    return ()

/-- Delivers the acknowledgement of a request from inside the request itself. -/
def acknowledgeEarly (r : Request) (id : PacketId) : Play Unit := do
  let result ← deliver run (r.acknowledgement id)
  changeClient fun c => { c with earlyResults := result :: c.earlyResults }

def noFreeId : ClientFault := ⟨"no free MID"⟩

/-- The client's part in a request: it returns a code and the identifier it has chosen. The
identifier of a request that is turned down is free again. -/
def issue (r : Request) : Play (Except ClientFault (Int × PacketId)) := do
  changeClient (·.add r.call)
  match ← onClient (·.takeReply r.method) with
  | .error f => return .error f
  | .ok code =>
    match (← get).client.takeId with
    | none => return .error noFreeId
    | some (id, client) =>
      changeClient fun _ => client
      note (.issued r.method id code)
      if code ≠ 0 then changeClient (·.reclaim id)
      else if (← get).client.completesEarly then acknowledgeEarly run r id
      callHook run r.method id
      return .ok (code, id)

/-! ## Operations on the link -/

/-- Turns a code other than zero into a fault. -/
def checkCode (operation : Operation) (code : Int) : Play (Except Fault Unit) := do
  if code = 0 then return .ok ()
  else
    note (.rejected operation code)
    return .error (.rejected operation code)

/-- Stops a client that failed while it was connecting. Both calls are made, whatever comes of
them. -/
def stopAfterFailure : Play Unit := do
  match ← onClient Client.disconnect with
  | .error f => note (.cleanupDisconnectFailed f)
  | .ok _ => pure ()
  match ← stopLoop with
  | .error f => note (.cleanupStopFailed f)
  | .ok _ => pure ()

def connect (password : Option String) : Play (Except Fault Unit) := do
  let settings := (← get).settings
  note (.connecting settings.hostname settings.effectivePort settings.webSockets)
  changeClient (·.setCredentials settings.username password)
  match ← onClient (·.connect settings.connectRequest (some settings.connectTimeout)) with
  | none =>
    note (.connectTimedOut settings.connectTimeout)
    stopAfterFailure
    return .error (.timedOut .connect)
  | some (.error f) =>
    note (.connectFailed f)
    stopAfterFailure
    return .error (.client f)
  | some (.ok code) =>
    match ← checkCode .connect code with
    | .error f => return .error f
    | .ok _ =>
      match ← onClient Client.startLoop with
      | .error f => return .error (.client f)
      | .ok _ =>
        note .connectDone
        return .ok ()

/-- Disconnects and stops the network loop; both calls are made, whatever comes of the first. Only
when all went well are the operations in flight abandoned, if `clear` says so. -/
def disconnect (clear : Bool) : Play (Except Fault Unit) := do
  note .disconnecting
  let disconnected ← onClient Client.disconnect
  let stopped ← stopLoop
  match disconnected, stopped with
  | .error f, _ => return .error (.client f)
  | .ok _, .error f => return .error (.client f)
  | .ok code, .ok _ =>
    match ← checkCode .disconnect code with
    | .error f => return .error f
    | .ok _ =>
      if clear then
        let r ← abandon run
        return r.mapError .fatal
      else return .ok ()

/-- Stops listening to the client, then disconnects it by force. -/
def shutDown : Play (Except Fault Unit) := do
  note (.shuttingDown (← get).settings.clientId)
  changeClient (·.setSink false)
  let disconnected ← onClient Client.disconnect
  let stopped ← stopLoop
  match disconnected, stopped with
  | .error f, _ => return .error (.client f)
  | .ok _, .error f => return .error (.client f)
  | .ok code, .ok _ =>
    if code ≠ 0 then note (.codeIgnored code)
    return .ok ()

/-- Makes a request and tracks it if the client accepts it. -/
def request (r : Request) (callback : Option Callback) : Play (Except Fault PacketId) := do
  match r.check with
  | .error f => return .error f
  | .ok _ =>
    match ← issue run r with
    | .error f => return .error (.client f)
    | .ok (code, id) =>
      match ← checkCode r.operation code with
      | .error f => return .error f
      | .ok _ =>
        match ← track run id callback with
        | .error f => return .error (.fatal f)
        | .ok _ => return .ok id

end MqttLink.Session
