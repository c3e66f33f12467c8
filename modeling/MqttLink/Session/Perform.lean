import MqttLink.Session.Requests

/-!
The steps of a session, and whole sessions. Steps call callbacks and callbacks run steps; the
recursion goes down the depth to which they are nested.
-/

namespace MqttLink.Session

open Play

variable (run : Runner)

/-- Runs a step that needs the link, and keeps the link alive meanwhile. -/
def withLink (x : Play Answer) : Play Answer := do
  if (← get).owned then holding x else return .gone

/-- Runs a step that needs a quality level. -/
def withQos (level : Nat) (x : Qos → Play Answer) : Play Answer :=
  match Qos.ofLevel? level with
  | some qos => x qos
  | none => pure (.fault (.invalidQos level))

def answering (x : Play (Except Fault Unit)) : Play Answer := do
  return .ofResult (← x)

def answeringFatal (x : Play (Except Fatal Unit)) : Play Answer := do
  return .ofResult ((← x).mapError .fatal)

def answeringId (x : Play (Except Fault PacketId)) : Play Answer := do
  match ← x with
  | .ok id => return .id id
  | .error f => return .fault f

def answeringIssued (x : Play (Except ClientFault (Int × PacketId))) : Play Answer := do
  match ← x with
  | .ok (code, id) => return .issued code id
  | .error f => return .fault (.client f)

def answeringStopped (x : Play (Except ClientFault Unit)) : Play Answer := do
  return .ofResult ((← x).mapError .client)

def answeringReply (x : Play Reply) : Play Answer := do
  match ← x with
  | .ok code => return .code code
  | .error f => return .fault (.client f)

/-- Makes a request of the link in the span of its own. -/
def answeringRequest (r : Request) (callback : Option Callback) : Play Answer :=
  answeringId (spanning r.operation r.arguments (request run r callback))

def inspection (l : Ledger Callback) (id : PacketId) : String :=
  s!"pending={l.isPending id} unknown={l.isEarly id} " ++
    s!"pending_count={l.pending.size} unknown_count={l.early.size}"

def description (l : Ledger Callback) : String :=
  s!"OperationManager \x7b pending: {l.pending.size}, " ++
    s!"unknown_completions: {l.early.size} \x7d"

/-- Makes the same request again and again on the client, up to the first failure; the answer is
the last one. -/
def issueMany (r : Request) : (times : Nat) → Answer → Play Answer
  | 0, last => pure last
  | times + 1, _ => do
    match ← answeringIssued (issue run r) with
    | .fault f => return .fault f
    | answer => issueMany r times answer

/-- Runs one step; `run` runs those that are nested in it. -/
def perform : Step → Play Answer
  | .track id callback => withLink (answeringFatal (track run id callback))
  | .settle id => withLink (answeringFatal (settle run id))
  | .abandon => sweeping (withLink (answeringFatal (abandon run)))
  | .trackAll ids callback => withLink (answeringFatal (trackAll run callback ids))
  | .settleAll ids => withLink (answeringFatal (settleAll run ids))
  | .inspect id => withLink do return .text (inspection (← get).ledger id)
  | .describe => withLink do return .text (description (← get).ledger)
  | .connect password =>
    withLink (answering (spanning .connect [.password password] (connect password)))
  | .disconnect true =>
    sweeping (withLink (answering (spanning .disconnect [.clear true] (disconnect run true))))
  | .disconnect false =>
    withLink (answering (spanning .disconnect [.clear false] (disconnect run false)))
  | .shutDown => withLink (answering shutDown)
  | .subscribe filter level callback =>
    withLink (withQos level fun qos => answeringRequest run (.subscribe filter qos) callback)
  | .unsubscribe filter callback => withLink (answeringRequest run (.unsubscribe filter) callback)
  | .publish topic payload level callback =>
    withQos level fun qos =>
      withLink (answeringRequest run (.publish topic payload qos) callback)
  | .setHandler slot handler => withLink do
    note (.handlerSet slot handler)
    modify (·.setHandler slot handler)
    return .done
  | .clearHandlers => withLink do
    note .handlersCleared
    modify (·.clearHandlers)
    return .done
  | .dropLink => do
    modify fun s => { s with owned := false }
    return .done
  | .showRequest => withLink do return .request (← get).settings.connectRequest
  | .scriptReply method reply => do
    changeClient (·.queueReply method reply)
    return .done
  | .scriptIds ids => do
    changeClient fun c => { c with queuedIds := c.queuedIds ++ ids }
    return .done
  | .completeEarly enabled => do
    changeClient fun c => { c with completesEarly := enabled }
    return .done
  | .delayConnect milliseconds => do
    changeClient fun c => { c with connectDelay := some milliseconds }
    return .done
  | .forgetCalls => do
    changeClient (·.forgetCalls)
    return .done
  | .countCalls method => do return .count ((← get).client.countCalls method)
  | .takeEarlyResults => do
    let results := (← get).client.earlyResults
    changeClient fun c => { c with earlyResults := [] }
    return .results results.reverse
  | .setIssueHook hook => do
    changeClient fun c => { c with issueHook := some hook }
    return .done
  | .answerConnect code => answering (deliver run (.connectAnswered code))
  | .close code => answering (deliver run (.closed code))
  | .acknowledgeSubscribe id level =>
    withQos level fun qos => answering (deliver run (.subscribed id qos))
  | .acknowledgeUnsubscribe id => answering (deliver run (.unsubscribed id))
  | .acknowledgePublish id => answering (deliver run (.published id))
  | .receive topic payload level retain id =>
    withQos level fun qos =>
      answering (deliver run (.message ⟨topic, payload, qos, retain, id⟩))
  | .clientSetCredentials username password => do
    changeClient (·.setCredentials username password)
    return .done
  | .clientDetach => do
    changeClient (·.setSink false)
    return .done
  | .clientConnect settings => do
    match ← onClient (·.connect settings.connectRequest none) with
    | some reply => answeringReply (pure reply)
    | none => return .nothing
  | .clientDisconnect => answeringReply (onClient Client.disconnect)
  | .clientSubscribe filter level =>
    withQos level fun qos => answeringIssued (issue run (.subscribe filter qos))
  | .clientUnsubscribe filter => answeringIssued (issue run (.unsubscribe filter))
  | .clientPublish topic payload level times =>
    withQos level fun qos => issueMany run (.publish topic payload qos) times .nothing
  | .clientStartLoop => answeringStopped (onClient Client.startLoop)
  | .clientStopLoop => answeringStopped stopLoop

/-- Runs a step whose own steps are nested at most `depth` deep. -/
def performTo : (depth : Nat) → Step → Play Answer
  | 0, _ => fun _ => none
  | depth + 1, step => perform (performTo depth) step

end MqttLink.Session
