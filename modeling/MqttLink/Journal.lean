import MqttLink.Ledger
import MqttLink.Script
import MqttLink.Span

/-!
The journal of a session: everything that happened, in order. An occurrence can show up among the
events of a report, in its log, or in both.
-/

namespace MqttLink

/-- What a handler is told. -/
inductive Signal
  | connected
  | disconnected (cause : Option Fault)
  | connectionFailure (fault : Fault)
  | message (m : Message)

def Signal.slot : Signal → Slot
  | connected => .connected
  | disconnected _ => .disconnected
  | connectionFailure _ => .connectionFailure
  | message _ => .message

/-- Who raised a fault that was swallowed. -/
inductive Source
  | callback
  | handler (slot : Slot)
  deriving DecidableEq, Repr

def Source.name : Source → String
  | callback => "operation callback"
  | handler .connected => "connected handler"
  | handler .disconnected => "disconnected handler"
  | handler .connectionFailure => "connection failure handler"
  | handler .message => "message received handler"

/-- What a callback finds when it is called. -/
structure View where
  ledger : Ledger Callback
  pool : PacketId.Pool

inductive Occurrence
  /-- An operation was handed to the ledger. -/
  | tracked (id : PacketId) (callback : Option Callback)
  /-- A waiting operation lost its place to another with the same identifier. -/
  | displaced (id : PacketId) (callback : Option Callback)
  | waiting (id : PacketId)
  /-- An operation was acknowledged before it was tracked. -/
  | foundAcknowledged (id : PacketId)
  | settled (id : PacketId)
  /-- An acknowledgement came before its operation. -/
  | deferred (id : PacketId)
  | abandoned (count : Nat)
  | invoked (id : PacketId) (callback : Callback) (resolution : Resolution) (view : View)
  | recovered (source : Source) (text : String)
  | fatalDropped (id : PacketId) (f : Fatal)
  | handlerSet (slot : Slot) (handler : Callback)
  | handlersCleared
  | handled (signal : Signal) (label : String)
  /-- The client chose an identifier for a request and turned it down if the code is not zero. -/
  | issued (method : Method) (id : PacketId) (code : Int)
  /-- The client heard that the request with this identifier is done. -/
  | acknowledged (id : PacketId)
  /-- An issue hook was called; `standing` tells whether its identifier was pending and early, if
  there was a link to ask. -/
  | hooked (method : Method) (id : PacketId) (standing : Option (Bool × Bool))
  | acted (step : String) (answer : Answer)
  /-- An operation of the link begins. -/
  | entered (span : Span)
  | left (operation : Operation)
  | connecting (host : String) (port : Port) (webSockets : Bool)
  | connectFailed (f : ClientFault)
  /-- The client did not answer a connect within this time. -/
  | connectTimedOut (limit : Duration)
  /-- A connect went well to its end. -/
  | connectDone
  | loopStopped
  | cleanupDisconnectFailed (f : ClientFault)
  | cleanupStopFailed (f : ClientFault)
  | disconnecting
  | shuttingDown (clientId : String)
  | codeIgnored (code : Int)
  | rejected (operation : Operation) (code : Int)
  | connected
  | refused (code : Int)
  | closedUnheard (code : Int)
  | closed
  | lost (code : Int)
  | subscribed (id : PacketId) (granted : Qos)
  | unsubscribed (id : PacketId)
  | published (id : PacketId)
  | received (topic : String) (size : Nat)
  /-- From here to the matching `sweepEnded` the order of the entries carries no meaning. -/
  | sweepBegun
  | sweepEnded

end MqttLink
