import MqttLink.Call
import MqttLink.Message

/-!
Scripts: the steps of a session, and the callbacks and handlers that run further steps when they
are called.
-/

namespace MqttLink

/-- The events that a link can have a handler for. -/
inductive Slot
  | connected
  | disconnected
  | connectionFailure
  | message
  deriving DecidableEq, Repr

def Slot.name : Slot → String
  | connected => "connected"
  | disconnected => "disconnected"
  | connectionFailure => "connection_failure"
  | message => "message"

/-- What a callback or handler does when it is called: it runs its steps, then comes back with its
outcome. With `stopsOnFault` the first step that fails ends it, with that fault in place of the
outcome; without it the results of the steps make no difference. -/
structure Reaction (σ : Type) where
  label : String
  steps : List σ := []
  outcome : Outcome := .ok ()
  stopsOnFault : Bool := true

/-- A script for each identifier that a request may be given; what `stopsOnFault` means is as in a
reaction. -/
structure IssueHook (σ : Type) where
  script : PacketId → List σ
  stopsOnFault : Bool := true

/-- One step of a session. Quality levels are as given and may be out of range. -/
inductive Step
  | track (id : PacketId) (callback : Option (Reaction Step))
  | settle (id : PacketId)
  | abandon
  | trackAll (ids : List PacketId) (callback : Option (Reaction Step))
  | settleAll (ids : List PacketId)
  | inspect (id : PacketId)
  | describe
  | connect (password : Option String)
  | disconnect (clear : Bool)
  | shutDown
  | subscribe (filter : String) (level : Nat) (callback : Option (Reaction Step))
  | unsubscribe (filter : String) (callback : Option (Reaction Step))
  | publish (topic : String) (payload : Payload) (level : Nat) (callback : Option (Reaction Step))
  | setHandler (slot : Slot) (handler : Reaction Step)
  | clearHandlers
  | dropLink
  | showRequest
  | scriptReply (method : Method) (reply : Reply)
  | scriptIds (ids : List PacketId)
  | completeEarly (enabled : Bool)
  | delayConnect (milliseconds : Nat)
  | forgetCalls
  | countCalls (method : Method)
  | takeEarlyResults
  | setIssueHook (hook : IssueHook Step)
  | answerConnect (code : Int)
  | close (code : Int)
  | acknowledgeSubscribe (id : PacketId) (level : Nat)
  | acknowledgeUnsubscribe (id : PacketId)
  | acknowledgePublish (id : PacketId)
  | receive (topic : String) (payload : Payload) (level : Nat) (retain : Bool)
      (id : Option PacketId)
  | clientSetCredentials (username : String) (password : Option String)
  | clientDetach
  | clientConnect (settings : Settings)
  | clientDisconnect
  | clientSubscribe (filter : String) (level : Nat)
  | clientUnsubscribe (filter : String)
  | clientPublish (topic : String) (payload : Payload) (level : Nat) (times : Nat)
  | clientStartLoop
  | clientStopLoop
  deriving Inhabited

abbrev Callback := Reaction Step

/-- The name under which a report lists a step. -/
def Step.name : Step → String
  | track _ _ => "establish"
  | settle _ => "complete"
  | abandon => "cancel"
  | trackAll _ _ => "establish_range"
  | settleAll _ => "complete_range"
  | inspect _ => "query"
  | describe => "debug"
  | connect _ => "connect"
  | disconnect _ => "disconnect"
  | shutDown => "shutdown"
  | subscribe _ _ _ => "subscribe"
  | unsubscribe _ _ => "unsubscribe"
  | publish _ _ _ _ => "publish"
  | setHandler _ _ => "set_handler"
  | clearHandlers => "clear_handlers"
  | dropLink => "drop_transport"
  | showRequest => "params"
  | scriptReply _ _ => "push_response"
  | scriptIds _ => "push_mids"
  | completeEarly _ => "complete_early"
  | delayConnect _ => "connect_delay"
  | forgetCalls => "clear_calls"
  | countCalls _ => "call_count"
  | takeEarlyResults => "early_results"
  | setIssueHook _ => "issue_hook"
  | answerConnect _ => "fire_connect"
  | close _ => "fire_disconnect"
  | acknowledgeSubscribe _ _ => "fire_subscribe"
  | acknowledgeUnsubscribe _ => "fire_unsubscribe"
  | acknowledgePublish _ => "fire_publish"
  | receive _ _ _ _ _ => "fire_message"
  | clientSetCredentials _ _ => "client_set_credentials"
  | clientDetach => "client_detach"
  | clientConnect _ => "client_connect"
  | clientDisconnect => "client_disconnect"
  | clientSubscribe _ _ => "client_subscribe"
  | clientUnsubscribe _ => "client_unsubscribe"
  | clientPublish _ _ _ _ => "client_publish"
  | clientStartLoop => "client_loop_start"
  | clientStopLoop => "client_loop_stop"

/-- What a step answers. `gone` is the answer of a step that needs a link when there is none. -/
inductive Answer
  | done
  | id (id : PacketId)
  | count (n : Nat)
  | text (s : String)
  | code (code : Int)
  | issued (code : Int) (id : PacketId)
  | results (rs : List (Except Fault Unit))
  | request (r : ConnectRequest)
  | nothing
  | gone
  | fault (f : Fault)

namespace Answer

def ofResult : Except Fault Unit → Answer
  | .ok _ => done
  | .error f => fault f

def fault? : Answer → Option Fault
  | fault f => some f
  | _ => none

end Answer

end MqttLink
