/-!
What can go wrong, by cause, and the wording of each cause.
-/

namespace MqttLink

/-- The requests that a broker client can turn down. -/
inductive Operation
  | connect
  | disconnect
  | subscribe
  | unsubscribe
  | publish
  deriving DecidableEq, Repr

def Operation.name : Operation → String
  | connect => "connect"
  | disconnect => "disconnect"
  | subscribe => "subscribe"
  | unsubscribe => "unsubscribe"
  | publish => "publish"

/-- A failure of the broker client itself, as opposed to a code that it returns. -/
structure ClientFault where
  message : String
  deriving DecidableEq, Repr

/-- Raised by a callback after which carrying on would be wrong; it is never swallowed. -/
structure Fatal where
  reason : String
  deriving DecidableEq, Repr

def Fatal.message (f : Fatal) : String :=
  "fatal callback error: " ++ f.reason

/-- How a callback or handler can fail. -/
inductive CallbackFault
  | recoverable (text : String)
  | fatal (f : Fatal)
  deriving DecidableEq, Repr

namespace CallbackFault

def message : CallbackFault → String
  | recoverable text => "recoverable callback error: " ++ text
  | fatal f => f.message

/-- The text of the error underneath, where there is one. -/
def source? : CallbackFault → Option String
  | recoverable text => some text
  | fatal _ => none

def reason? : CallbackFault → Option String
  | recoverable _ => none
  | fatal f => some f.reason

end CallbackFault

/-- What a callback or handler comes back with. -/
abbrev Outcome := Except CallbackFault Unit

/-- What a request or an event can fail with. -/
inductive Fault
  | invalidTopic (topic : String)
  | invalidQos (level : Nat)
  | payloadTooLarge (size max : Nat)
  | client (f : ClientFault)
  | rejected (operation : Operation) (code : Int)
  | timedOut (operation : Operation)
  | connectionRefused (code : Int)
  | connectionLost (code : Int)
  | fatal (f : Fatal)
  deriving DecidableEq, Repr

namespace Fault

def isFatal : Fault → Bool
  | fatal _ => true
  | _ => false

def message : Fault → String
  | invalidTopic topic => "Invalid topic: " ++ topic
  | invalidQos level => s!"Invalid QoS: {level}"
  | payloadTooLarge size max => s!"Payload too large: size {size} exceeds maximum {max}"
  | client f => "Protocol client error: " ++ f.message
  | rejected operation code => operation.name ++ s!" rejected by protocol client: rc={code}"
  | timedOut operation => operation.name ++ " timed out"
  | connectionRefused code => s!"Connection refused: code={code}"
  | connectionLost code => s!"Connection lost: rc={code}"
  | fatal f => f.message

/-- The callback fault that a callback ends with when a step of its own fails. -/
def asCallbackFault : Fault → CallbackFault
  | fatal f => .fatal f
  | f => .recoverable f.message

end Fault

end MqttLink
