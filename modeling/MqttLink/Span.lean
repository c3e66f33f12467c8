import MqttLink.Fault
import MqttLink.Payload
import MqttLink.Qos
import MqttLink.Settings
import MqttLink.Text.Quoted

/-!
Spans: an operation of a link runs from beginning to end in a span of its own, which has the name of
the operation and tells of its arguments. Passwords, message bodies and callbacks are skipped.
-/

namespace MqttLink

/-- What an operation of a link is called with, but for the callback. -/
inductive Argument
  | password (password : Option String)
  | clear (clear : Bool)
  | topic (topic : String)
  | payload (payload : Payload)
  | qos (qos : Qos)

namespace Argument

def name : Argument → String
  | password _ => "password"
  | clear _ => "clear_inflight"
  | topic _ => "topic"
  | payload _ => "payload"
  | qos _ => "qos"

/-- How a span would tell of an argument. -/
def text : Argument → String
  | password none => "None"
  | password (some word) => "Some(" ++ Text.quoted word ++ ")"
  | clear b => toString b
  | topic s => s
  | payload p => toString p.toList
  | qos q => q.name

end Argument

namespace Operation

/-- The names of the arguments that the span of an operation does not tell of. -/
def skipped : Operation → List String
  | connect => ["self", "password"]
  | disconnect => ["self"]
  | subscribe => ["self", "callback"]
  | unsubscribe => ["self", "callback"]
  | publish => ["self", "payload", "callback"]

/-- Whether the span of an operation tells which client it is about. -/
def namesClient : Operation → Bool
  | connect | disconnect => true
  | subscribe | unsubscribe | publish => false

end Operation

/-- The span of one call of an operation. -/
structure Span where
  operation : Operation
  arguments : List Argument
  clientId : Option String

namespace Span

/-- The span of an operation with these arguments. -/
def ofCall (operation : Operation) (arguments : List Argument) (settings : Settings) : Span where
  operation := operation
  arguments := arguments.filter fun a => a.name ∉ operation.skipped
  clientId := if operation.namesClient then some settings.clientId else none

/-- The fields of a span: its arguments, then the client. -/
def fields (s : Span) : List (String × String) :=
  s.arguments.map (fun a => (a.name, a.text)) ++ s.clientId.toList.map (("client_id", ·))

end Span

end MqttLink
