import MqttLink.Duration.Printer
import MqttLink.Json.Value
import MqttLink.Settings

/-!
The JSON text of settings: an object with every field, in order.
-/

namespace MqttLink.Settings

open Json

/-- The value of a field; durations are written out. -/
def fieldValue (s : Settings) : Field → Value
  | .clientId => .string s.clientId
  | .hostname => .string s.hostname
  | .username => .string s.username
  | .webSockets => .bool s.webSockets
  | .webSocketPath => .string s.webSocketPath
  | .port => .ofOption (fun p => .ofNat p.val) s.port
  | .keepAlive => .string s.keepAlive.written
  | .connectTimeout => .string s.connectTimeout.written

def toValue (s : Settings) : Value :=
  .object (Field.all.map fun f => (f.name, s.fieldValue f))

def written (s : Settings) : String :=
  s.toValue.text

end MqttLink.Settings
