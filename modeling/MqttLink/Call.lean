import MqttLink.Fault
import MqttLink.Payload
import MqttLink.Qos
import MqttLink.Settings

/-!
Calls on a broker client, as it records them.
-/

namespace MqttLink

/-- The methods of a broker client whose replies can be scripted. -/
inductive Method
  | connect
  | disconnect
  | subscribe
  | unsubscribe
  | publish
  | startLoop
  | stopLoop
  deriving DecidableEq, Repr

def Method.name : Method → String
  | connect => "connect"
  | disconnect => "disconnect"
  | subscribe => "subscribe"
  | unsubscribe => "unsubscribe"
  | publish => "publish"
  | startLoop => "loop_start"
  | stopLoop => "loop_stop"

/-- A return code, or a failure of the client itself. -/
abbrev Reply := Except ClientFault Int

inductive Call
  | setSink (installed : Bool)
  | setCredentials (username : String) (password : Option String)
  | connect (request : ConnectRequest)
  | disconnect
  | subscribe (filter : String) (qos : Qos)
  | unsubscribe (filter : String)
  | publish (topic : String) (payload : Payload) (qos : Qos)
  | startLoop
  | stopLoop

def Call.method? : Call → Option Method
  | setSink _ => none
  | setCredentials _ _ => none
  | connect _ => some .connect
  | disconnect => some .disconnect
  | subscribe _ _ => some .subscribe
  | unsubscribe _ => some .unsubscribe
  | publish _ _ _ => some .publish
  | startLoop => some .startLoop
  | stopLoop => some .stopLoop

end MqttLink
