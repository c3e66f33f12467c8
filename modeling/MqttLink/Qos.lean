/-!
Delivery guarantees of MQTT. The levels are the numbers 0, 1 and 2.
-/

namespace MqttLink

/-- The delivery guarantee of a message. -/
inductive Qos
  | atMostOnce
  | atLeastOnce
  | exactlyOnce
  deriving DecidableEq, Repr, Inhabited

namespace Qos

/-- The number that stands for a level on the wire. -/
def level : Qos → Nat
  | atMostOnce => 0
  | atLeastOnce => 1
  | exactlyOnce => 2

def ofLevel? : Nat → Option Qos
  | 0 => some atMostOnce
  | 1 => some atLeastOnce
  | 2 => some exactlyOnce
  | _ => none

def name : Qos → String
  | atMostOnce => "AtMostOnce"
  | atLeastOnce => "AtLeastOnce"
  | exactlyOnce => "ExactlyOnce"

end Qos

end MqttLink
