import MqttLink.PacketId.Pool
import MqttLink.Payload
import MqttLink.Qos

/-!
Messages that come in, and the events by which a broker client reports what happened.
-/

namespace MqttLink

structure Message where
  topic : String
  payload : Payload := .empty
  qos : Qos := .atMostOnce
  retain : Bool := false
  id : Option PacketId := none

/-- Events of a broker client. A code of zero means success or a requested end. -/
inductive BrokerEvent
  | connectAnswered (code : Int)
  | closed (code : Int)
  | subscribed (id : PacketId) (granted : Qos)
  | unsubscribed (id : PacketId)
  | published (id : PacketId)
  | message (m : Message)

/-- The identifier that an event acknowledges. -/
def BrokerEvent.acknowledged? : BrokerEvent → Option PacketId
  | subscribed id _ | unsubscribed id | published id => some id
  | _ => none

end MqttLink
