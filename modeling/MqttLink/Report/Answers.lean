import MqttLink.Json.Value
import MqttLink.Script
import MqttLink.Text.Hex
import MqttLink.Text.Shortened

/-!
How values of a session are reported. Long texts are cut down.
-/

namespace MqttLink.Report

open Json (Value)

def textValue (s : String) : Value :=
  .string (Text.shortened s)

def faultKind : Fault → String
  | .invalidTopic _ => "InvalidTopic"
  | .invalidQos _ => "InvalidQoS"
  | .payloadTooLarge _ _ => "PayloadTooLarge"
  | .client _ => "Client"
  | .rejected _ _ => "Rejected"
  | .timedOut _ => "Timeout"
  | .connectionRefused _ => "ConnectionRefused"
  | .connectionLost _ => "ConnectionLost"
  | .fatal _ => "Fatal"

def faultObject (kind message : String) : Value :=
  .object [("error", .string kind), ("message", textValue message)]

def faultValue (f : Fault) : Value :=
  faultObject (faultKind f) f.message

def resultValue : Except Fault Unit → Value
  | .ok () => .string "ok"
  | .error f => faultValue f

def idValue (id : PacketId) : Value :=
  .ofNat id.val

def durationValue (d : Duration) : Value :=
  .array [.string d.seconds.repr, .ofNat d.nanos]

def channelValue : Channel → Value
  | .tcp => .string "tcp"
  | .webSocket path => .object [("websocket", textValue path)]

def requestValue (r : ConnectRequest) : Value :=
  .object [("client_id", textValue r.clientId), ("host", textValue r.host),
    ("keep_alive", durationValue r.keepAlive), ("port", .ofNat r.port.val),
    ("transport", channelValue r.channel)]

/-- Most bytes of a payload that are shown. -/
def shownPayloadBytes : Nat := 64

def payloadText (p : Payload) : String :=
  if p.size ≤ shownPayloadBytes then Text.hexBytes p.toList else s!"<{p.size} bytes>"

def answerValue : Answer → Value
  | .done => .string "ok"
  | .id id => idValue id
  | .count n => .ofNat n
  | .text s => textValue s
  | .code code => .number code
  | .issued code id => .array [.number code, idValue id]
  | .results rs => .array (rs.map resultValue)
  | .request r => requestValue r
  | .nothing => .null
  | .gone => faultObject "TransportGone" ""
  | .fault f => faultValue f

/-- The text that an action is reported with. -/
def answerText : Answer → String
  | .text s => s
  | .done => "ok"
  | .fault f => f.message
  | .gone => "transport gone"
  | answer => (answerValue answer).text

def callValue : Call → Value
  | .setSink installed => .array [.string "set_event_handler", .bool installed]
  | .setCredentials username password =>
    .array [.string "set_credentials", textValue username, .ofOption textValue password]
  | .connect request => .array [.string "connect", requestValue request]
  | .disconnect => .array [.string "disconnect"]
  | .subscribe filter qos => .array [.string "subscribe", textValue filter, .ofNat qos.level]
  | .unsubscribe filter => .array [.string "unsubscribe", textValue filter]
  | .publish topic payload qos =>
    .array [.string "publish", textValue topic, .string (payloadText payload), .ofNat qos.level]
  | .startLoop => .array [.string "loop_start"]
  | .stopLoop => .array [.string "loop_stop"]

end MqttLink.Report
