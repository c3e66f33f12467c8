import MqttLink.Ledger
import MqttLink.PacketId.Drill
import MqttLink.Report.Answers
import MqttLink.Settings.Printer
import MqttLink.Settings.Reader
import MqttLink.Topic

/-!
Reports on single values: topics, quality levels, faults, settings, and drills of an identifier
pool.
-/

namespace MqttLink.Report

open Json (Value)

def topicValue (s : String) : Value :=
  .object [("name", .bool (Topic.isName s)), ("filter", .bool (Topic.isFilter s)),
    ("validate_name", resultValue (Topic.checkName s)),
    ("validate_filter", resultValue (Topic.checkFilter s))]

def qosValue (level : Nat) : Value :=
  match Qos.ofLevel? level with
  | some q => .object [("name", .string q.name), ("value", .ofNat q.level)]
  | none => faultValue (.invalidQos level)

def resolutionValue (r : Resolution) : Value :=
  .object [("name", .string r.name), ("is_cancelled", .bool r.isCancelled)]

def faultMembers (f : Fault) : List (String × Value) :=
  [("error", faultValue f), ("is_fatal", .bool f.isFatal)]

def faultCheckValue (f : Fault) : Value :=
  .object (faultMembers f)

/-- A failure of the client as a fault, with its own message beside it. -/
def clientFaultValue (c : ClientFault) : Value :=
  .object (faultMembers (.client c) ++ [("client_message", textValue c.message)])

def callbackFaultValue (f : CallbackFault) : Value :=
  .object [("text", textValue f.message), ("source", .ofOption textValue f.source?),
    ("reason", .ofOption textValue f.reason?)]

/-! ## Settings -/

/-- Whether the written form of settings reads back as the same settings. -/
def readsBack (s : Settings) : Bool :=
  match Settings.ofText s.written with
  | .ok t => t = s
  | .error _ => false

def settingsValue (s : Settings) : Value :=
  .object [("serialized", s.toValue), ("keep_alive", durationValue s.keepAlive),
    ("connect_timeout", durationValue s.connectTimeout), ("port", .ofNat s.effectivePort.val),
    ("kind", channelValue s.channel), ("params", requestValue s.connectRequest),
    ("roundtrip", .bool (readsBack s))]

def readFaultKind : Settings.ReadFault → String
  | .text .malformed => "ConfigSyntax"
  | .text .truncated => "ConfigEof"
  | _ => "ConfigData"

def settingsTextValue (text : String) : Value :=
  match Settings.ofText text with
  | .ok s => settingsValue s
  | .error f => faultObject (readFaultKind f) f.message

/-! ## Drills -/

def tallyValue (t : PacketId.Drill.Tally) : Value :=
  .object [("first", .ofOption idValue t.first), ("last", .ofOption idValue t.last),
    ("some", .ofNat t.lent), ("sum", .ofNat t.sum)]

def drillAnswerValue : PacketId.Drill.Answer → Value
  | .lent id => .ofOption idValue id
  | .tally t => tallyValue t
  | .yes b => .bool b
  | .reclaimed n => .ofNat n

def drillsValue (drills : List PacketId.Drill) : Value :=
  .array ((PacketId.Drill.runAll .fresh drills).map fun (answer, count) =>
    .object [("result", drillAnswerValue answer), ("count", .ofNat count)])

end MqttLink.Report
