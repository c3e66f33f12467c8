import MqttLink.Duration.Printer
import MqttLink.Journal
import MqttLink.Text.Shortened

/-!
The journal as a log: a level, a message and named fields for each event, and the spans in which the
events stand.
-/

namespace MqttLink.Report

inductive Level
  | warn
  | info
  | debug
  | trace
  deriving DecidableEq, Repr

def Level.name : Level → String
  | warn => "WARN"
  | info => "INFO"
  | debug => "DEBUG"
  | trace => "TRACE"

/-- The fields of a line stand in the order of their names. -/
structure LogLine where
  level : Level
  message : String
  fields : List (String × String) := []
  deriving DecidableEq, Repr

/-- The parts of a line as it is reported, without the time limit of a connect. A value is cut down
before its name is put in front of it. -/
def LogLine.parts (l : LogLine) : List String :=
  l.level.name :: l.message :: (l.fields.filter fun (k, _) => k ≠ "timeout").map fun (k, v) =>
    k ++ "=" ++ Text.shortened v

def idField (id : PacketId) : String × String :=
  ("mid", id.val.repr)

def codeField (code : Int) : String × String :=
  ("rc", code.repr)

/-- The line of an occurrence in the log, if it has one. -/
def logLine : Occurrence → Option LogLine
  | .tracked _ _ => none
  | .displaced id _ =>
    some ⟨.warn, "Operation established while already pending, replacing callback",
      [idField id]⟩
  | .waiting id => some ⟨.debug, "Operation pending", [idField id]⟩
  | .foundAcknowledged id =>
    some ⟨.trace, "Resolved operation from earlier completion", [idField id]⟩
  | .settled id => some ⟨.debug, "Operation completed", [idField id]⟩
  | .deferred id => some ⟨.trace, "Completion for unknown operation, deferring", [idField id]⟩
  | .abandoned count =>
    some ⟨.debug, "Cancelling pending operations", [("count", count.repr)]⟩
  | .invoked id _ resolution _ =>
    some ⟨.trace, "Invoking operation callback",
      [idField id, ("resolution", resolution.name)]⟩
  | .recovered source text =>
    some ⟨.warn, "Recovered from error raised in callback",
      [("error", text), ("source", source.name)]⟩
  | .fatalDropped id f =>
    some ⟨.warn, "Dropping fatal error from cancelled callback",
      [("error", f.message), idField id]⟩
  | .handlerSet _ _ => none
  | .handlersCleared => none
  | .handled _ _ => none
  | .issued _ _ _ => none
  | .acknowledged _ => none
  | .hooked _ _ _ => none
  | .acted _ _ => none
  | .entered _ => none
  | .left _ => none
  | .connecting host port webSockets =>
    some ⟨.info, "Connecting to MQTT broker",
      [("host", host), ("port", port.val.repr), ("websockets", toString webSockets)]⟩
  | .connectFailed f =>
    some ⟨.warn, "Protocol client failed to connect", [("error", f.message)]⟩
  | .connectDone => none
  | .loopStopped => none
  | .connectTimedOut limit =>
    some ⟨.warn, "Protocol client connect timed out", [("timeout", limit.brief)]⟩
  | .cleanupDisconnectFailed f =>
    some ⟨.debug, "Disconnect during connect cleanup failed", [("error", f.message)]⟩
  | .cleanupStopFailed f =>
    some ⟨.debug, "Stopping network loop during connect cleanup failed", [("error", f.message)]⟩
  | .disconnecting => some ⟨.info, "Disconnecting from MQTT broker", []⟩
  | .shuttingDown clientId => some ⟨.info, "Shutting down transport", [("client_id", clientId)]⟩
  | .codeIgnored code =>
    some ⟨.debug, "Ignoring disconnect return code during shutdown", [codeField code]⟩
  | .rejected operation code =>
    some ⟨.warn, "Protocol client rejected operation",
      [("operation", operation.name), codeField code]⟩
  | .connected => some ⟨.info, "Connected to MQTT broker", []⟩
  | .refused code => some ⟨.warn, "Connection refused by broker", [codeField code]⟩
  | .closedUnheard code =>
    some ⟨.debug, "Disconnected after transport was dropped", [codeField code]⟩
  | .closed => some ⟨.info, "Disconnected from MQTT broker", []⟩
  | .lost code => some ⟨.warn, "Connection lost unexpectedly", [codeField code]⟩
  | .subscribed id granted =>
    some ⟨.trace, "SUBACK received", [("granted_qos", granted.name), idField id]⟩
  | .unsubscribed id => some ⟨.trace, "UNSUBACK received", [idField id]⟩
  | .published id => some ⟨.trace, "Publish completed", [idField id]⟩
  | .received topic size =>
    some ⟨.debug, "Message received", [("len", size.repr), ("topic", topic)]⟩
  | .sweepBegun => none
  | .sweepEnded => none

/-- What the log shows: events, and where spans begin, with their fields, and end. Every span has
the level `debug`. -/
inductive Diagnostic
  | event (line : LogLine)
  | spanBegun (name : String) (fields : List (String × String))
  | spanEnded (name : String)
  deriving DecidableEq, Repr

/-- What an occurrence shows in the log, if anything. -/
def diagnostic? : Occurrence → Option Diagnostic
  | .entered span => some (.spanBegun span.operation.name span.fields)
  | .left operation => some (.spanEnded operation.name)
  | o => (logLine o).map .event

/-- An event of the log as it is reported. Spans are not. -/
def logEntry? (o : Occurrence) : Option (List String) :=
  (logLine o).map LogLine.parts

end MqttLink.Report
