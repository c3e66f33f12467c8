import MqttLink.Journal
import MqttLink.Report.Answers

/-!
The journal as a list of events: what callbacks, handlers, hooks and their steps did.
-/

namespace MqttLink.Report

def resolutionWord : Resolution → String
  | .completed => "completed"
  | .cancelled => "cancelled"

def signalParts : Signal → List String
  | .connected => []
  | .disconnected none => ["none"]
  | .disconnected (some f) => ["cause", f.message]
  | .connectionFailure f => [f.message]
  | .message m =>
    [m.topic, payloadText m.payload, m.qos.level.repr, toString m.retain,
      m.id.elim "none" (·.val.repr)]

def standingText : Option (Bool × Bool) → String
  | some (pending, early) => s!"pending={pending} unknown={early}"
  | none => "transport gone"

/-- The parts of an event; `none` for an occurrence that is none. -/
def eventParts : Occurrence → Option (List String)
  | .invoked _ callback resolution _ =>
    some ["callback", callback.label, resolutionWord resolution]
  | .handled signal label => some (["handler", signal.slot.name, label] ++ signalParts signal)
  | .hooked method id standing =>
    some ["hook", method.name, id.val.repr, standingText standing]
  | .acted step answer => some ["action", step, answerText answer]
  | _ => none

/-- An event as it is reported: each of its parts is cut down on its own. -/
def eventEntry? (o : Occurrence) : Option (List String) :=
  (eventParts o).map (·.map Text.shortened)

end MqttLink.Report
