import MqttLink.Session

/-!
Calling callbacks and handlers. Whoever calls one is given the way to run a step, `run`, so that
what a callback does is a session step like any other. A recoverable fault is swallowed by the
caller, a fatal one comes out.
-/

namespace MqttLink.Session

open Play

/-- A way to run one step. -/
abbrev Runner := Step → Play Answer

variable (run : Runner)

/-- Runs steps in order and returns the fault that ended them, if they stop on faults. -/
def runSteps (stopsOnFault : Bool) : List Step → Play (Option Fault)
  | [] => pure none
  | step :: rest => do
    let answer ← run step
    note (.acted step.name answer)
    match answer.fault? with
    | some f => if stopsOnFault then pure (some f) else runSteps stopsOnFault rest
    | none => runSteps stopsOnFault rest

/-- Does what a callback or handler does. -/
def react (r : Callback) : Play Outcome := do
  match ← runSteps run r.stopsOnFault r.steps with
  | some f => return .error f.asCallbackFault
  | none => return r.outcome

/-- Swallows a recoverable fault. -/
def contain (source : Source) : Outcome → Play (Except Fatal Unit)
  | .ok () => pure (.ok ())
  | .error (.recoverable text) => do
    note (.recovered source text)
    return .ok ()
  | .error (.fatal f) => pure (.error f)

/-- Calls the callback of an operation. -/
def invoke (id : PacketId) (resolution : Resolution) (callback : Callback) :
    Play (Except Fatal Unit) := do
  note (.invoked id callback resolution (← get).view)
  contain .callback (← react run callback)

/-- Calls the callback of an operation, if it has one. -/
def invoke? (id : PacketId) (resolution : Resolution) : Option Callback → Play (Except Fatal Unit)
  | some callback => invoke run id resolution callback
  | none => pure (.ok ())

/-- Calls the handler for a signal, if there is one. -/
def signal (s : Signal) : Play (Except Fault Unit) := do
  match (← get).handlers s.slot with
  | none => return .ok ()
  | some handler =>
    note (.handled s handler.label)
    let r ← contain (.handler s.slot) (← react run handler)
    return r.mapError .fatal

end MqttLink.Session
