import MqttLink.Report.Events
import MqttLink.Report.Log
import MqttLink.Report.Sweeps
import MqttLink.Session.Perform

/-!
The report of a session: for every step its answer, what happened, and where it left the session.
-/

namespace MqttLink.Report

open Json (Value)

/-- Most entries of a list that are shown. -/
def shownEntries : Nat := 200

/-- The elements of a list, or only their number when there are many. -/
def listValue (vs : List Value) : Value :=
  if vs.length ≤ shownEntries then .array vs else .object [("count", .ofNat vs.length)]

def entryValue (parts : List String) : Value :=
  .array (parts.map .string)

/-- What a report covers besides answers and events. -/
structure Scope where
  client : Bool
  log : Bool

/-- The part of a journal that was written since it had `before` entries, the oldest first. -/
def newEntries (before : Nat) (journal : List Occurrence) : List Occurrence :=
  (journal.take (journal.length - before)).reverse

def ledgerMembers (s : Session) : List (String × Value) :=
  if s.owned then
    [("pending", .ofNat s.ledger.pending.size), ("unknown", .ofNat s.ledger.early.size)]
  else [("pending", .null), ("unknown", .null)]

def clientMembers (c : Client) : List (String × Value) :=
  [("calls", listValue (c.newCalls.map callValue)), ("loop", .bool c.looping),
    ("sink", .bool c.sink)]

/-- The report of one step, after which the session stands at `s`. -/
def stepValue (scope : Scope) (answer : Answer) (news : List Occurrence) (s : Session) : Value :=
  .object ([("result", answerValue answer),
      ("events", listValue ((entries eventEntry? news).map entryValue))] ++
    ledgerMembers s ++
    (if scope.client then clientMembers s.client else []) ++
    (if scope.log then [("log", listValue ((entries logEntry? news).map entryValue))] else []))

/-- How deep the steps of callbacks may be nested. -/
def depthLimit : Nat := 2000

/-- Runs steps in order and reports each. -/
def stepValues (scope : Scope) : List Step → Session → List Value
  | [], _ => []
  | step :: rest, s =>
    match Session.performTo depthLimit step s with
    | none => [.null]
    | some (answer, t) =>
      stepValue scope answer (newEntries s.journal.length t.journal) t ::
        stepValues scope rest { t with client := t.client.markShown }

/-- The report of a session on a ledger alone. -/
def ledgerSession (log : Bool) (steps : List Step) : Value :=
  .array (stepValues ⟨false, log⟩ steps (.attached default))

/-- The report of a session on a client, with a link unless `detached`. -/
def linkSession (log detached : Bool) (settings : Settings) (steps : List Step) : Value :=
  .array (stepValues ⟨true, log⟩ steps
    (if detached then .detached settings else .attached settings))

end MqttLink.Report
