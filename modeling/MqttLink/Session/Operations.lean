import MqttLink.Session.Callbacks

/-!
The ledger at work: operations are tracked, acknowledged and abandoned, and their callbacks called
when the tables have already been changed. So a callback may use the ledger itself.
-/

namespace MqttLink.Session

open Play

variable (run : Runner)

/-- Enters an operation. Its callback is called at once if its acknowledgement is already there. -/
def track (id : PacketId) (callback : Option Callback) : Play (Except Fatal Unit) := do
  note (.tracked id callback)
  match ← onLedger (·.track id callback) with
  | .acknowledged =>
    note (.foundAcknowledged id)
    invoke? run id .completed callback
  | .waiting (some displaced) =>
    note (.displaced id displaced)
    note (.waiting id)
    return .ok ()
  | .waiting none =>
    note (.waiting id)
    return .ok ()

/-- Takes an acknowledgement. -/
def settle (id : PacketId) : Play (Except Fatal Unit) := do
  match ← onLedger (·.settle id) with
  | some callback =>
    note (.settled id)
    invoke? run id .completed callback
  | none =>
    note (.deferred id)
    return .ok ()

/-- Calls the callbacks of an abandoned batch. The first fatal fault is kept in `first`, the
others are only written down. -/
def cancelEach (first : Except Fatal Unit) : List (Ledger.Entry Callback) →
    Play (Except Fatal Unit)
  | [] => pure first
  | (_, none) :: rest => cancelEach first rest
  | (id, some callback) :: rest => do
    match first, ← invoke run id .cancelled callback with
    | .error _, .error f =>
      note (.fatalDropped id f)
      cancelEach first rest
    | .ok _, r => cancelEach r rest
    | .error _, .ok _ => cancelEach first rest

/-- The next order in which a batch is gone through. -/
def nextOrder : Play (List (Ledger.Entry Callback) → List (Ledger.Entry Callback)) :=
  modifyGet fun s => (s.order.arrange s.sweeps, { s with sweeps := s.sweeps + 1 })

/-- Cancels every waiting operation and forgets every acknowledgement. -/
def abandon : Play (Except Fatal Unit) := do
  let batch ← onLedger (·.abandon)
  note (.abandoned batch.length)
  let arrange ← nextOrder
  cancelEach run (.ok ()) (arrange batch)

/-- Tracks operations with a callback of the same kind each, up to the first fault. -/
def trackAll (callback : Option Callback) : List PacketId → Play (Except Fatal Unit)
  | [] => pure (.ok ())
  | id :: rest => do
    match ← track run id callback with
    | .ok _ => trackAll callback rest
    | .error f => return .error f

def settleAll : List PacketId → Play (Except Fatal Unit)
  | [] => pure (.ok ())
  | id :: rest => do
    match ← settle run id with
    | .ok _ => settleAll rest
    | .error f => return .error f

end MqttLink.Session
