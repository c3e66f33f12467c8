import MqttLink.Client
import MqttLink.Journal

/-!
The state of a session: a broker client, the link that stands on it, and the journal. The link is
there for new steps as long as its owner holds it, and for events also while a running call does.
-/

namespace MqttLink

/-- `owned` tells that the link's owner still holds it, `holders` how many running calls do. -/
structure Session where
  client : Client := {}
  settings : Settings := default
  ledger : Ledger Callback := {}
  handlers : Slot → Option Callback := fun _ => none
  owned : Bool := false
  holders : Nat := 0
  order : VisitOrder Callback := .ascending Callback
  sweeps : Nat := 0
  journal : List Occurrence := []

namespace Session

/-- A client without a link. -/
def detached (settings : Settings) : Session :=
  { settings := settings }

/-- A new link on a new client: it listens to the events of the client. -/
def attached (settings : Settings) : Session :=
  { settings := settings, client := ({} : Client).setSink true, owned := true }

def alive (s : Session) : Bool :=
  s.owned || 0 < s.holders

def setHandler (s : Session) (slot : Slot) (handler : Callback) : Session :=
  { s with handlers := fun k => if k = slot then some handler else s.handlers k }

def clearHandlers (s : Session) : Session :=
  { s with handlers := fun _ => none }

def view (s : Session) : View :=
  ⟨s.ledger, s.client.pool⟩

end Session

/-- What a session does: it changes the state and returns a value, unless its steps are nested too
deeply to be followed. -/
abbrev Play := StateT Session Option

namespace Play

/-- Writes an entry into the journal. -/
def note (o : Occurrence) : Play Unit :=
  modify fun s => { s with journal := o :: s.journal }

/-- Lets the client make a call that ends at once. -/
def onClient (f : Client → α × Client) : Play α :=
  modifyGet fun s => ((f s.client).1, { s with client := (f s.client).2 })

def changeClient (f : Client → Client) : Play Unit :=
  modify fun s => { s with client := f s.client }

def onLedger (f : Ledger Callback → α × Ledger Callback) : Play α :=
  modifyGet fun s => ((f s.ledger).1, { s with ledger := (f s.ledger).2 })

/-- Stops the network loop of the client. -/
def stopLoop : Play (Except ClientFault Unit) := do
  match ← onClient Client.stopLoop with
  | .ok _ =>
    note .loopStopped
    return .ok ()
  | .error f => return .error f

/-- Keeps the link alive while `x` runs. -/
def holding (x : Play α) : Play α := do
  modify fun s => { s with holders := s.holders + 1 }
  let a ← x
  modify fun s => { s with holders := s.holders - 1 }
  return a

/-- Marks what `x` writes into the journal as a sweep. -/
def sweeping (x : Play α) : Play α := do
  note .sweepBegun
  let a ← x
  note .sweepEnded
  return a

/-- Runs `x` in the span of an operation of the link. -/
def spanning (operation : Operation) (arguments : List Argument) (x : Play α) : Play α := do
  note (.entered (.ofCall operation arguments (← get).settings))
  let a ← x
  note (.left operation)
  return a

end Play

end MqttLink
