import MqttLink.Script

/-!
A broker client that follows a script. It records every call, hands out packet identifiers, and
answers each method with the replies queued for it, or with success when there are none.
-/

namespace MqttLink

/-- `record` holds the calls since they were last forgotten, of which the oldest `shown` have been
reported, and `earlyResults` what came of the acknowledgements delivered from inside a call; both
hold the newest first. -/
structure Client where
  sink : Bool := false
  record : List Call := []
  shown : Nat := 0
  pool : PacketId.Pool := .fresh
  queuedIds : List PacketId := []
  replies : Method → List Reply := fun _ => []
  completesEarly : Bool := false
  earlyResults : List (Except Fault Unit) := []
  issueHook : Option (IssueHook Step) := none
  connectDelay : Option Nat := none
  looping : Bool := false

namespace Client

def add (c : Client) (call : Call) : Client :=
  { c with record := call :: c.record }

/-- The calls since they were last forgotten, the oldest first. -/
def calls (c : Client) : List Call :=
  c.record.reverse

/-- The calls that have not been reported yet. -/
def newCalls (c : Client) : List Call :=
  c.calls.drop c.shown

def markShown (c : Client) : Client :=
  { c with shown := c.record.length }

def forgetCalls (c : Client) : Client :=
  { c with record := [], shown := 0 }

def countCalls (c : Client) (m : Method) : Nat :=
  c.record.countP (·.method? = some m)

/-! ## Replies and identifiers -/

def queueReply (c : Client) (m : Method) (r : Reply) : Client :=
  { c with replies := fun k => if k = m then c.replies k ++ [r] else c.replies k }

/-- Takes the next reply of a method. -/
def takeReply (c : Client) (m : Method) : Reply × Client :=
  match c.replies m with
  | [] => (.ok 0, c)
  | r :: rest => (r, { c with replies := fun k => if k = m then rest else c.replies k })

/-- Takes the next identifier: a queued one, or else the lowest that is free. -/
def takeId (c : Client) : Option (PacketId × Client) :=
  match c.queuedIds with
  | id :: rest => some (id, { c with queuedIds := rest })
  | [] => c.pool.lend.map fun (id, pool) => (id, { c with pool := pool })

def reclaim (c : Client) (id : PacketId) : Client :=
  { c with pool := c.pool.reclaim id }

/-! ## Calls that end at once -/

def setSink (c : Client) (installed : Bool) : Client :=
  { c.add (.setSink installed) with sink := installed }

def setCredentials (c : Client) (username : String) (password : Option String) : Client :=
  c.add (.setCredentials username password)

/-- Whether a connect takes longer than `limit` to answer. Both are waited for on one clock, so
nothing takes longer than a limit of the longest wait. -/
def outlasts (c : Client) (limit : Duration) : Bool :=
  c.connectDelay.any fun delay => limit.ticks < min delay Duration.longestWait

/-- Starts connecting; no reply when the answer takes longer than the time given. -/
def connect (c : Client) (request : ConnectRequest) (limit : Option Duration) :
    Option Reply × Client :=
  let c := c.add (.connect request)
  if limit.any c.outlasts then (none, c)
  else
    let (r, c) := c.takeReply .connect
    (some r, c)

def disconnect (c : Client) : Reply × Client :=
  (c.add .disconnect).takeReply .disconnect

/-- Starts the network loop; any code means success. -/
def startLoop (c : Client) : Except ClientFault Unit × Client :=
  match (c.add .startLoop).takeReply .startLoop with
  | (.ok _, c) => (.ok (), { c with looping := true })
  | (.error e, c) => (.error e, c)

/-- Stops the network loop; any code means success. -/
def stopLoop (c : Client) : Except ClientFault Unit × Client :=
  match (c.add .stopLoop).takeReply .stopLoop with
  | (.ok _, c) => (.ok (), { c with looping := false })
  | (.error e, c) => (.error e, c)

end Client

end MqttLink
