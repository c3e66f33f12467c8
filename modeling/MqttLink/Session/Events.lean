import MqttLink.Session.Operations

/-!
Events of the broker client. They reach the link only if it still listens to the client and is
still alive.
-/

namespace MqttLink.Session

open Play

variable (run : Runner)

/-- Ends the connection from the client's side: both calls have to succeed. -/
def hangUp : Play (Except Fault Unit) := do
  match ← onClient Client.disconnect with
  | .error f => return .error (.client f)
  | .ok _ =>
    let stopped ← stopLoop
    return stopped.mapError .client

/-- Hands an acknowledgement to the ledger of a link that is alive. -/
def acknowledge (id : PacketId) : Play (Except Fault Unit) := do
  if (← get).alive then
    let r ← holding (settle run id)
    return r.mapError .fatal
  else return .ok ()

/-- The answer to a connect. -/
def routeConnectAnswer (code : Int) : Play (Except Fault Unit) := do
  if (← get).alive then
    holding do
      if code = 0 then
        note .connected
        signal run .connected
      else
        note (.refused code)
        signal run (.connectionFailure (.connectionRefused code))
  else return .ok ()

/-- The end of a connection. When nobody is left to connect again, the network loop is stopped. -/
def routeClose (code : Int) : Play (Except Fault Unit) := do
  if (← get).alive then
    holding do
      if code = 0 then
        note .closed
        signal run (.disconnected none)
      else
        note (.lost code)
        match ← hangUp with
        | .error f => return .error f
        | .ok _ => signal run (.disconnected (some (.connectionLost code)))
  else
    note (.closedUnheard code)
    let stopped ← stopLoop
    return stopped.mapError .client

def routeMessage (m : Message) : Play (Except Fault Unit) := do
  note (.received m.topic m.payload.size)
  if (← get).alive then holding (signal run (.message m)) else return .ok ()

/-- Passes an event on to the link. -/
def route : BrokerEvent → Play (Except Fault Unit)
  | .connectAnswered code => routeConnectAnswer run code
  | .closed code => routeClose run code
  | .subscribed id granted => do
    note (.subscribed id granted)
    acknowledge run id
  | .unsubscribed id => do
    note (.unsubscribed id)
    acknowledge run id
  | .published id => do
    note (.published id)
    acknowledge run id
  | .message m => routeMessage run m

/-- An event of the client. An acknowledged identifier is free again before anyone hears of it. -/
def deliver (event : BrokerEvent) : Play (Except Fault Unit) := do
  match event.acknowledged? with
  | some id =>
    note (.acknowledged id)
    changeClient (·.reclaim id)
  | none => pure ()
  if (← get).client.sink then route run event else return .ok ()

end MqttLink.Session
