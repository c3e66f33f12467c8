import MqttLink.Duration

/-!
Settings of a link: whom to connect to and how.
-/

namespace MqttLink

abbrev Port := Fin 65536

/-- What carries the bytes to the broker. -/
inductive Channel
  | tcp
  | webSocket (path : String)
  deriving DecidableEq, Repr

/-- What the broker client is told when it is to connect. -/
structure ConnectRequest where
  clientId : String
  host : String
  port : Port
  keepAlive : Duration
  channel : Channel
  deriving DecidableEq, Repr

/-- Where no port is set, a link uses the usual one for its channel. -/
structure Settings where
  clientId : String := ""
  hostname : String := ""
  username : String := ""
  webSockets : Bool := false
  webSocketPath : String := "/mqtt"
  port : Option Port := none
  keepAlive : Duration := .ofSeconds 60
  connectTimeout : Duration := .ofSeconds 30
  deriving DecidableEq, Repr

namespace Settings

instance : Inhabited Settings := ⟨{}⟩

def tlsPort : Port := ⟨8883, by decide⟩

def webSocketPort : Port := ⟨443, by decide⟩

def effectivePort (s : Settings) : Port :=
  s.port.getD (if s.webSockets then webSocketPort else tlsPort)

def channel (s : Settings) : Channel :=
  if s.webSockets then .webSocket s.webSocketPath else .tcp

def connectRequest (s : Settings) : ConnectRequest where
  clientId := s.clientId
  host := s.hostname
  port := s.effectivePort
  keepAlive := s.keepAlive
  channel := s.channel

/-! ## Fields -/

inductive Field
  | clientId
  | hostname
  | username
  | webSockets
  | webSocketPath
  | port
  | keepAlive
  | connectTimeout
  deriving DecidableEq, Repr

namespace Field

/-- Every field, in the order in which settings are written without names. -/
def all : List Field :=
  [clientId, hostname, username, webSockets, webSocketPath, port, keepAlive, connectTimeout]

def name : Field → String
  | clientId => "client_id"
  | hostname => "hostname"
  | username => "username"
  | webSockets => "websockets"
  | webSocketPath => "websocket_path"
  | port => "port"
  | keepAlive => "keep_alive"
  | connectTimeout => "connect_timeout"

def ofName? (s : String) : Option Field :=
  all.find? (·.name == s)

theorem ofName?_name (f : Field) : ofName? f.name = some f := by
  cases f <;> rfl

end Field

/-- A value given to one field. -/
inductive Assignment
  | clientId (s : String)
  | hostname (s : String)
  | username (s : String)
  | webSockets (b : Bool)
  | webSocketPath (s : String)
  | port (p : Option Port)
  | keepAlive (d : Duration)
  | connectTimeout (d : Duration)
  deriving DecidableEq, Repr

def Assignment.field : Assignment → Field
  | clientId _ => .clientId
  | hostname _ => .hostname
  | username _ => .username
  | webSockets _ => .webSockets
  | webSocketPath _ => .webSocketPath
  | port _ => .port
  | keepAlive _ => .keepAlive
  | connectTimeout _ => .connectTimeout

def assign (s : Settings) : Assignment → Settings
  | .clientId v => { s with clientId := v }
  | .hostname v => { s with hostname := v }
  | .username v => { s with username := v }
  | .webSockets v => { s with webSockets := v }
  | .webSocketPath v => { s with webSocketPath := v }
  | .port v => { s with port := v }
  | .keepAlive v => { s with keepAlive := v }
  | .connectTimeout v => { s with connectTimeout := v }

/-- The default settings with the given values. -/
def ofAssignments (as : List Assignment) : Settings :=
  as.foldl assign {}

end Settings

end MqttLink
