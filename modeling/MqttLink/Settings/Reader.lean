import MqttLink.Decimal.Style
import MqttLink.Duration.Reader
import MqttLink.Json.Number
import MqttLink.Json.Skip
import MqttLink.Settings
import MqttLink.Text.Quoted

/-!
Reads settings from JSON text, from left to right; the first fault met is the answer. The text is
an object, whose members may come in any order and of which unknown ones are skipped, or an array
of the fields in order. Fields that are not given keep their defaults.
-/

namespace MqttLink.Settings

open Json

/-! ## Faults -/

/-- A value that was found where another was wanted. -/
inductive Found
  | null
  | bool (b : Bool)
  | integer (n : Int)
  | fractional (x : Float)
  | string (s : String)
  | array
  | object

inductive Wanted
  | settings
  | string
  | bool
  | port
  | duration
  deriving DecidableEq, Repr

inductive ReadFault
  | text (f : TextFault)
  | duplicate (f : Field)
  | wrongType (found : Found) (wanted : Wanted)
  | portOutOfRange (n : Int)
  | noDuration (text : String)

def Found.describe : Found → String
  | null => "null"
  | bool b => s!"boolean \x60{b}\x60"
  | integer n => s!"integer \x60{n}\x60"
  | fractional x => "floating point \x60" ++ Decimal.written .plain x ++ "\x60"
  | string s => "string " ++ Text.quoted s
  | array => "sequence"
  | object => "map"

def Wanted.describe : Wanted → String
  | settings => "struct TransportConfig"
  | string => "a string"
  | bool => "a boolean"
  | port => "u16"
  | duration => "a duration"

/-- A text that is no JSON has no message; its kind says all. -/
def ReadFault.message : ReadFault → String
  | text _ => ""
  | duplicate f => "duplicate field \x60" ++ f.name ++ "\x60"
  | wrongType found wanted =>
    "invalid type: " ++ found.describe ++ ", expected " ++ wanted.describe
  | portOutOfRange n =>
    "invalid value: " ++ (Found.integer n).describe ++ ", expected " ++ Wanted.port.describe
  | noDuration s =>
    "invalid value: " ++ (Found.string s).describe ++ ", expected " ++ Wanted.duration.describe

def liftText (r : Except TextFault α) : Except ReadFault α :=
  r.mapError .text

/-! ## Values -/

def foundNumber : Number → Found
  | .natural n => .integer n
  | .negative n => .integer n
  | .fractional x => .fractional x

/-- The value that starts here, read far enough to name it. -/
def findValue : List Char → Except TextFault Found
  | [] => .error .truncated
  | c :: rest =>
    if c = 'n' then (readWord ['u', 'l', 'l'] rest).map fun _ => .null
    else if c = 't' then (readWord ['r', 'u', 'e'] rest).map fun _ => .bool true
    else if c = 'f' then (readWord ['a', 'l', 's', 'e'] rest).map fun _ => .bool false
    else if c = '-' then (readNumber true rest).map fun r => foundNumber r.1
    else if isDigit c then (readNumber false (c :: rest)).map fun r => foundNumber r.1
    else if c = '"' then (readString .plain [] rest).map fun r => .string (String.ofList r.1)
    else if c = '[' then .ok .array
    else if c = '\x7b' then .ok .object
    else .error .malformed

/-- The fault of a value of the wrong type, or of the text if even that value cannot be read. -/
def mismatch (wanted : Wanted) (cs : List Char) : ReadFault :=
  match findValue cs with
  | .ok found => .wrongType found wanted
  | .error e => .text e

def readText (wanted : Wanted) (cs : List Char) : Except ReadFault (String × List Char) :=
  match skipBlanks cs with
  | '"' :: rest => do
    let (s, rest) ← liftText (readString .plain [] rest)
    .ok (String.ofList s, rest)
  | cs => .error (mismatch wanted cs)

def readBool (cs : List Char) : Except ReadFault (Bool × List Char) :=
  match skipBlanks cs with
  | 't' :: rest => do
    let rest ← liftText (readWord ['r', 'u', 'e'] rest)
    .ok (true, rest)
  | 'f' :: rest => do
    let rest ← liftText (readWord ['a', 'l', 's', 'e'] rest)
    .ok (false, rest)
  | cs => .error (mismatch .bool cs)

def portOfNumber : Number → Except ReadFault (Option Port)
  | .natural n => if h : n < 65536 then .ok (some ⟨n, h⟩) else .error (.portOutOfRange n)
  | .negative n => .error (.portOutOfRange n)
  | .fractional x => .error (.wrongType (.fractional x) .port)

def readPort (cs : List Char) : Except ReadFault (Option Port × List Char) :=
  match skipBlanks cs with
  | [] => .error (.text .truncated)
  | c :: rest =>
    if c = 'n' then do
      let rest ← liftText (readWord ['u', 'l', 'l'] rest)
      .ok (none, rest)
    else if c = '-' || isDigit c then do
      let (n, rest) ← liftText (readNumber (c = '-') (if c = '-' then rest else c :: rest))
      let port ← portOfNumber n
      .ok (port, rest)
    else .error (mismatch .port (c :: rest))

def readDuration (cs : List Char) : Except ReadFault (Duration × List Char) := do
  let (s, rest) ← readText .duration cs
  match Duration.ofText? s with
  | some d => .ok (d, rest)
  | none => .error (.noDuration s)

/-- Reads the value of a field. -/
def readField (f : Field) (cs : List Char) : Except ReadFault (Assignment × List Char) :=
  match f with
  | .clientId => (readText .string cs).map fun (v, rest) => (.clientId v, rest)
  | .hostname => (readText .string cs).map fun (v, rest) => (.hostname v, rest)
  | .username => (readText .string cs).map fun (v, rest) => (.username v, rest)
  | .webSockets => (readBool cs).map fun (v, rest) => (.webSockets v, rest)
  | .webSocketPath => (readText .string cs).map fun (v, rest) => (.webSocketPath v, rest)
  | .port => (readPort cs).map fun (v, rest) => (.port v, rest)
  | .keepAlive => (readDuration cs).map fun (v, rest) => (.keepAlive v, rest)
  | .connectTimeout => (readDuration cs).map fun (v, rest) => (.connectTimeout v, rest)

/-! ## Objects and arrays -/

def readColon (cs : List Char) : Except ReadFault (List Char) :=
  match skipBlanks cs with
  | ':' :: rest => .ok rest
  | [] => .error (.text .truncated)
  | _ => .error (.text .malformed)

/-- Reads a member after the opening quote of its key. -/
def readMember (acc : List Assignment) (cs : List Char) :
    Except ReadFault (List Assignment × List Char) := do
  let (key, rest) ← liftText (readString .plain [] cs)
  match Field.ofName? (String.ofList key) with
  | some f =>
    if acc.any (·.field = f) then .error (.duplicate f)
    else
      let rest ← readColon rest
      let (a, rest) ← readField f rest
      .ok (acc ++ [a], rest)
  | none =>
    let rest ← readColon rest
    let rest ← liftText (skipValue rest)
    .ok (acc, rest)

/-- Reads the members of an object up to its closing brace. Every member takes up some characters,
so that as many rounds as there are characters suffice. -/
def readMembers : (rounds : Nat) → (first : Bool) → List Assignment → List Char →
    Except ReadFault (List Assignment × List Char)
  | 0, _, _, _ => .error (.text .malformed)
  | rounds + 1, first, acc, cs =>
    match skipBlanks cs with
    | [] => .error (.text .truncated)
    | c :: rest =>
      if c = '\x7d' then .ok (acc, rest)
      else if first then
        if c = '"' then do
          let (acc, rest) ← readMember acc rest
          readMembers rounds false acc rest
        else .error (.text .malformed)
      else if c = ',' then
        match skipBlanks rest with
        | '"' :: rest => do
          let (acc, rest) ← readMember acc rest
          readMembers rounds false acc rest
        | [] => .error (.text .truncated)
        | _ => .error (.text .malformed)
      else .error (.text .malformed)

/-- Reads the elements of an array, one for each field, up to its closing bracket. -/
def readElements : (first : Bool) → List Field → List Assignment → List Char →
    Except ReadFault (List Assignment × List Char)
  | first, fields, acc, cs =>
    match skipBlanks cs with
    | [] => .error (.text .truncated)
    | c :: rest =>
      if c = ']' then .ok (acc, rest)
      else
        match fields with
        | [] => .error (.text .malformed)
        | f :: fields =>
          if first then do
            let (a, rest) ← readField f (c :: rest)
            readElements false fields (acc ++ [a]) rest
          else if c = ',' then
            match skipBlanks rest with
            | [] => .error (.text .truncated)
            | d :: rest =>
              if d = ']' then .error (.text .malformed)
              else do
                let (a, rest) ← readField f (d :: rest)
                readElements false fields (acc ++ [a]) rest
          else .error (.text .malformed)

/-- Reads the assignments that an object or an array makes. -/
def readAssignments (cs : List Char) : Except ReadFault (List Assignment × List Char) :=
  match skipBlanks cs with
  | '\x7b' :: rest => readMembers rest.length.succ true [] rest
  | '[' :: rest => readElements true Field.all [] rest
  | cs => .error (mismatch .settings cs)

/-- The settings that a JSON text stands for. Nothing but blanks may follow the value. -/
def ofText (text : String) : Except ReadFault Settings := do
  let (as, rest) ← readAssignments text.toList
  if (skipBlanks rest).isEmpty then .ok (ofAssignments as) else .error (.text .malformed)

end MqttLink.Settings
