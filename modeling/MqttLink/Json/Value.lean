import MqttLink.Json.Literal

/-!
JSON values that are written, and their compact text.
-/

namespace MqttLink.Json

/-- Members are written in the order of the list. -/
inductive Value
  | null
  | bool (b : Bool)
  | number (n : Int)
  | string (s : String)
  | array (elements : List Value)
  | object (members : List (String × Value))
  deriving Inhabited

namespace Value

mutual

def chars : Value → List Char
  | null => ['n', 'u', 'l', 'l']
  | bool true => ['t', 'r', 'u', 'e']
  | bool false => ['f', 'a', 'l', 's', 'e']
  | number n => n.repr.toList
  | string s => literal s
  | array vs => '[' :: (elementChars vs ++ [']'])
  | object ms => '\x7b' :: (memberChars ms ++ ['\x7d'])

def elementChars : List Value → List Char
  | [] => []
  | [v] => v.chars
  | v :: vs => v.chars ++ ',' :: elementChars vs

def memberChars : List (String × Value) → List Char
  | [] => []
  | [(k, v)] => literal k ++ ':' :: v.chars
  | (k, v) :: ms => literal k ++ ':' :: (v.chars ++ ',' :: memberChars ms)

end

/-- The text of a value, without blanks. -/
def text (v : Value) : String :=
  String.ofList v.chars

def ofNat (n : Nat) : Value := number n

def ofOption (f : α → Value) : Option α → Value
  | some a => f a
  | none => null

end Value

end MqttLink.Json
