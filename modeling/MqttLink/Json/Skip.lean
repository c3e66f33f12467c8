import MqttLink.Json.Literal

/-!
Skips one JSON value of any depth without keeping it. Only the form of the value is checked: a
number may be out of range, and a code in a string may be half of a pair. The skipper reads
character by character and remembers the open brackets.
-/

namespace MqttLink.Json

/-- An open bracket. -/
inductive Bracket
  | array
  | object
  deriving DecidableEq, Repr

def Bracket.closing : Bracket → Char
  | array => ']'
  | object => '\x7d'

/-- Where the skipper stands. The states from `zero` on are inside a number; `key` tells that a
string is the key of a member. -/
inductive Place
  /-- Before a value. -/
  | value
  /-- Right after an opening bracket. -/
  | opened
  /-- After a value. -/
  | closed
  /-- Before the key of a member. -/
  | member
  /-- Before the colon after a key. -/
  | colon
  | string (key : Bool)
  | escaped (key : Bool)
  | code (key : Bool) (seen : Nat)
  | word (rest : List Char)
  | minus
  | zero
  | whole
  | point
  | fraction
  | mark
  | sign
  | exponent
  deriving DecidableEq, Repr

namespace Place

/-- Whether a number may end here. -/
def endsNumber : Place → Bool
  | zero | whole | fraction | exponent => true
  | _ => false

/-- Whether `c` continues a number at this place. -/
def continues : Place → Char → Bool
  | zero, c => isDigit c || c == '.' || c == 'e' || c == 'E'
  | whole, c => isDigit c || c == '.' || c == 'e' || c == 'E'
  | fraction, c => isDigit c || c == 'e' || c == 'E'
  | exponent, c => isDigit c
  | _, _ => true

/-- The fault of a text that ends here. A number that breaks off is spoilt, not short. -/
def atEnd : Place → TextFault
  | minus | point | mark | sign => .malformed
  | _ => .truncated

end Place

/-- A place inside the brackets that are open, the innermost first. -/
abbrev Standing := Place × List Bracket

/-- Reads the first character of a value. -/
def beginValue (brackets : List Bracket) (c : Char) : Except TextFault Standing :=
  if isBlank c then .ok (.value, brackets)
  else if c = 'n' then .ok (.word ['u', 'l', 'l'], brackets)
  else if c = 't' then .ok (.word ['r', 'u', 'e'], brackets)
  else if c = 'f' then .ok (.word ['a', 'l', 's', 'e'], brackets)
  else if c = '"' then .ok (.string false, brackets)
  else if c = '-' then .ok (.minus, brackets)
  else if c = '0' then .ok (.zero, brackets)
  else if isDigit c then .ok (.whole, brackets)
  else if c = '[' then .ok (.opened, .array :: brackets)
  else if c = '\x7b' then .ok (.opened, .object :: brackets)
  else .error .malformed

/-- Reads a character before a key. -/
def beginMember (brackets : List Bracket) (c : Char) : Except TextFault Standing :=
  if isBlank c then .ok (.member, brackets)
  else if c = '"' then .ok (.string true, brackets)
  else .error .malformed

/-- Reads one more character; `rest` follows it. -/
def advance (c : Char) (rest : List Char) : Standing → Except TextFault Standing
  | (.value, brackets) => beginValue brackets c
  | (.member, brackets) => beginMember brackets c
  | (.opened, []) => .error .malformed
  | (.opened, b :: brackets) =>
    if isBlank c then .ok (.opened, b :: brackets)
    else if c = b.closing then .ok (.closed, brackets)
    else
      match b with
      | .array => beginValue (b :: brackets) c
      | .object => beginMember (b :: brackets) c
  | (.closed, []) => .error .malformed
  | (.closed, b :: brackets) =>
    if isBlank c then .ok (.closed, b :: brackets)
    else if c = b.closing then .ok (.closed, brackets)
    else if c = ',' then
      .ok (match b with
        | .array => .value
        | .object => .member, b :: brackets)
    else .error .malformed
  | (.colon, brackets) =>
    if isBlank c then .ok (.colon, brackets)
    else if c = ':' then .ok (.value, brackets)
    else .error .malformed
  | (.string key, brackets) =>
    if c = '"' then .ok (if key then .colon else .closed, brackets)
    else if c = '\\' then .ok (.escaped key, brackets)
    else if c.toNat < 32 then .error .malformed
    else .ok (.string key, brackets)
  | (.escaped key, brackets) =>
    if c = 'u' then .ok (.code key 0, brackets)
    else if (unescape? c).isSome then .ok (.string key, brackets)
    else .error .malformed
  | (.code key seen, brackets) =>
    if (Text.hexValue? c).isNone then .error (codeFault seen (c :: rest))
    else if seen < 3 then .ok (.code key (seen + 1), brackets)
    else .ok (.string key, brackets)
  | (.word [], _) => .error .malformed
  | (.word [w], brackets) => if c = w then .ok (.closed, brackets) else .error .malformed
  | (.word (w :: ws), brackets) => if c = w then .ok (.word ws, brackets) else .error .malformed
  | (.minus, brackets) =>
    if c = '0' then .ok (.zero, brackets)
    else if isDigit c then .ok (.whole, brackets)
    else .error .malformed
  | (.zero, brackets) =>
    if c = '.' then .ok (.point, brackets)
    else if c = 'e' || c = 'E' then .ok (.mark, brackets)
    else .error .malformed
  | (.whole, brackets) =>
    if isDigit c then .ok (.whole, brackets)
    else if c = '.' then .ok (.point, brackets)
    else if c = 'e' || c = 'E' then .ok (.mark, brackets)
    else .error .malformed
  | (.point, brackets) => if isDigit c then .ok (.fraction, brackets) else .error .malformed
  | (.fraction, brackets) =>
    if isDigit c then .ok (.fraction, brackets)
    else if c = 'e' || c = 'E' then .ok (.mark, brackets)
    else .error .malformed
  | (.mark, brackets) =>
    if c = '+' || c = '-' then .ok (.sign, brackets)
    else if isDigit c then .ok (.exponent, brackets)
    else .error .malformed
  | (.sign, brackets) => if isDigit c then .ok (.exponent, brackets) else .error .malformed
  | (.exponent, brackets) => if isDigit c then .ok (.exponent, brackets) else .error .malformed

/-- The standing before `c` is read: a number that `c` cannot continue is over. -/
def settle (c : Char) : Standing → Standing
  | (place, brackets) => if place.continues c then (place, brackets) else (.closed, brackets)

/-- Skips to the end of the value that is being read and returns what follows it. -/
def skipFrom : Standing → List Char → Except TextFault (List Char)
  | (place, brackets), [] =>
    if brackets.isEmpty && (place = .closed || place.endsNumber) then .ok [] else .error place.atEnd
  | standing, c :: cs =>
    match settle c standing with
    | (.closed, []) => .ok (c :: cs)
    | standing =>
      match advance c cs standing with
      | .ok standing => skipFrom standing cs
      | .error e => .error e

/-- Skips one value and returns what follows it. -/
def skipValue (cs : List Char) : Except TextFault (List Char) :=
  skipFrom (.value, []) cs

end MqttLink.Json
