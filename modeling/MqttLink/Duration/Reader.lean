import MqttLink.Duration
import MqttLink.Duration.Units
import MqttLink.Text.Blank

/-!
Reads a written duration, character by character: spans of a number, perhaps with a fraction, and
a unit. Blanks may stand between spans and inside numbers, and end a unit.
-/

namespace MqttLink.Duration

/-- Where the reader stands: before a number (`started` once a span is complete), in its integer
part, in its fraction, or in the unit, whose letters are kept in reverse. -/
inductive Phase
  | between (started : Bool)
  | whole (n : Nat)
  | fraction (n numerator denominator : Nat)
  | unit (n : Nat) (fraction : Option (Nat × Nat)) (letters : List Char)

def isUnitLetter (c : Char) : Bool :=
  ('a' ≤ c && c ≤ 'z') || ('A' ≤ c && c ≤ 'Z') || c == 'µ'

def digit? (c : Char) : Option Nat :=
  if '0' ≤ c && c ≤ '9' then some (c.toNat - '0'.toNat) else none

/-- Numbers in a written duration fit in 64 bits. -/
def fitting? (n : Nat) : Option Nat :=
  if n < 18446744073709551616 then some n else none

/-- Adds a fraction of a unit, which has to come out even. -/
def addFraction? (total : Duration) (unit : TimeUnit) : Option (Nat × Nat) → Option Duration
  | none => some total
  | some (numerator, denominator) => do
    let (seconds, nanos) ← unit.fractionParts?
    let s ← fitting? (numerator * seconds)
    let n ← fitting? (numerator * nanos)
    if s % denominator = 0 && n % denominator = 0 then
      total.add? (s / denominator) (n / denominator)
    else none

/-- Adds a complete span. -/
def addSpan? (total : Duration) (n : Nat) (fraction : Option (Nat × Nat)) (letters : List Char) :
    Option Duration := do
  let unit ← TimeUnit.ofName? (String.ofList letters.reverse)
  let seconds ← fitting? (n * unit.parts.1)
  let nanos ← fitting? (n * unit.parts.2)
  let total ← total.add? seconds nanos
  total.addFraction? unit fraction

/-- Reads one more character. -/
def read? (c : Char) : Phase × Duration → Option (Phase × Duration)
  | (.between started, total) =>
    match digit? c with
    | some d => some (.whole d, total)
    | none => if Text.isBlank c then some (.between started, total) else none
  | (.whole n, total) =>
    match digit? c with
    | some d => (fitting? (n * 10 + d)).map fun n => (.whole n, total)
    | none =>
      if Text.isBlank c then some (.whole n, total)
      else if isUnitLetter c then some (.unit n none [c], total)
      else if c = '.' then some (.fraction n 0 1, total)
      else none
  | (.fraction n numerator denominator, total) =>
    match digit? c with
    | some d => do
      let denominator ← fitting? (denominator * 10)
      let numerator ← fitting? (numerator * 10 + d)
      some (.fraction n numerator denominator, total)
    | none =>
      if Text.isBlank c then some (.fraction n numerator denominator, total)
      else if isUnitLetter c && denominator ≠ 1 then
        some (.unit n (some (numerator, denominator)) [c], total)
      else none
  | (.unit n fraction letters, total) =>
    match digit? c with
    | some d => (addSpan? total n fraction letters).map fun total => (.whole d, total)
    | none =>
      if Text.isBlank c then
        (addSpan? total n fraction letters).map fun total => (.between true, total)
      else if isUnitLetter c then some (.unit n fraction (c :: letters), total)
      else none

/-- What the characters read so far amount to, if they may end here. -/
def finish? : Phase × Duration → Option Duration
  | (.between true, total) => some total
  | (.unit n fraction letters, total) => addSpan? total n fraction letters
  | _ => none

def readAll? : List Char → Phase × Duration → Option Duration
  | [], state => finish? state
  | c :: cs, state =>
    match read? c state with
    | some state => readAll? cs state
    | none => none

/-- The duration that a text stands for; a bare zero needs no unit. -/
def ofText? (text : String) : Option Duration :=
  if text = "0" then some zero else readAll? text.toList (.between false, zero)

end MqttLink.Duration
