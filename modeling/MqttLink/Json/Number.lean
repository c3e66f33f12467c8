import MqttLink.Json.Literal

/-!
Numbers in a JSON text whose value matters. A whole number that fits in 64 bits is kept exactly;
every other number becomes a double.
-/

namespace MqttLink.Json

inductive Number
  | natural (n : Nat)
  | negative (n : Int)
  | fractional (x : Float)

/-- Digits gathered so far: as many as fit in 64 bits, and the power of ten that makes up for the
point and for the digits left out. -/
structure Gathered where
  significand : Nat
  exponent : Int
  full : Bool := false
  deriving DecidableEq, Repr

def digitValue (c : Char) : Nat :=
  c.toNat - '0'.toNat

/-- Adds a digit before the point; once one does not fit, it and all others only count. -/
def Gathered.addWhole (g : Gathered) (c : Char) : Gathered :=
  let n := g.significand * 10 + digitValue c
  if g.full || 18446744073709551616 ≤ n then ⟨g.significand, g.exponent + 1, true⟩
  else ⟨n, g.exponent, false⟩

/-- Adds a digit after the point; once one does not fit, it and all others are left out. -/
def Gathered.addFraction (g : Gathered) (c : Char) : Gathered :=
  let n := g.significand * 10 + digitValue c
  if g.full || 18446744073709551616 ≤ n then ⟨g.significand, g.exponent, true⟩
  else ⟨n, g.exponent - 1, false⟩

def powerOfTen (n : Nat) : Float :=
  Float.ofScientific 1 false n

/-- `significand * 10 ^ exponent` in doubles: the significand is rounded first, then multiplied or
divided once by a rounded power of ten, or twice where the power is out of range. `none` when the
result is too large. -/
def Gathered.toDouble? (g : Gathered) : Option Float :=
  let x := g.significand.toUInt64.toFloat
  if g.exponent < 0 then
    let n := g.exponent.natAbs
    some (if n ≤ 308 then x / powerOfTen n
      else if n ≤ 616 then x / powerOfTen 308 / powerOfTen (n - 308)
      else 0)
  else if 308 < g.exponent then
    if g.significand = 0 then some x else none
  else
    let y := x * powerOfTen g.exponent.toNat
    if y.isInf then none else some y

def signed (negative : Bool) (x : Float) : Float :=
  if negative then -x else x

/-- Closes a number that has a point or an exponent, or too many digits. -/
def closeDouble (negative : Bool) (g : Gathered) (rest : List Char) :
    Except TextFault (Number × List Char) :=
  match g.toDouble? with
  | some x => .ok (.fractional (signed negative x), rest)
  | none => .error .malformed

/-- Reads an exponent after its `e`. An exponent beyond 31 bits makes a zero of any number that it
does not make too large. -/
def readExponent (negative : Bool) (g : Gathered) (cs : List Char) :
    Except TextFault (Number × List Char) :=
  let (down, cs) :=
    match cs with
    | '+' :: rest => (false, rest)
    | '-' :: rest => (true, rest)
    | _ => (false, cs)
  let digits := cs.takeWhile isDigit
  let rest := cs.dropWhile isDigit
  match digits with
  | [] => .error (if cs.isEmpty then .truncated else .malformed)
  | _ =>
    let n := digits.foldl (fun n c => if 2147483648 ≤ n then n else n * 10 + digitValue c) 0
    if 2147483648 ≤ n then
      if g.significand ≠ 0 && !down then .error .malformed
      else .ok (.fractional (signed negative 0), rest)
    else
      let shift := if down then -Int.ofNat n else n
      closeDouble negative { g with exponent := g.exponent + shift } rest

/-- Reads what may follow the digits of a number: the exponent. -/
def readTail (negative : Bool) (g : Gathered) (cs : List Char) :
    Except TextFault (Number × List Char) :=
  match cs with
  | 'e' :: rest | 'E' :: rest => readExponent negative g rest
  | _ => closeDouble negative g cs

/-- Reads a fraction after its point. -/
def readFraction (negative : Bool) (g : Gathered) (cs : List Char) :
    Except TextFault (Number × List Char) :=
  match cs.takeWhile isDigit with
  | [] => .error (if cs.isEmpty then .truncated else .malformed)
  | digits =>
    readTail negative (digits.foldl Gathered.addFraction { g with full := false })
      (cs.dropWhile isDigit)

/-- Closes a number that has neither point nor exponent: minus zero and whole numbers that do not
fit in 64 bits are doubles. -/
def closeWhole (negative : Bool) (g : Gathered) (rest : List Char) :
    Except TextFault (Number × List Char) :=
  if g.full || (negative && (g.significand = 0 || 9223372036854775808 < g.significand)) then
    closeDouble negative g rest
  else if negative then .ok (.negative (-Int.ofNat g.significand), rest)
  else .ok (.natural g.significand, rest)

/-- Reads a number after its sign. -/
def readNumber (negative : Bool) (cs : List Char) : Except TextFault (Number × List Char) :=
  let digits := cs.takeWhile isDigit
  let rest := cs.dropWhile isDigit
  match digits with
  | [] => .error (if cs.isEmpty then .truncated else .malformed)
  | '0' :: _ :: _ => .error .malformed
  | _ =>
    let g := digits.foldl Gathered.addWhole ⟨0, 0, false⟩
    match rest with
    | '.' :: rest => readFraction negative g rest
    | 'e' :: rest | 'E' :: rest => readExponent negative g rest
    | _ => closeWhole negative g rest

end MqttLink.Json
