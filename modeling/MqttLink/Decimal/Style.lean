import MqttLink.Decimal.Shortest

/-!
How a number with a fraction is written.
-/

namespace MqttLink.Decimal

/-- Numbers whose leading digit stands between the places `lowest` and `highest` are written
positionally, all others with an exponent and its sign. -/
structure Style where
  lowest : Int
  highest : Int

/-- Positional from `0.00001` up to sixteen places before the point. -/
def Style.plain : Style := ⟨-5, 15⟩

/-- Writes `0.digits * 10 ^ (point)` positionally, with at least one digit after the point. -/
def positional (digits : List Char) (point : Int) : List Char :=
  if point ≤ 0 then ['0', '.'] ++ List.replicate (-point).toNat '0' ++ digits
  else if digits.length ≤ point.toNat then
    digits ++ List.replicate (point.toNat - digits.length) '0' ++ ['.', '0']
  else digits.take point.toNat ++ ['.'] ++ digits.drop point.toNat

/-- Writes one digit before the point and the rest after it, followed by the exponent. -/
def exponential (digits : List Char) (exponent : Int) : List Char :=
  let tail := if digits.length ≤ 1 then [] else '.' :: digits.drop 1
  digits.take 1 ++ tail ++ ['e', if exponent < 0 then '-' else '+'] ++
    Nat.toDigits 10 exponent.natAbs

def Style.write (style : Style) (s : Scaled) : List Char :=
  let s := Scaled.trimmed 20 s
  let digits := Nat.toDigits 10 s.digits
  let leading := s.exponent + digits.length - 1
  if s.digits = 0 then ['0', '.', '0']
  else if style.lowest ≤ leading ∧ leading ≤ style.highest then
    positional digits (leading + 1)
  else exponential digits leading

/-- The shortest text of a finite double that reads back as the same double. -/
def written (style : Style) (x : Float) : String :=
  let sign := if x.toBits.toNat < twoTo 63 then [] else ['-']
  let b := Binary.ofBits x.toBits
  String.ofList (sign ++ style.write (if b.significand = 0 then ⟨0, 0⟩ else b.shortest))

end MqttLink.Decimal
