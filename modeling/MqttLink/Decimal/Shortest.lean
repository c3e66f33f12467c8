/-!
The shortest decimal that reads back as a given binary fraction. A binary fraction is a
significand times a power of two; the numbers that round to it form an interval around it, and the
shortest decimal is the nearest one, with the fewest digits, inside that interval.
-/

namespace MqttLink.Decimal

def twoTo (n : Nat) : Nat :=
  Nat.pow 2 n

def tenTo (n : Nat) : Nat :=
  Nat.pow 10 n

/-- `significand * 2 ^ exponent`. At a power of two the neighbour below is only half as far away
as the one above (`narrow`). -/
structure Binary where
  significand : Nat
  exponent : Int
  narrow : Bool
  deriving DecidableEq, Repr

/-- The magnitude of a finite double, from its bits. -/
def Binary.ofBits (bits : UInt64) : Binary :=
  let fraction : Nat := bits.toNat % twoTo 52
  let field : Nat := bits.toNat / twoTo 52 % twoTo 11
  if field = 0 then ⟨fraction, -1074, false⟩
  else ⟨fraction + twoTo 52, Int.ofNat field - 1075, fraction = 0 ∧ 1 < field⟩

/-- `digits * 10 ^ exponent`. -/
structure Scaled where
  digits : Nat
  exponent : Int
  deriving DecidableEq, Repr

namespace Binary

/-- Numerator and denominator of a quarter of the unit in the last place. -/
def quarterUnit (b : Binary) : Nat × Nat :=
  let e := b.exponent - 2
  (twoTo e.toNat, twoTo (-e).toNat)

/-- The two ends of the interval that rounds to `b`, in quarters of its last place. -/
def ends (b : Binary) : Nat × Nat :=
  (4 * b.significand - (if b.narrow then 1 else 2), 4 * b.significand + 2)

/-- Whether `digits * 10 ^ exponent` reads back as `b`. The ends of the interval belong to it when
the significand is even. -/
def readsBack (b : Binary) (s : Scaled) : Bool :=
  let (num, den) := b.quarterUnit
  let (lo, hi) := b.ends
  let value := s.digits * tenTo s.exponent.toNat * den
  let scale := tenTo (-s.exponent).toNat * num
  if b.significand % 2 = 0 then lo * scale ≤ value && value ≤ hi * scale
  else lo * scale < value && value < hi * scale

/-- The exponent of the leading decimal digit. Every positive double times `10 ^ 400` has a whole
part. -/
def leadingExponent (b : Binary) : Int :=
  let (num, den) := b.quarterUnit
  ((Nat.toDigits 10 (4 * b.significand * num * tenTo 400 / den)).length : Int) - 401

/-- The nearest of the two neighbours of `b` with `n` digits, if one reads back. A tie goes to the
even digit. -/
def neighbour? (b : Binary) (n : Nat) : Option Scaled :=
  let e := b.leadingExponent - n + 1
  let (num, den) := b.quarterUnit
  let top := 4 * b.significand * num * tenTo (-e).toNat
  let bottom := den * tenTo e.toNat
  let below : Scaled := ⟨top / bottom, e⟩
  let above : Scaled := ⟨top / bottom + 1, e⟩
  match b.readsBack below, b.readsBack above with
  | false, false => none
  | true, false => some below
  | false, true => some above
  | true, true =>
    let left := 2 * (top % bottom)
    if left < bottom || (left = bottom && below.digits % 2 = 0) then some below else some above

/-- The decimal with the fewest digits that reads back as `b`; seventeen always do. -/
def shortest (b : Binary) : Scaled :=
  ((List.range' 1 17).findSome? b.neighbour?).getD ⟨b.significand, 0⟩

end Binary

/-- Drops up to `most` zeros at the end of the digits. -/
def Scaled.trimmed : (most : Nat) → Scaled → Scaled
  | 0, s => s
  | most + 1, s =>
    if s.digits ≠ 0 ∧ s.digits % 10 = 0 then
      Scaled.trimmed most ⟨s.digits / 10, s.exponent + 1⟩
    else s

end MqttLink.Decimal
