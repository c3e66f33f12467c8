import MqttLink.Duration
import MqttLink.Duration.Units

/-!
The written form of a duration: its nonzero parts from years down to nanoseconds, as in
`1year 2months 3days 4h 5m 6s 7ms 8us 9ns`, and `0s` for none. In a log it has a short form instead,
one number with a unit, as in `30s` or `1.5ms`.
-/

namespace MqttLink.Duration

/-- A count and the unit it is written with: years, months and days have a plural. -/
def parts (d : Duration) : List (Nat × String) :=
  let inYear := d.seconds % 31557600
  let inMonth := inYear % 2630016
  let inDay := inMonth % 86400
  let years := d.seconds / 31557600
  let months := inYear / 2630016
  let days := inMonth / 86400
  [(years, if years = 1 then "year" else "years"),
   (months, if months = 1 then "month" else "months"),
   (days, if days = 1 then "day" else "days"),
   (inDay / 3600, "h"), (inDay % 3600 / 60, "m"), (inDay % 60, "s"),
   (d.nanos / 1000000, "ms"), (d.nanos / 1000 % 1000, "us"), (d.nanos % 1000, "ns")]

def writePart (part : Nat × String) : String :=
  part.1.repr ++ part.2

def written (d : Duration) : String :=
  match d.parts.filter (·.1 ≠ 0) with
  | [] => "0s"
  | shown => " ".intercalate (shown.map writePart)

/-! ## The short form -/

/-- The digits of `n` as a fraction with this many places, without zeros at the end. -/
def fractionDigits : (places : Nat) → Nat → List Char
  | 0, _ => []
  | places + 1, n =>
    if n = 0 then []
    else Nat.digitChar (n / 10 ^ places) :: fractionDigits places (n % 10 ^ places)

/-- A whole number and a fraction, where there is one, with a unit. -/
def decimal (whole fraction places : Nat) (unit : String) : String :=
  match fractionDigits places fraction with
  | [] => whole.repr ++ unit
  | digits => whole.repr ++ "." ++ String.ofList digits ++ unit

/-- A duration in the largest unit of which there is a whole one. -/
def brief (d : Duration) : String :=
  if 0 < d.seconds then decimal d.seconds d.nanos 9 "s"
  else if 1000000 ≤ d.nanos then decimal (d.nanos / 1000000) (d.nanos % 1000000) 6 "ms"
  else if 1000 ≤ d.nanos then decimal (d.nanos / 1000) (d.nanos % 1000) 3 "µs"
  else decimal d.nanos 0 0 "ns"

example : (ofSeconds 30).brief = "30s" := by decide

example : brief ⟨0, 2050, by decide, by decide⟩ = "2.05µs" := by decide

end MqttLink.Duration
