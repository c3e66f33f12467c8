/-!
The units that a written duration is made of.
-/

namespace MqttLink

inductive TimeUnit
  | nanosecond
  | microsecond
  | millisecond
  | second
  | minute
  | hour
  | day
  | week
  | month
  | year
  deriving DecidableEq, Repr

namespace TimeUnit

/-- Seconds and nanoseconds of one unit: a month is a twelfth of a year of 365.25 days, rounded
to whole minutes. -/
def parts : TimeUnit → Nat × Nat
  | nanosecond => (0, 1)
  | microsecond => (0, 1000)
  | millisecond => (0, 1000000)
  | second => (1, 0)
  | minute => (60, 0)
  | hour => (3600, 0)
  | day => (86400, 0)
  | week => (604800, 0)
  | month => (2630016, 0)
  | year => (31557600, 0)

/-- What the fraction of a unit is taken of: up to a minute in nanoseconds, above it in seconds.
A nanosecond has no fractions. -/
def fractionParts? : TimeUnit → Option (Nat × Nat)
  | nanosecond => none
  | second => some (0, 1000000000)
  | minute => some (0, 60000000000)
  | u => some u.parts

def ofName? (name : String) : Option TimeUnit :=
  if name ∈ ["nanos", "nsec", "ns"] then some nanosecond
  else if name ∈ ["usec", "us", "µs"] then some microsecond
  else if name ∈ ["millis", "msec", "ms"] then some millisecond
  else if name ∈ ["seconds", "second", "secs", "sec", "s"] then some second
  else if name ∈ ["minutes", "minute", "min", "mins", "m"] then some minute
  else if name ∈ ["hours", "hour", "hr", "hrs", "h"] then some hour
  else if name ∈ ["days", "day", "d"] then some day
  else if name ∈ ["weeks", "week", "wk", "wks", "w"] then some week
  else if name ∈ ["months", "month", "M"] then some month
  else if name ∈ ["years", "year", "yr", "yrs", "y"] then some year
  else none

end TimeUnit

end MqttLink
