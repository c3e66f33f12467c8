/-!
Lengths of time in whole seconds and nanoseconds, and the ticks of a clock that cover them.
-/

namespace MqttLink

/-- A length of time whose seconds fit in 64 bits: there are fewer than the 64th power of two. -/
structure Duration where
  seconds : Nat
  nanos : Nat
  seconds_lt : seconds < 18446744073709551616
  nanos_lt : nanos < 1000000000
  deriving DecidableEq, Repr

namespace Duration

/-- The sum of `seconds` and any number of nanoseconds, if it fits. -/
def ofParts? (seconds nanos : Nat) : Option Duration :=
  if h : seconds + nanos / 1000000000 < 18446744073709551616 then
    some ⟨seconds + nanos / 1000000000, nanos % 1000000000, h, Nat.mod_lt _ (by decide)⟩
  else none

def ofSeconds (n : Nat) (h : n < 18446744073709551616 := by decide) : Duration :=
  ⟨n, 0, h, by decide⟩

def zero : Duration := ofSeconds 0

instance : Inhabited Duration := ⟨zero⟩

def toNanos (d : Duration) : Nat :=
  d.seconds * 1000000000 + d.nanos

/-- The most ticks of a clock, one in a millisecond, that a wait can last: thirty years of 365 days,
after which it is over whatever it was for. -/
def longestWait : Nat := 946080000000

/-- The ticks that a clock waits for a time to be over. The wait ends with a tick, so a part of a
millisecond counts as a whole one. -/
def ticks (d : Duration) : Nat :=
  min ((d.toNanos + 999999) / 1000000) longestWait

/-- Adds seconds and nanoseconds. The nanoseconds are first added up in 64 bits. -/
def add? (d : Duration) (seconds nanos : Nat) : Option Duration :=
  if d.nanos + nanos < 18446744073709551616 then
    ofParts? (d.seconds + seconds) (d.nanos + nanos)
  else none

end Duration

end MqttLink
