import FeedIntake.Time.Moment
import FeedIntake.Decimal.Binary64

/-! # Unix time

Instants as seconds counted from the first of January 1970.
-/

namespace FeedIntake.Time

/-- The first of January 1970 in days of the calendar. -/
def unixDay : Nat := 719162

def Instant.ofUnixMicros? (micros : Int) : Option Instant :=
  Instant.of? (unixDay * dayMicros + micros)

/-- Numbers from here on count milliseconds. -/
def millisecondsFrom : Nat := 20000000000

/-- The years in which a number is taken for an instant at all. -/
def unixYears : Nat × Nat := (1600, 9999)

/-- The instant that a number of seconds denotes, to the nearest microsecond, half of one upwards.
A number too large for seconds counts milliseconds. -/
def Instant.ofUnix? (negative : Bool) (r : Decimal.Ratio) : Option Instant :=
  let scale : Nat := if millisecondsFrom * r.den < r.num then 1000 else 1000000
  let num : Int := if negative then -(r.num * scale : Nat) else (r.num * scale : Nat)
  let micros := (2 * num + r.den).fdiv (2 * r.den)
  (Instant.ofUnixMicros? micros).filter fun i => unixYears.1 ≤ i.date.year

end FeedIntake.Time
