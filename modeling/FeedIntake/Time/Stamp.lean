import FeedIntake.Decimal.Digits

/-! # Broken-down times

A broken-down time is nine numbers from year to daylight flag, taken to be in UTC. Its stamp is the
text of the first six. The numbers are checked one by one and not against each other, so a stamp
may name a day that does not exist.
-/

namespace FeedIntake.Time

open Decimal (field integer)

structure BrokenDown where
  year : Int
  month : Int
  day : Int
  hour : Int
  minute : Int
  second : Int
  weekday : Int
  yearDay : Int
  daylight : Int
  deriving DecidableEq, Repr

namespace BrokenDown

def ofList? : List Int → Option BrokenDown
  | [year, month, day, hour, minute, second, weekday, yearDay, daylight] =>
      some ⟨year, month, day, hour, minute, second, weekday, yearDay, daylight⟩
  | _ => none

def toList (t : BrokenDown) : List Int :=
  [t.year, t.month, t.day, t.hour, t.minute, t.second, t.weekday, t.yearDay, t.daylight]

def fitsWord (n : Int) : Bool := -2147483648 ≤ n && n ≤ 2147483647

/-- The first year whose count of years since 1900 fits a word. -/
def leastYear : Int := -2147481748

/-- A month, day or day of the year that is nought stands for the first. -/
def atLeastFirst (n : Int) : Int := if n = 0 then 1 else n

def between (lo hi n : Int) : Bool := lo ≤ n && n ≤ hi

/-- Whether a number passes for a day of the week: counted on by one within a word, its remainder
by seven, which has the sign of the count, is not negative. -/
def isWeekday (n : Int) : Bool := 0 ≤ Int.tmod (Int.bmod (n + 1) 4294967296) 7

/-- Whether each number lies in its own range. -/
def isRenderable (t : BrokenDown) : Bool :=
  t.toList.all fitsWord && leastYear ≤ t.year &&
    between 1 12 (atLeastFirst t.month) && between 1 31 (atLeastFirst t.day) &&
    between 0 23 t.hour && between 0 59 t.minute && between 0 61 t.second &&
    isWeekday t.weekday && between 1 366 (atLeastFirst t.yearDay)

/-- The year as it is, the other numbers with two digits. -/
def stampChars (t : BrokenDown) : List Char :=
  integer t.year ++ '-' :: field 2 (atLeastFirst t.month).toNat ++
    '-' :: field 2 (atLeastFirst t.day).toNat ++ 'T' :: field 2 t.hour.toNat ++
    ':' :: field 2 t.minute.toNat ++ ':' :: field 2 t.second.toNat ++ ['Z']

def stamp? (t : BrokenDown) : Option String :=
  if t.isRenderable then some (String.ofList t.stampChars) else none

end BrokenDown

end FeedIntake.Time
