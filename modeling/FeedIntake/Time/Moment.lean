import FeedIntake.Time.Calendar
import FeedIntake.Decimal.Digits

/-! # Date-times and instants

A date-time is what a clock on some wall shows, with or without its offset from UTC. An instant is
a microsecond of the calendar in UTC. A date-time without an offset is taken to be in UTC; one
with an offset may denote a moment outside the calendar, and then it has no instant.
-/

namespace FeedIntake.Time

open Decimal (field)

def dayMicros : Nat := 86400000000

structure TimeOfDay where
  hour : Nat
  minute : Nat
  second : Nat
  micro : Nat
  inDay : hour < 24 ∧ minute < 60 ∧ second < 60 ∧ micro < 1000000
  deriving DecidableEq

namespace TimeOfDay

def of? (hour minute second micro : Nat) : Option TimeOfDay :=
  if h : hour < 24 ∧ minute < 60 ∧ second < 60 ∧ micro < 1000000 then
    some ⟨hour, minute, second, micro, h⟩
  else none

def midnight : TimeOfDay := ⟨0, 0, 0, 0, by decide⟩

def micros (t : TimeOfDay) : Nat := ((t.hour * 60 + t.minute) * 60 + t.second) * 1000000 + t.micro

theorem micros_lt (t : TimeOfDay) : t.micros < dayMicros := by
  have := t.inDay
  simp only [micros, dayMicros]
  omega

def ofMicros (n : Nat) : TimeOfDay :=
  ⟨n / 3600000000 % 24, n / 60000000 % 60, n / 1000000 % 60, n % 1000000, by omega⟩

theorem micros_ofMicros {n : Nat} (h : n < dayMicros) : (ofMicros n).micros = n := by
  simp only [dayMicros] at h
  simp only [ofMicros, micros]
  omega

def chars (t : TimeOfDay) : List Char :=
  field 2 t.hour ++ ':' :: field 2 t.minute ++ ':' :: field 2 t.second ++
    (if t.micro = 0 then [] else '.' :: field 6 t.micro)

end TimeOfDay

/-- A distance from UTC, east positive, of less than a day. -/
structure Offset where
  micros : Int
  inDay : micros.natAbs < dayMicros
  deriving DecidableEq

namespace Offset

def utc : Offset := ⟨0, by decide⟩

def of? (micros : Int) : Option Offset :=
  if h : micros.natAbs < dayMicros then some ⟨micros, h⟩ else none

def chars (o : Offset) : List Char :=
  let t := TimeOfDay.ofMicros o.micros.natAbs
  (if o.micros < 0 then '-' else '+') :: field 2 t.hour ++ ':' :: field 2 t.minute ++
    (if t.second = 0 ∧ t.micro = 0 then [] else ':' :: field 2 t.second) ++
    (if t.micro = 0 then [] else '.' :: field 6 t.micro)

end Offset

structure DateTime where
  date : Date
  time : TimeOfDay
  offset : Option Offset
  deriving DecidableEq

def Date.chars (d : Date) : List Char :=
  field 4 d.year ++ '-' :: field 2 d.month ++ '-' :: field 2 d.day

namespace DateTime

/-- Microseconds since the calendar began, as the wall clock shows them. -/
def localMicros (d : DateTime) : Nat := d.date.dayNumber * dayMicros + d.time.micros

/-- Microseconds since the calendar began in UTC; negative or too large outside the calendar. -/
def position (d : DateTime) : Int :=
  d.localMicros - (d.offset.map Offset.micros).getD 0

def charsWith (separator : Char) (d : DateTime) : List Char :=
  d.date.chars ++ separator :: d.time.chars ++ (d.offset.map Offset.chars).getD []

def isoText (d : DateTime) : String := String.ofList (d.charsWith 'T')

/-- The text for people differs from the standard one in the separator. -/
def plainText (d : DateTime) : String := String.ofList (d.charsWith ' ')

end DateTime

structure Instant where
  micros : Nat
  inCalendar : micros < Date.count * dayMicros
  deriving DecidableEq

namespace Instant

/-- The first instant, before which nothing can be published. -/
def first : Instant := ⟨0, by decide⟩

def of? (micros : Int) : Option Instant :=
  if h : 0 ≤ micros ∧ micros.toNat < Date.count * dayMicros then some ⟨micros.toNat, h.2⟩ else none

instance : LT Instant := ⟨fun a b => a.micros < b.micros⟩

instance (a b : Instant) : Decidable (a < b) := inferInstanceAs (Decidable (a.micros < b.micros))

instance : LE Instant := ⟨fun a b => a.micros ≤ b.micros⟩

instance (a b : Instant) : Decidable (a ≤ b) := inferInstanceAs (Decidable (a.micros ≤ b.micros))

def date (i : Instant) : Date :=
  .ofDayNumber (i.micros / dayMicros)
    (Nat.div_lt_of_lt_mul (by rw [Nat.mul_comm]; exact i.inCalendar))

def time (i : Instant) : TimeOfDay := .ofMicros (i.micros % dayMicros)

def toDateTime (i : Instant) : DateTime := ⟨i.date, i.time, some .utc⟩

def isoText (i : Instant) : String := i.toDateTime.isoText

end Instant

/-- The instant that a date-time denotes, none when it lies outside the calendar. -/
def DateTime.instant? (d : DateTime) : Option Instant := Instant.of? d.position

end FeedIntake.Time
