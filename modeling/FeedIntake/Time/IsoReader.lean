import FeedIntake.Time.Moment

/-! # Reading standard date-times

The reader takes the calendar and the week form of a date, with or without hyphens, any one
character between date and time, times cut off after hours or minutes, fractions after a point or
comma, and offsets. It is lenient at the edges: a colon also starts a fraction, digits beyond the
sixth of a fraction are dropped, and what follows a fraction before an offset is not looked at.
-/

namespace FeedIntake.Time

open Decimal (isDigit readField valueOf tenTo)

/-- The character that stands for the end of a text; in a text it ends a clock reading likewise. -/
def endMark : Char := '\x00'

def charAt (cs : List Char) (i : Nat) : Char := (cs[i]?).getD endMark

/-- Where the date ends, judged from the length and from which characters stand at fixed places. -/
def dateLength? (cs : List Char) : Option Nat :=
  if cs.length < 7 then none
  else if cs.length = 7 then some 7
  else if charAt cs 4 = '-' then
    if charAt cs 5 = 'W' then
      if 8 < cs.length ∧ charAt cs 8 = '-' then
        if cs.length = 9 then none
        else if 10 < cs.length ∧ isDigit (charAt cs 10) then some 8
        else some 10
      else some 8
    else some 10
  else if charAt cs 4 = 'W' then
    let digits := 7 + ((cs.drop 7).takeWhile isDigit).length
    if digits < 9 then some digits
    else if digits % 2 = 0 then some 7 else some 8
  else some 8

def expect (c : Char) : List Char → Option (List Char)
  | [] => none
  | d :: rest => if d = c then some rest else none

def readDate? (cs : List Char) (length : Nat) : Option Date := do
  let (year, rest) ← readField 4 cs 0
  let hyphens := rest.head? = some '-'
  let rest := if hyphens then rest.drop 1 else rest
  if rest.head? = some 'W' then
    let (week, rest) ← readField 2 (rest.drop 1) 0
    if (if hyphens then 8 else 7) < length then
      let rest ← if hyphens then expect '-' rest else some rest
      let (day, _) ← readField 1 rest 0
      Date.ofWeek? year week day
    else Date.ofWeek? year week 1
  else
    let (month, rest) ← readField 2 rest 0
    let rest ← if hyphens then expect '-' rest else some rest
    let (day, _) ← readField 2 rest 0
    Date.of? year month day

/-- Hours, minutes, seconds and microseconds as read, not yet checked for their ranges, and
whether the reading stopped at the end of the text. -/
structure ClockReading where
  hour : Nat
  minute : Nat
  second : Nat
  micro : Nat
  clean : Bool
  deriving Repr, DecidableEq

namespace ClockReading

def ofParts (parts : List Nat) (micro : Nat) (clean : Bool) : ClockReading :=
  ⟨parts.getD 0 0, parts.getD 1 0, parts.getD 2 0, micro, clean⟩

/-- Up to six digits of a fraction, filled up with zeros; further digits are dropped. -/
def fraction? (parts : List Nat) (cs : List Char) (next : Char) : Option ClockReading :=
  let digits := cs.take 6
  if digits.all isDigit then
    let stop := (((cs.drop 6).dropWhile isDigit).head?).getD next
    some (ofParts parts (valueOf digits 0 * tenTo (6 - digits.length)) (stop == endMark))
  else none

/-- Reads up to `count` further two-digit parts. Whether colons stand between them is settled by
the character after the first. `next` is the character that follows the text `cs`. One character of
ASCII may be left over at the end. -/
def readFrom (next : Char) : Nat → Bool → List Nat → List Char → Option ClockReading
  | 0, _, parts, cs => fraction? parts cs next
  | count + 1, colons, parts, cs =>
      match readField 2 cs 0 with
      | none => none
      | some (part, rest) =>
          let seen := parts ++ [part]
          let colons := if parts.isEmpty then rest.head?.getD next == ':' else colons
          match rest with
          | [] => some (ofParts seen 0 (next == endMark))
          | [c] => if c.toNat < 0x80 then some (ofParts seen 0 (c == endMark)) else none
          | c :: more =>
              if colons && c == ':' then readFrom next count colons seen more
              else if c == '.' || c == ',' then fraction? seen more next
              else if !colons then readFrom next count colons seen rest
              else none

def read? (cs : List Char) (next : Char) : Option ClockReading := readFrom next 3 true [] cs

def seconds (r : ClockReading) : Nat := r.hour * 3600 + r.minute * 60 + r.second

end ClockReading

def startsOffset (c : Char) : Bool := c == '+' || c == '-' || c == 'Z'

/-- The offset with a given sign; one of less than a second is none at all. -/
def signedOffset? (negative : Bool) (r : ClockReading) : Option Offset :=
  if r.seconds = 0 then some .utc
  else
    let micros : Int := r.seconds * 1000000 + r.micro
    Offset.of? (if negative then -micros else micros)

def readTime? (cs : List Char) : Option (ClockReading × Option Offset) :=
  let clock := cs.takeWhile (!startsOffset ·)
  match cs.dropWhile (!startsOffset ·) with
  | [] => do
      let r ← ClockReading.read? clock endMark
      if r.clean then some (r, none) else none
  | mark :: rest => do
      let r ← ClockReading.read? clock mark
      if mark = 'Z' then
        if charAt rest 0 = endMark then some (r, some .utc) else none
      else
        let o ← ClockReading.read? rest endMark
        if o.clean then
          let offset ← signedOffset? (mark = '-') o
          some (r, some offset)
        else none

def DateTime.read? (cs : List Char) : Option DateTime := do
  let length ← dateLength? cs
  let date ← readDate? cs length
  if length < cs.length then
    let (r, offset) ← readTime? (cs.drop (length + 1))
    let time ← TimeOfDay.of? r.hour r.minute r.second r.micro
    some ⟨date, time, offset⟩
  else some ⟨date, .midnight, none⟩

end FeedIntake.Time
