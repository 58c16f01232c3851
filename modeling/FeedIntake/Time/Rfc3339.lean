import FeedIntake.Time.Unix

/-! # Date-times in settings

A setting gives a moment as a date, as a date with a time of day of which seconds and offset may
be missing, or as a number of Unix seconds.
-/

namespace FeedIntake.Time.Rfc3339

open Decimal (readField isDigit valueOf tenTo)

def readDate? (cs : List Char) : Option (Date × List Char) := do
  let (year, cs) ← readField 4 cs 0
  let '-' :: cs := cs | none
  let (month, cs) ← readField 2 cs 0
  let '-' :: cs := cs | none
  let (day, cs) ← readField 2 cs 0
  return (← Date.of? year month day, cs)

/-- The microseconds of a run of digits behind the point; those after the sixth are dropped. -/
def fractionMicros (digits : List Char) : Nat :=
  valueOf (digits.take 6) 0 * tenTo (6 - digits.length)

def readSeconds? (cs : List Char) : Option ((Nat × Nat) × List Char) :=
  match cs with
  | ':' :: cs => do
      let (second, cs) ← readField 2 cs 0
      match cs with
      | '.' :: cs | ',' :: cs =>
          let digits := cs.takeWhile isDigit
          if digits.isEmpty then none
          else return ((second, fractionMicros digits), cs.dropWhile isDigit)
      | cs => return ((second, 0), cs)
  | cs => some ((0, 0), cs)

def readTime? (cs : List Char) : Option (TimeOfDay × List Char) := do
  let (hour, cs) ← readField 2 cs 0
  let ':' :: cs := cs | none
  let (minute, cs) ← readField 2 cs 0
  let ((second, micro), cs) ← readSeconds? cs
  return (← TimeOfDay.of? hour minute second micro, cs)

/-- Hours and minutes after the sign of an offset, with or without a colon between them. -/
def readDistance? (negative : Bool) (cs : List Char) : Option Offset := do
  let (hours, cs) ← readField 2 cs 0
  let cs := match cs with
    | ':' :: rest => rest
    | cs => cs
  let (minutes, cs) ← readField 2 cs 0
  if cs.isEmpty && minutes < 60 then
    let micros : Nat := (hours * 60 + minutes) * 60000000
    Offset.of? (if negative then -(micros : Int) else micros)
  else none

/-- What follows the time of day: nothing, `Z`, or a signed distance. -/
def readOffset? : List Char → Option (Option Offset)
  | [] => some none
  | ['Z'] | ['z'] => some (some .utc)
  | '+' :: cs => (readDistance? false cs).map some
  | '-' :: cs | '\u2212' :: cs => (readDistance? true cs).map some
  | _ => none

def readDateAndTime? (cs : List Char) : Option DateTime := do
  let (date, cs) ← readDate? cs
  match cs with
  | [] => return ⟨date, .midnight, none⟩
  | separator :: cs =>
      if ['T', 't', ' ', '_'].contains separator then
        let (time, cs) ← readTime? cs
        return ⟨date, time, ← readOffset? cs⟩
      else none

def readUnsigned? (cs : List Char) : Option Decimal.Ratio :=
  let whole := cs.takeWhile isDigit
  if whole.isEmpty then none
  else
    match cs.dropWhile isDigit with
    | [] => some ⟨valueOf whole 0, 1⟩
    | '.' :: fraction =>
        if fraction.all isDigit then
          some ⟨valueOf fraction (valueOf whole 0), tenTo fraction.length⟩
        else none
    | _ => none

def readUnix? (cs : List Char) : Option Instant :=
  match cs with
  | '-' :: cs => (readUnsigned? cs).bind (Instant.ofUnix? true)
  | '+' :: cs => (readUnsigned? cs).bind (Instant.ofUnix? false)
  | cs => (readUnsigned? cs).bind (Instant.ofUnix? false)

def read? (cs : List Char) : Option DateTime :=
  readDateAndTime? cs <|> (readUnix? cs).map Instant.toDateTime

end FeedIntake.Time.Rfc3339
