import FeedIntake.Value
import FeedIntake.Decimal.Shortest
import FeedIntake.Text.Quoted

/-! # Values in messages

The literal form of a value shows its kind: texts are quoted, brackets tell lists from tuples. The
display form leaves a text as it is. Neither is given for a value with a whole number of too many
digits.
-/

namespace FeedIntake.Value

open Decimal (integer natural)

def commaSeparated (items : List String) : String := ", ".intercalate items

def brokenDownNames : List String :=
  ["tm_year", "tm_mon", "tm_mday", "tm_hour", "tm_min", "tm_sec", "tm_wday", "tm_yday", "tm_isdst"]

def brokenDownLiteral (t : Time.BrokenDown) : String :=
  "time.struct_time(" ++
    commaSeparated ((brokenDownNames.zip t.toList).map fun (name, n) => s!"{name}={n}") ++ ")"

/-- An offset as days, seconds and microseconds, of which only the days can be negative. -/
def offsetLiteral (o : Time.Offset) : String :=
  if o.micros = 0 then "datetime.timezone.utc"
  else
    let days := Int.fdiv o.micros Time.dayMicros
    let rest := Int.fmod o.micros Time.dayMicros
    let seconds := rest / 1000000
    let micros := rest % 1000000
    let parts := (if days = 0 then [] else [s!"days={days}"]) ++
      (if seconds = 0 then [] else [s!"seconds={seconds}"]) ++
      (if micros = 0 then [] else [s!"microseconds={micros}"])
    s!"datetime.timezone(datetime.timedelta({commaSeparated parts}))"

/-- The parts of a date-time, the seconds and microseconds only where there are any. -/
def momentLiteral (d : Time.DateTime) : String :=
  let clock := if d.time.micro ≠ 0 then [d.time.second, d.time.micro]
    else if d.time.second ≠ 0 then [d.time.second] else []
  let numbers := [d.date.year, d.date.month, d.date.day, d.time.hour, d.time.minute] ++ clock
  let zone := match d.offset with
    | none => []
    | some o => ["tzinfo=" ++ offsetLiteral o]
  "datetime.datetime(" ++ commaSeparated (numbers.map (s!"{·}") ++ zone) ++ ")"

mutual

def literal : Value → String
  | .null => "None"
  | .bool b => if b then "True" else "False"
  | .int n => String.ofList (integer n)
  | .float x => Decimal.Layout.plain.text x
  | .text s => Text.quoted s
  | .bytes bs => Text.quotedBytes bs
  | .list items => "[" ++ commaSeparated (literals items) ++ "]"
  | .tuple items =>
      match literals items with
      | [only] => "(" ++ only ++ ",)"
      | texts => "(" ++ commaSeparated texts ++ ")"
  | .brokenDown t => brokenDownLiteral t
  | .moment d => momentLiteral d
  | .dict fields => "\x7b" ++ commaSeparated (fieldLiterals fields) ++ "\x7d"

def literals : List Value → List String
  | [] => []
  | item :: rest => literal item :: literals rest

def fieldLiterals : List (String × Value) → List String
  | [] => []
  | (key, value) :: rest => (Text.quoted key ++ ": " ++ literal value) :: fieldLiterals rest

end

/-- The form for people: a text as it is, a date-time with a blank before its time. -/
def display : Value → String
  | .text s => s
  | .moment d => d.plainText
  | v => v.literal

/-! ## Values that can be written -/

mutual

/-- Whether no whole number in a value has too many digits to be written. -/
def isWritable : Value → Bool
  | .int n => Decimal.isWritable n
  | .list items => areWritable items
  | .tuple items => areWritable items
  | .brokenDown t => t.toList.all Decimal.isWritable
  | .dict fields => membersWritable fields
  | _ => true

def areWritable : List Value → Bool
  | [] => true
  | item :: rest => isWritable item && areWritable rest

def membersWritable : List (String × Value) → Bool
  | [] => true
  | (_, value) :: rest => isWritable value && membersWritable rest

end

theorem membersWritable_eq_all (fields : List (String × Value)) :
    membersWritable fields = fields.all fun f => f.2.isWritable := by
  induction fields with
  | nil => rfl
  | cons first rest ih => rw [membersWritable, ih, List.all_cons]

end FeedIntake.Value
