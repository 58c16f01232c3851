import FeedIntake.Log.Severity
import FeedIntake.Settings.Misfit
import FeedIntake.Text.Blank
import FeedIntake.Text.Case
import FeedIntake.Time.Rfc3339
import FeedIntake.Value

/-! # Fitting values to settings

What a value has to be to serve as a setting of each kind. Numbers and truth values may be given as
text, since text is all that an environment holds.
-/

namespace FeedIntake

abbrev Fit (α : Type) := Except MisfitKind α

namespace Fit

open Decimal (isDigit valueOf)

/-- Digits with single low lines among them, the digits alone. -/
def digitRun? : List Char → Option (List Char)
  | [] => some []
  | '_' :: c :: rest => if isDigit c then (digitRun? rest).map (c :: ·) else none
  | c :: rest => if isDigit c then (digitRun? rest).map (c :: ·) else none

/-- A fraction of noughts adds nothing to a whole number. -/
def dropNoughts (cs : List Char) : List Char :=
  match cs.dropWhile fun c => c != '.' with
  | '.' :: fraction => if fraction.all (· == '0') then cs.takeWhile (· != '.') else cs
  | _ => cs

def longestRun : Nat := 4300

def unsigned? (cs : List Char) : Fit Nat :=
  match dropNoughts cs with
  | [] => .error .unreadableNumber
  | c :: rest =>
      if !isDigit c then .error .unreadableNumber
      else
        match digitRun? (c :: rest) with
        | some digits =>
            if longestRun < digits.length then .error .oversizedNumber
            else .ok (valueOf digits 0)
        | none => .error .unreadableNumber

def numberOfText (s : String) : Fit Int :=
  match Text.trim s.toList with
  | '-' :: cs => (unsigned? cs).map fun n => -(n : Int)
  | '+' :: cs => (unsigned? cs).map (↑·)
  | cs => (unsigned? cs).map (↑·)

/-- A double is fit for a whole number if it is one. -/
def numberOfFloat (x : Float) : Fit Int :=
  match Decimal.Binary64.ofFloat x with
  | .finite negative mantissa exponent =>
      let r := Decimal.Ratio.ofBinary mantissa exponent
      if r.num % r.den ≠ 0 then .error .fraction
      else
        let n := r.num / r.den
        if Decimal.twoTo 63 ≤ n then .error .oversizedNumber
        else .ok (if negative then -(n : Int) else n)
  | _ => .error .notFinite

def wholeNumber : Value → Fit Int
  | .int n => .ok n
  | .bool b => .ok (if b then 1 else 0)
  | .float x => numberOfFloat x
  | .text s => numberOfText s
  | _ => .error .noWholeNumber

structure Bounds where
  least : Nat
  greatest : Option Nat

def Bounds.Holds (b : Bounds) (n : Nat) : Prop :=
  b.least ≤ n ∧ ∀ m, b.greatest = some m → n ≤ m

def within (b : Bounds) (v : Value) : Fit Nat := do
  let n ← wholeNumber v
  if n < b.least then throw .tooSmall
  match b.greatest with
  | some m => if (m : Int) < n then throw .tooLarge
  | none => pure ()
  return n.toNat

/-- A setting that may be left out by giving null. -/
def optional {α : Type} (fit : Value → Fit α) : Value → Fit (Option α)
  | .null => .ok none
  | v => (fit v).map some

def wordsForTrue : List String := ["1", "t", "true", "y", "yes", "on"]

def wordsForFalse : List String := ["0", "f", "false", "n", "no", "off"]

def truthOfText (s : String) : Fit Bool :=
  if wordsForTrue.any (Text.equalsIgnoringCase s) then .ok true
  else if wordsForFalse.any (Text.equalsIgnoringCase s) then .ok false
  else .error .unreadableTruthValue

def truthOfNumber (n : Int) : Fit Bool :=
  if n = 0 then .ok false else if n = 1 then .ok true else .error .unreadableTruthValue

def truth : Value → Fit Bool
  | .bool b => .ok b
  | .int n => truthOfNumber n
  | .float x =>
      match numberOfFloat x with
      | .ok n => truthOfNumber n
      | .error _ => .error .noTruthValue
  | .text s => truthOfText s
  | _ => .error .noTruthValue

def text : Value → Fit String
  | .text s => .ok s
  | _ => .error .noText

def nonEmptyText (v : Value) : Fit String := do
  let s ← text v
  if s.isEmpty then throw .emptyText
  return s

def level : Value → Fit Severity
  | .text s =>
      match Severity.ofName? s with
      | some l => .ok l
      | none => .error .unknownLevel
  | _ => .error .unknownLevel

def momentOfNumber (negative : Bool) (r : Decimal.Ratio) : Fit Time.DateTime :=
  match Time.Instant.ofUnix? negative r with
  | some i => .ok i.toDateTime
  | none => .error .momentOutOfRange

def moment : Value → Fit Time.DateTime
  | .text s =>
      match Time.Rfc3339.read? s.toList with
      | some d => .ok d
      | none => .error .unreadableMoment
  | .int n => momentOfNumber (n < 0) ⟨n.natAbs, 1⟩
  | .float x =>
      match Decimal.Binary64.ofFloat x with
      | .finite negative mantissa exponent =>
          momentOfNumber negative (Decimal.Ratio.ofBinary mantissa exponent)
      | _ => .error .momentOutOfRange
  | .moment d => .ok d
  | _ => .error .noMoment

end Fit

end FeedIntake
