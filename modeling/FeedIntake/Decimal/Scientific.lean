import FeedIntake.Decimal.Fixed
import FeedIntake.Decimal.Shortest

/-! # Doubles in scientific notation

A double with a given number of significant digits, rounded from its exact value, and the general
form that uses scientific notation only for very large and very small numbers.
-/

namespace FeedIntake.Decimal

/-- The first `count` significant digits of a number, rounded; nought has only noughts. -/
def significant (r : Ratio) (count : Nat) : Significand :=
  if r.num = 0 then ⟨0, 1⟩
  else
    let point := r.magnitude
    let digits := (r.shift (count - point)).round
    if digits = tenTo count then ⟨digits / 10, point + 1⟩ else ⟨digits, point⟩

def exponentChars (letter : Char) (e : Int) : List Char :=
  letter :: (if e < 0 then '-' else '+') :: padLeft 2 '0' (natural e.natAbs)

def pointed (digits : List Char) (places : Nat) (keepPoint : Bool) : List Char :=
  let whole := digits.take (digits.length - places)
  if places = 0 then if keepPoint then whole ++ ['.'] else whole
  else whole ++ '.' :: digits.drop (digits.length - places)

def scientificDigits (r : Ratio) (places : Nat) (letter : Char) (keepPoint : Bool) : List Char :=
  let s := significant r (places + 1)
  pointed (field (places + 1) s.digits) places keepPoint ++ exponentChars letter (s.point - 1)

/-- Drops the noughts that end a fraction, and the point where nothing follows it. -/
def trimFraction (cs : List Char) : List Char :=
  if cs.contains '.' then
    let kept := dropZerosAtEnd cs
    if kept.getLast? = some '.' then kept.dropLast else kept
  else cs

/-- Positional for exponents from -4 up to below the number of digits, scientific otherwise. -/
def generalDigits (r : Ratio) (count : Nat) (letter : Char) (keepZeros : Bool) : List Char :=
  let count := max count 1
  let s := significant r count
  let e := s.point - 1
  let trim := if keepZeros then id else trimFraction
  if -4 ≤ e && e < count then
    let places := (count - 1 - e).toNat
    trim (fixedDigits r places ++ (if places = 0 && keepZeros then ['.'] else []))
  else
    trim (pointed (field count s.digits) (count - 1) keepZeros) ++ exponentChars letter e

end FeedIntake.Decimal
