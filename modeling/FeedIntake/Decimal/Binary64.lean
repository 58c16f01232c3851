import FeedIntake.Decimal.Digits

/-! # Doubles as exact numbers

A finite double is `mantissa · 2 ^ exponent`. Every text of a double is computed from this pair in
exact arithmetic.
-/

namespace FeedIntake.Decimal

inductive Binary64 where
  | notANumber
  | infinite (negative : Bool)
  | finite (negative : Bool) (mantissa : Nat) (exponent : Int)
  deriving Repr, DecidableEq

def twoTo (n : Nat) : Nat := Nat.pow 2 n

def Binary64.ofFloat (x : Float) : Binary64 :=
  let bits : Nat := x.toBits.toNat
  let negative := bits / twoTo 63 == 1
  let biased : Nat := bits / twoTo 52 % twoTo 11
  let fraction : Nat := bits % twoTo 52
  if biased = 2047 then
    if fraction = 0 then .infinite negative else .notANumber
  else if biased = 0 then .finite negative fraction (-1074)
  else .finite negative (fraction + twoTo 52) ((biased : Int) - 1075)

/-- A non-negative number as a quotient; the denominator of a power of ten or two is positive. -/
structure Ratio where
  num : Nat
  den : Nat
  deriving Repr, DecidableEq

def Ratio.ofBinary (m : Nat) (e : Int) : Ratio :=
  if 0 ≤ e then ⟨m * twoTo e.toNat, 1⟩ else ⟨m, twoTo (-e).toNat⟩

/-- The quotient rounded to the nearest whole number, a half to the even one. -/
def Ratio.round (r : Ratio) : Nat :=
  let whole := r.num / r.den
  let twice := 2 * (r.num % r.den)
  if twice < r.den then whole
  else if r.den < twice then whole + 1
  else if whole % 2 = 0 then whole else whole + 1

def Ratio.shift (r : Ratio) (places : Int) : Ratio :=
  if 0 ≤ places then ⟨r.num * tenTo places.toNat, r.den⟩ else ⟨r.num, r.den * tenTo (-places).toNat⟩

def floatOfScaled (n : Int) (places : Nat) : Float :=
  match n with
  | .ofNat m => Float.ofScientific m true places
  | .negSucc m => -Float.ofScientific (m + 1) true places

end FeedIntake.Decimal
