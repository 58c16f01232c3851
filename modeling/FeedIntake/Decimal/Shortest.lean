import FeedIntake.Decimal.Binary64
import FeedIntake.Decimal.Digits

/-! # Shortest decimal text of a double

The fewest significant digits that read back as the same double and, among those, the nearest. The
numbers that read back as a double are those between the midpoints to its neighbours, the midpoints
themselves included when the mantissa is even.
-/

namespace FeedIntake.Decimal

/-- The decimal exponent `d` with `10 ^ (d - 1) ≤ r < 10 ^ d`, for a positive number. -/
def Ratio.magnitude (r : Ratio) : Int :=
  if r.den ≤ r.num then (natural (r.num / r.den)).length
  else 1 - search 400 1
where
  /-- The least number of places, from `places` on, that brings the number to one or above. -/
  search : Nat → Nat → Nat
    | 0, places => places
    | fuel + 1, places =>
        if r.den ≤ r.num * tenTo places then places else search fuel (places + 1)

structure Significand where
  digits : Nat
  point : Int
  deriving Repr, DecidableEq

/-- Whether `candidate · 10 ^ unit` reads back as `mantissa · 2 ^ exponent`. -/
def readsBack (mantissa : Nat) (exponent : Int) (candidate : Nat) (unit : Int) : Bool :=
  let closed := mantissa % 2 = 0
  let below := if mantissa = twoTo 52 ∧ exponent ≠ -1074 then 1 else 2
  let c := (Ratio.mk candidate 1).shift unit
  let low := Ratio.ofBinary (4 * mantissa - below) (exponent - 2)
  let high := Ratio.ofBinary (4 * mantissa + 2) (exponent - 2)
  let left := (low.num * c.den, c.num * low.den)
  let right := (c.num * high.den, high.num * c.den)
  (if closed then left.1 ≤ left.2 else left.1 < left.2) &&
    (if closed then right.1 ≤ right.2 else right.1 < right.2)

/-- The one of two neighbours on a decimal grid that reads back and is nearer to the number. -/
def onGrid (mantissa : Nat) (exponent : Int) (unit : Int) : Option Nat :=
  let scaled := (Ratio.ofBinary mantissa exponent).shift (-unit)
  let lower := scaled.num / scaled.den
  let upper := lower + 1
  let nearest := scaled.round
  let other := if nearest = lower then upper else lower
  if nearest ≠ 0 && readsBack mantissa exponent nearest unit then some nearest
  else if other ≠ 0 && readsBack mantissa exponent other unit then some other
  else none

/-- Tries one significant digit, then two, and so on; seventeen always suffice. -/
def shortestFrom (mantissa : Nat) (exponent magnitude : Int) : Nat → Nat → Significand
  | 0, count => ⟨((Ratio.ofBinary mantissa exponent).shift (count - magnitude)).round, magnitude⟩
  | fuel + 1, count =>
      let unit := magnitude - count
      match onGrid mantissa exponent unit with
      | some digits => ⟨digits, unit + (natural digits).length⟩
      | none => shortestFrom mantissa exponent magnitude fuel (count + 1)

def shortest (mantissa : Nat) (exponent : Int) : Significand :=
  shortestFrom mantissa exponent (Ratio.ofBinary mantissa exponent).magnitude 16 1

/-- How the digits are laid out: the point is written out for magnitudes from `least` to `most`,
and otherwise an exponent of at least `exponentWidth` digits is used. -/
structure Layout where
  least : Int
  most : Int
  exponentWidth : Nat
  notANumber : String
  infinity : String

/-- Plain texts: positional from `0.0001` up to below `1e16`, always with a fractional part. -/
def Layout.plain : Layout := ⟨-3, 16, 2, "nan", "inf"⟩

def Layout.json : Layout := ⟨-3, 16, 2, "NaN", "Infinity"⟩

def dropZerosAtEnd (cs : List Char) : List Char := (cs.reverse.dropWhile (· == '0')).reverse

def Layout.exponent (l : Layout) (e : Int) : List Char :=
  'e' :: (if e < 0 then '-' else '+') :: padLeft l.exponentWidth '0' (natural e.natAbs)

def Layout.write (l : Layout) (s : Significand) : List Char :=
  let ds := dropZerosAtEnd (natural s.digits)
  if l.least ≤ s.point && s.point ≤ l.most then
    if s.point ≤ 0 then '0' :: '.' :: List.replicate (-s.point).toNat '0' ++ ds
    else
      let count := s.point.toNat
      let whole := ds.take count ++ List.replicate (count - ds.length) '0'
      let rest := ds.drop count
      whole ++ '.' :: (if rest.isEmpty then ['0'] else rest)
  else
    match ds with
    | [] => []
    | [d] => d :: l.exponent (s.point - 1)
    | d :: rest => d :: '.' :: rest ++ l.exponent (s.point - 1)

def Layout.chars (l : Layout) (x : Float) : List Char :=
  match Binary64.ofFloat x with
  | .notANumber => l.notANumber.toList
  | .infinite negative => (if negative then ['-'] else []) ++ l.infinity.toList
  | .finite negative m e =>
      (if negative then ['-'] else []) ++
        (if m = 0 then "0.0".toList else l.write (shortest m e))

def Layout.text (l : Layout) (x : Float) : String := String.ofList (l.chars x)

end FeedIntake.Decimal
