import FeedIntake.Decimal.Binary64
import FeedIntake.Decimal.Digits

/-! # Fixed decimal places

A double with a given number of decimal places, rounded from its exact value, a half to the even
neighbour. The sign is kept also where nothing but zeros is left.
-/

namespace FeedIntake.Decimal

def fixedDigits (r : Ratio) (places : Nat) : List Char :=
  let scaled := (r.shift places).round
  let whole := natural (scaled / tenTo places)
  if places = 0 then whole else whole ++ '.' :: field places (scaled % tenTo places)

def fixedChars (x : Float) (places : Nat) : List Char :=
  match Binary64.ofFloat x with
  | .notANumber => "nan".toList
  | .infinite negative => (if negative then ['-'] else []) ++ "inf".toList
  | .finite negative m e => (if negative then ['-'] else []) ++ fixedDigits (.ofBinary m e) places

def fixed (x : Float) (places : Nat) : String := String.ofList (fixedChars x places)

end FeedIntake.Decimal
