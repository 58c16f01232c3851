import FeedIntake.Decimal.Digits
import FeedIntake.Text.Blank

/-! # Whole numbers as people write them

A sign and digits, with blanks around them and single low lines between the digits. The digits of
every script count.
-/

namespace FeedIntake.Decimal

/-- The noughts of all scripts that have digits of their own. Nine more digits follow each. -/
def noughts : List Nat :=
  [0x30, 0x660, 0x6f0, 0x7c0, 0x966, 0x9e6, 0xa66, 0xae6, 0xb66, 0xbe6, 0xc66, 0xce6, 0xd66,
    0xde6, 0xe50, 0xed0, 0xf20, 0x1040, 0x1090, 0x17e0, 0x1810, 0x1946, 0x19d0, 0x1a80, 0x1a90,
    0x1b50, 0x1bb0, 0x1c40, 0x1c50, 0xa620, 0xa8d0, 0xa900, 0xa9d0, 0xa9f0, 0xaa50, 0xabf0, 0xff10,
    0x104a0, 0x10d30, 0x11066, 0x110f0, 0x11136, 0x111d0, 0x112f0, 0x11450, 0x114d0, 0x11650,
    0x116c0, 0x11730, 0x118e0, 0x11950, 0x11c50, 0x11d50, 0x11da0, 0x16a60, 0x16ac0, 0x16b50,
    0x1d7ce, 0x1d7d8, 0x1d7e2, 0x1d7ec, 0x1d7f6, 0x1e140, 0x1e2f0, 0x1e950, 0x1fbf0]

def scriptDigit? (c : Char) : Option Nat :=
  noughts.findSome? fun n => if n ≤ c.toNat ∧ c.toNat < n + 10 then some (c.toNat - n) else none

/-- Digits with single low lines between them. -/
def digitsOf? : List Char → Option (List Nat)
  | [] => some []
  | '_' :: c :: rest => do return (← scriptDigit? c) :: (← digitsOf? rest)
  | c :: rest => do return (← scriptDigit? c) :: (← digitsOf? rest)

def magnitude? (cs : List Char) : Option Nat :=
  match cs with
  | [] | '_' :: _ => none
  | _ =>
      (digitsOf? cs).bind fun digits =>
        if mostDigits < digits.length then none
        else some (digits.foldl (fun n d => n * 10 + d) 0)

/-- The number that a text stands for. -/
def wholeOfText? (s : String) : Option Int :=
  match Text.trim s.toList with
  | '-' :: cs => (magnitude? cs).map fun n => -(n : Int)
  | '+' :: cs => (magnitude? cs).map Int.ofNat
  | cs => (magnitude? cs).map Int.ofNat

end FeedIntake.Decimal
