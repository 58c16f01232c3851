/-! # Decimal digits

Numbers as digits and back. A field of fixed width is written most significant digit first, so a
field that is wide enough reads back as the number it was written from.
-/

namespace FeedIntake.Decimal

def digitChar (d : Nat) : Char := Char.ofNat (0x30 + d)

/-- The value of an ASCII digit; no other script's digits count. -/
def digit? (c : Char) : Option Nat :=
  if '0' ≤ c ∧ c ≤ '9' then some (c.toNat - 0x30) else none

def isDigit (c : Char) : Bool := (digit? c).isSome

theorem digit?_digitChar {d : Nat} (h : d < 10) : digit? (digitChar d) = some d := by
  match d, h with
  | 0, _ | 1, _ | 2, _ | 3, _ | 4, _ | 5, _ | 6, _ | 7, _ | 8, _ | 9, _ => decide

def tenTo (noughts : Nat) : Nat := Nat.pow 10 noughts

theorem tenTo_succ (n : Nat) : tenTo (n + 1) = tenTo n * 10 := rfl

/-- Exactly `width` digits of `n`, most significant first. -/
def field : Nat → Nat → List Char
  | 0, _ => []
  | width + 1, n => digitChar (n / tenTo width % 10) :: field width n

theorem field_length (width n : Nat) : (field width n).length = width := by
  induction width with
  | zero => rfl
  | succ width ih => simp [field, ih]

/-- Reads exactly `width` digits onto what was read before and returns the rest. -/
def readField : Nat → List Char → Nat → Option (Nat × List Char)
  | 0, cs, read => some (read, cs)
  | _ + 1, [], _ => none
  | width + 1, c :: cs, read =>
      match digit? c with
      | some d => readField width cs (read * 10 + d)
      | none => none

theorem readField_field (width n read : Nat) (rest : List Char) :
    readField width (field width n ++ rest) read =
      some (read * tenTo width + n % tenTo width, rest) := by
  induction width generalizing read with
  | zero => simp [readField, field, tenTo, Nat.mod_one]
  | succ width ih =>
      have hd : n / tenTo width % 10 < 10 := Nat.mod_lt _ (by decide)
      have hm : n % tenTo (width + 1) =
          tenTo width * (n / tenTo width % 10) + n % tenTo width := by
        rw [tenTo_succ, Nat.mod_mul, Nat.add_comm]
      simp only [field, List.cons_append, readField, digit?_digitChar hd, ih, hm]
      congr 2
      rw [tenTo_succ, Nat.add_mul, Nat.mul_assoc, Nat.mul_comm 10, Nat.add_assoc,
        Nat.mul_comm (n / tenTo width % 10)]

def natural (n : Nat) : List Char := Nat.toDigits 10 n

/-- The most digits that a whole number is read or written with. -/
def mostDigits : Nat := 4300

def isWritable (n : Int) : Bool := (natural n.natAbs).length ≤ mostDigits

/-- The value of a run of digits read onto an earlier value; other characters are skipped. -/
def valueOf (cs : List Char) (read : Nat) : Nat :=
  cs.foldl (fun acc c => match digit? c with
    | some d => acc * 10 + d
    | none => acc) read

def integer (n : Int) : List Char :=
  match n with
  | .ofNat m => natural m
  | .negSucc m => '-' :: natural (m + 1)

/-- Puts `fill` in front until the text has `width` characters. -/
def padLeft (width : Nat) (fill : Char) (cs : List Char) : List Char :=
  List.replicate (width - cs.length) fill ++ cs

end FeedIntake.Decimal
