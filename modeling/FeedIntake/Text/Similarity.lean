/-! # Similar words

Two words are the more alike the more characters they have in common: those of the longest block
that stands in both, and then those to the left and to the right of it, likewise.
-/

namespace FeedIntake.Text

def commonStart : List Char → List Char → Nat
  | c :: cs, d :: ds => if c = d then commonStart cs ds + 1 else 0
  | _, _ => 0

/-- The longest block that stands in both texts: where it begins in each, and its length. -/
def longestBlock (a b : List Char) : Nat × Nat × Nat :=
  let places := (List.range a.length).flatMap fun i => (List.range b.length).map fun j => (i, j)
  places.foldl (fun best p =>
    let length := commonStart (a.drop p.1) (b.drop p.2)
    if best.2.2 < length then (p.1, p.2, length) else best) (0, 0, 0)

/-- The number of characters in common, looked for in at most `depth` stages. -/
def commonCharsTo : Nat → List Char → List Char → Nat
  | 0, _, _ => 0
  | depth + 1, a, b =>
      let (i, j, length) := longestBlock a b
      if length = 0 then 0
      else
        length + commonCharsTo depth (a.take i) (b.take j) +
          commonCharsTo depth (a.drop (i + length)) (b.drop (j + length))

def commonChars (a b : List Char) : Nat := commonCharsTo a.length a b

def areSimilar (a b : List Char) : Bool := 3 * (a.length + b.length) ≤ 10 * commonChars a b

/-- The words similar to a given one, three at most, in their order. -/
def similarTo (word : String) (words : List String) : List String :=
  let scored := (words.filter fun w => areSimilar w.toList word.toList).map fun w =>
    (w, commonChars w.toList word.toList, w.length)
  let atLeast (x y : String × Nat × Nat) : Bool :=
    y.2.1 * (x.2.2 + word.length) ≤ x.2.1 * (y.2.2 + word.length)
  ((scored.mergeSort atLeast).take 3).map (·.1) |>.mergeSort fun x y => !decide (y < x)

end FeedIntake.Text
