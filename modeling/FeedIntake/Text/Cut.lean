/-! # Cutting text

Text cut at a character: at its first occurrence, after its last, or at every one.
-/

namespace FeedIntake.Text

/-- The part before the first `c` and, when there is one, the part after it. -/
def cut (c : Char) : List Char → List Char × Option (List Char)
  | [] => ([], none)
  | d :: rest =>
      if d = c then ([], some rest)
      else
        let (before, after) := cut c rest
        (d :: before, after)

theorem cut_eq_none {c : Char} {cs : List Char} (h : c ∉ cs) : cut c cs = (cs, none) := by
  induction cs with
  | nil => rfl
  | cons d rest ih =>
      simp only [List.mem_cons, not_or] at h
      simp [cut, Ne.symm h.1, ih h.2]

theorem cut_append {c : Char} (before after : List Char) (h : c ∉ before) :
    cut c (before ++ c :: after) = (before, some after) := by
  induction before with
  | nil => simp [cut]
  | cons d rest ih =>
      simp only [List.mem_cons, not_or] at h
      simp [cut, Ne.symm h.1, ih h.2]

/-- What follows the last `c`; everything when there is none. -/
def afterLast (c : Char) (cs : List Char) : List Char :=
  (cs.reverse.takeWhile fun d => d != c).reverse

/-- The parts between the occurrences of `c`, one more than there are occurrences. -/
def pieces (c : Char) : List Char → List (List Char)
  | [] => [[]]
  | d :: rest =>
      match pieces c rest with
      | [] => [[d]]
      | piece :: others => if d = c then [] :: piece :: others else (d :: piece) :: others

end FeedIntake.Text
