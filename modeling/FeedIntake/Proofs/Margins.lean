import Mathlib.Data.List.DropRight
import FeedIntake.Text.Blank

/-! # Margins

Stripping a text takes the blanks at both ends and nothing else: blanks put around a text do not
change what is left, and what is left has no blank at either end, so stripping it again changes
nothing.
-/

namespace FeedIntake.Text

theorem trim_eq_self {cs : List Char} (hfirst : ∀ c, cs.head? = some c → isBlank c = false)
    (hlast : ∀ c, cs.getLast? = some c → isBlank c = false) : trim cs = cs := by
  have hend : cs.reverse.dropWhile isBlank = cs.reverse :=
    trimStart_eq_self fun c hc => hlast c (by rwa [List.head?_reverse] at hc)
  rw [trim, trimStart_eq_self hfirst, trimEnd, hend, List.reverse_reverse]

section

variable {before after : List Char} (hbefore : ∀ c ∈ before, isBlank c = true)
  (hafter : ∀ c ∈ after, isBlank c = true)

include hbefore in
theorem trimStart_append_of_blank (cs : List Char) : trimStart (before ++ cs) = trimStart cs :=
  List.dropWhile_append_of_pos hbefore

include hafter in
theorem trimEnd_append_of_blank (cs : List Char) : trimEnd (cs ++ after) = trimEnd cs := by
  have hafter' : ∀ c ∈ after.reverse, isBlank c = true := fun c hc =>
    hafter c (List.mem_reverse.mp hc)
  rw [trimEnd, List.reverse_append, List.dropWhile_append_of_pos hafter', trimEnd]

include hafter in
theorem trimEnd_trimStart_append (cs : List Char) :
    trimEnd (trimStart (cs ++ after)) = trimEnd (trimStart cs) := by
  induction cs with
  | nil =>
      -- nothing but the margin is left, and it goes from the front
      have hgone : trimStart after = [] := by
        rw [← List.append_nil after, trimStart_append_of_blank hafter]
        rfl
      rw [List.nil_append, hgone]
      rfl
  | cons c cs ih =>
      cases hc : isBlank c with
      | true => simpa [trimStart, hc] using ih
      | false =>
          have hkept : trimStart (c :: cs ++ after) = trimStart (c :: cs) ++ after := by
            simp [trimStart, hc]
          rw [hkept, trimEnd_append_of_blank hafter]

include hbefore hafter in
theorem trim_append (cs : List Char) : trim (before ++ cs ++ after) = trim cs := by
  rw [trim, List.append_assoc, trimStart_append_of_blank hbefore, trimEnd_trimStart_append hafter,
    trim]

end

theorem isBlank_of_head?_trim {cs : List Char} {c : Char} (h : (trim cs).head? = some c) :
    isBlank c = false := by
  obtain ⟨rest, hrest⟩ : trim cs <+: trimStart cs := List.rdropWhile_prefix isBlank _
  have hfirst : (trimStart cs).head? = some c := by
    rw [← hrest, List.head?_append, h, Option.some_or]
  rw [trimStart] at hfirst
  simpa [hfirst] using List.head?_dropWhile_not isBlank cs

theorem isBlank_of_getLast?_trim {cs : List Char} {c : Char} (h : (trim cs).getLast? = some c) :
    isBlank c = false := by
  rw [trim, trimEnd, List.getLast?_reverse] at h
  simpa [h] using List.head?_dropWhile_not isBlank (trimStart cs).reverse

theorem trim_trim (cs : List Char) : trim (trim cs) = trim cs :=
  trim_eq_self (fun _ => isBlank_of_head?_trim) (fun _ => isBlank_of_getLast?_trim)

theorem strip_strip (s : String) : strip (strip s) = strip s := by
  rw [strip, strip, String.toList_ofList, trim_trim]

end FeedIntake.Text
