import FeedIntake.Url
import Mathlib.Data.List.Nodup

/-! # Lists of sources

A list of URLs is checked from the first to the last. It is refused at the first that is none; else
what is kept holds all of them, each once.
-/

namespace FeedIntake.Url

def keep (kept : List String) (url : Value) : Except UrlFault (List String) := do
  let checked ← validate url
  return if kept.contains checked then kept else kept ++ [checked]

theorem validateAll_eq (urls : List Value) : validateAll urls = urls.foldlM keep [] := rfl

section

variable {kept out : List String} {url : Value} {urls : List Value} {checked : String}
  {fault : UrlFault}

theorem keep_of_error (h : validate url = .error fault) : keep kept url = .error fault := by
  rw [keep, h]
  rfl

theorem keep_of_ok (h : validate url = .ok checked) :
    keep kept url = .ok (if checked ∈ kept then kept else kept ++ [checked]) := by
  rw [keep, h]
  show Except.ok (if kept.contains checked then kept else kept ++ [checked]) = _
  simp only [List.contains_iff_mem]

/-- A list of URLs is what they were checked to be, none of them twice. -/
structure Lists (urls : List Value) (kept out : List String) : Prop where
  nodup : kept.Nodup → out.Nodup
  keeps : ∀ u ∈ kept, u ∈ out
  checked : ∀ url ∈ urls, ∃ u ∈ out, validate url = .ok u
  only : ∀ u ∈ out, u ∈ kept ∨ ∃ url ∈ urls, validate url = .ok u

theorem Lists.refl (kept : List String) : Lists [] kept kept where
  nodup := id
  keeps := fun _ => id
  checked := fun _ hurl => absurd hurl List.not_mem_nil
  only := fun _ => .inl

theorem Lists.cons (hvalid : validate url = .ok checked)
    (lists : Lists urls (if checked ∈ kept then kept else kept ++ [checked]) out) :
    Lists (url :: urls) kept out := by
  by_cases hmem : checked ∈ kept
  · rw [if_pos hmem] at lists
    refine ⟨lists.nodup, lists.keeps, fun u hu => ?_, fun u hu => ?_⟩
    · rcases List.mem_cons.mp hu with rfl | hu
      · exact ⟨checked, lists.keeps checked hmem, hvalid⟩
      · exact lists.checked u hu
    · exact (lists.only u hu).imp_right fun ⟨v, hv, heq⟩ => ⟨v, List.mem_cons_of_mem _ hv, heq⟩
  · rw [if_neg hmem] at lists
    refine ⟨fun hnodup => lists.nodup ?_, fun u hu => lists.keeps u (List.mem_append_left _ hu),
      fun u hu => ?_, fun u hu => ?_⟩
    · exact List.nodup_append.mpr ⟨hnodup, List.nodup_singleton _, fun a ha b hb =>
        ne_of_mem_of_not_mem ha (List.mem_singleton.mp hb ▸ hmem)⟩
    · rcases List.mem_cons.mp hu with rfl | hu
      · exact ⟨checked, lists.keeps checked (by simp), hvalid⟩
      · exact lists.checked u hu
    · rcases lists.only u hu with hkept | ⟨v, hv, heq⟩
      · rcases List.mem_append.mp hkept with hkept | hnew
        · exact .inl hkept
        · exact .inr ⟨url, List.mem_cons_self, by rw [hvalid, List.mem_singleton.mp hnew]⟩
      · exact .inr ⟨v, List.mem_cons_of_mem _ hv, heq⟩

/-- The induction is on the URLs that are still to be checked. -/
theorem foldlM_keep_cases (urls : List Value) (kept : List String) :
    (∃ out, urls.foldlM keep kept = .ok out ∧ Lists urls kept out) ∨
      ∃ fault, urls.foldlM keep kept = .error fault ∧
        ∃ url ∈ urls, validate url = .error fault := by
  induction urls generalizing kept with
  | nil => exact .inl ⟨kept, rfl, .refl kept⟩
  | cons url rest ih =>
      rw [List.foldlM_cons]
      cases hvalid : validate url with
      | error fault =>
          rw [keep_of_error hvalid]
          exact .inr ⟨fault, rfl, url, List.mem_cons_self, hvalid⟩
      | ok checked =>
          rw [keep_of_ok hvalid]
          rcases ih (if checked ∈ kept then kept else kept ++ [checked]) with
            ⟨out, hout, lists⟩ | ⟨fault, hfault, u, hu, heq⟩
          · exact .inl ⟨out, hout, lists.cons hvalid⟩
          · exact .inr ⟨fault, hfault, u, List.mem_cons_of_mem _ hu, heq⟩

theorem lists_of_validateAll (h : validateAll urls = .ok out) : Lists urls [] out := by
  rw [validateAll_eq] at h
  rcases foldlM_keep_cases urls [] with ⟨out', hout, lists⟩ | ⟨fault, hfault, -⟩
  · rw [h] at hout
    cases hout
    exact lists
  · rw [h] at hfault
    cases hfault

theorem exists_validateAll_error_iff :
    (∃ fault, validateAll urls = .error fault) ↔
      ∃ url ∈ urls, ∃ fault, validate url = .error fault := by
  rw [validateAll_eq]
  rcases foldlM_keep_cases urls [] with ⟨out, hout, lists⟩ | ⟨fault, hfault, url, hurl, heq⟩
  · rw [hout]
    refine iff_of_false (by simp) ?_
    rintro ⟨url, hurl, fault, hfault⟩
    obtain ⟨u, -, hu⟩ := lists.checked url hurl
    rw [hu] at hfault
    cases hfault
  · exact iff_of_true ⟨fault, hfault⟩ ⟨url, hurl, fault, heq⟩

theorem validateAll_ne_nil (h : validateAll urls = .ok out) (hurls : urls ≠ []) : out ≠ [] := by
  obtain ⟨url, hurl⟩ := List.exists_mem_of_ne_nil urls hurls
  obtain ⟨u, hu, -⟩ := (lists_of_validateAll h).checked url hurl
  exact List.ne_nil_of_mem hu

theorem validateAll_nodup (h : validateAll urls = .ok out) : out.Nodup :=
  (lists_of_validateAll h).nodup List.nodup_nil

end

end FeedIntake.Url
