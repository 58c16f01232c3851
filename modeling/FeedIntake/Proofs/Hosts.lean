import FeedIntake.Proofs.ValidSources

/-! # Hosts of accepted URLs

A URL that is accepted names a scheme for feeds and has an authority. That the authority names a
host is not looked at: it may be nothing but user information and a port. Brackets make sure of a
host, since they are only let pass around an address.
-/

namespace FeedIntake

/-! ## Cutting -/

namespace Text

variable {c : Char} {cs before after : List Char}

theorem cut_eq_some_iff :
    cut c cs = (before, some after) ↔ cs = before ++ c :: after ∧ c ∉ before := by
  constructor
  · intro h
    by_cases hmem : c ∈ cs
    · obtain ⟨first, second, rfl, hfirst⟩ := List.eq_append_cons_of_mem hmem
      rw [cut_append first second hfirst] at h
      cases h
      exact ⟨rfl, hfirst⟩
    · rw [cut_eq_none hmem] at h
      cases h
  · rintro ⟨rfl, hbefore⟩
    exact cut_append before after hbefore

/-- Nothing stands before the first `c` if the text is empty or begins with it. -/
theorem cut_fst_eq_nil_iff : (cut c cs).1 = [] ↔ ∀ d, cs.head? = some d → d = c := by
  cases cs with
  | nil => simp [cut]
  | cons d rest =>
      rw [cut]
      split <;> simp_all

theorem afterLast_append (hbefore : ∀ d, before.getLast? = some d → d = c) (hafter : c ∉ after) :
    afterLast c (before ++ after) = after := by
  have hkept : ∀ d ∈ after.reverse, (d != c) = true := fun d hd =>
    bne_iff_ne.mpr (ne_of_mem_of_not_mem (List.mem_reverse.mp hd) hafter)
  have hstop : before.reverse.takeWhile (· != c) = [] := by
    rw [List.takeWhile_eq_nil_iff]
    intro hpos
    have hlast := hbefore (before.reverse[0]) (by
      rw [← List.head?_reverse, List.head?_eq_getElem?, List.getElem?_eq_getElem hpos])
    simp [hlast]
  rw [afterLast, List.reverse_append, List.takeWhile_append_of_pos hkept, hstop, List.append_nil,
    List.reverse_reverse]

/-- A text is what stands up to the last `c`, and what follows it. -/
theorem exists_append_afterLast (c : Char) (cs : List Char) :
    ∃ before, cs = before ++ afterLast c cs ∧ (∀ d, before.getLast? = some d → d = c) ∧
      c ∉ afterLast c cs := by
  refine ⟨cs.rdropWhile (· != c), (List.rdropWhile_append_rtakeWhile).symm, ?_, ?_⟩
  · intro d hd
    rw [List.rdropWhile, List.getLast?_reverse] at hd
    simpa [hd] using List.head?_dropWhile_not (· != c) cs.reverse
  · intro hmem
    exact absurd (List.mem_rtakeWhile_imp hmem) (by simp)

end Text

namespace Url

/-! ## How an accepted URL is written -/

/-- A URL as it is looked at: a scheme for feeds in letters of either case, the authority after two
slashes, and what a slash, a question mark or a hash begins. -/
structure IsWritten (u : String) (scheme authority tail : List Char) : Prop where
  whole : cleaned u.toList = scheme ++ ':' :: '/' :: '/' :: (authority ++ tail)
  scheme_allowed : scheme.map Char.toLower ∈ allowedSchemes
  authority_within : ∀ c ∈ authority, endsAuthority c = false
  tail_begins : ∀ c, tail.head? = some c → endsAuthority c = true

/-- An authority that is taken for one. It has both brackets or none, an address where it has them,
and no character that could be read as a delimiter. -/
structure IsSound (authority : List Char) : Prop where
  brackets : checkBrackets authority = .ok ()
  lookalikes : ∀ c ∈ authority, isLookalike c = false

theorem isLetter_of_toLower {c : Char} (h : isLetter c.toLower = true) : isLetter c = true := by
  unfold Char.toLower at h
  split at h
  · rename_i hupper
    have hbounds : 'A' ≤ c ∧ c ≤ 'Z' := ⟨hupper.1, hupper.2⟩
    simp [isLetter, hbounds]
  · exact h

/-- Whatever is a scheme for feeds in lower case is made of letters. -/
theorem isLetter_of_allowed {scheme : List Char} (h : scheme.map Char.toLower ∈ allowedSchemes) :
    ∀ c ∈ scheme, isLetter c = true := by
  have hletters : (allowedSchemes.all fun allowed => allowed.all isLetter) = true := by decide
  intro c hc
  have hallowed := List.all_eq_true.mp hletters _ h
  exact isLetter_of_toLower (List.all_eq_true.mp hallowed _ (List.mem_map_of_mem hc))

theorem isSchemeChar_of_isLetter {c : Char} (h : isLetter c = true) : isSchemeChar c = true := by
  simp [isSchemeChar, h]

section

variable {u : String} {scheme authority tail : List Char}

theorem IsWritten.splitScheme (written : IsWritten u scheme authority tail) :
    Url.splitScheme (cleaned u.toList) =
      (scheme.map Char.toLower, '/' :: '/' :: (authority ++ tail)) := by
  have hletters := isLetter_of_allowed written.scheme_allowed
  have hcolon : ':' ∉ scheme := fun hmem => absurd (hletters _ hmem) (by decide)
  have hchars : scheme.all isSchemeChar = true :=
    List.all_eq_true.mpr fun c hc => isSchemeChar_of_isLetter (hletters c hc)
  have hfirst : (scheme.head?.map isLetter).getD false = true := by
    cases hscheme : scheme with
    | nil =>
        have hallowed := written.scheme_allowed
        rw [hscheme] at hallowed
        exact absurd hallowed (by decide)
    | cons c rest =>
        exact hletters c (hscheme ▸ List.mem_cons_self)
  rw [written.whole, Url.splitScheme, Text.cut_append _ _ hcolon]
  simp [hfirst, hchars]

theorem IsWritten.authorityOf (written : IsWritten u scheme authority tail) :
    Url.authorityOf ('/' :: '/' :: (authority ++ tail)) = authority := by
  have hwithin : ∀ c ∈ authority, (!endsAuthority c) = true := fun c hc => by
    rw [written.authority_within c hc]
    rfl
  have hstop : tail.takeWhile (!endsAuthority ·) = [] := by
    cases htail : tail with
    | nil => rfl
    | cons c rest =>
        have hends := written.tail_begins c (by rw [htail]; rfl)
        simp [hends]
  rw [Url.authorityOf, List.takeWhile_append_of_pos hwithin, hstop, List.append_nil]

/-- A URL is written in one way only. -/
theorem IsWritten.split_eq_ok_iff (written : IsWritten u scheme authority tail) {parts : Parts} :
    split u.toList = .ok parts ↔
      IsSound authority ∧ parts = ⟨scheme.map Char.toLower, authority⟩ := by
  rw [split, written.splitScheme]
  dsimp only
  rw [written.authorityOf]
  have hlook : authority.any isLookalike = true ↔ ¬∀ c ∈ authority, isLookalike c = false := by
    simp
  cases hbrackets : checkBrackets authority with
  | error why =>
      refine iff_of_false (fun h => by cases h) fun h => ?_
      cases hbrackets.symm.trans h.1.brackets
  | ok _ =>
      by_cases hany : authority.any isLookalike = true
      · refine iff_of_false (fun h => ?_) fun h => hlook.mp hany h.1.lookalikes
        simp only [bind, Except.bind, hany, if_true] at h
        cases h
      · have hsound : IsSound authority := ⟨hbrackets, by simpa [hlook] using hany⟩
        simp only [bind, Except.bind, hany]
        constructor
        · intro h
          cases h
          exact ⟨hsound, rfl⟩
        · rintro ⟨-, rfl⟩
          rfl

theorem parts_of_split {cs : List Char} {parts : Parts} (h : split cs = .ok parts) :
    parts.scheme = (Url.splitScheme (cleaned cs)).1 ∧
      parts.authority = Url.authorityOf (Url.splitScheme (cleaned cs)).2 := by
  rw [split] at h
  generalize Url.splitScheme (cleaned cs) = pieces at h ⊢
  obtain ⟨found, rest⟩ := pieces
  obtain ⟨_, -, h⟩ := exists_of_bind_eq_ok h
  by_cases hany : (Url.authorityOf rest).any isLookalike = true
  · rw [if_pos hany] at h
    cases h
  · rw [if_neg hany] at h
    cases h
    exact ⟨rfl, rfl⟩

theorem splitScheme_cases (cs : List Char) : Url.splitScheme cs = ([], cs) ∨
    ∃ before after, cs = before ++ ':' :: after ∧
      Url.splitScheme cs = (before.map Char.toLower, after) := by
  unfold Url.splitScheme
  split
  · rename_i before after hcut
    split
    · exact .inr ⟨before, after, (Text.cut_eq_some_iff.mp hcut).1, rfl⟩
    · exact .inl rfl
  · exact .inl rfl

theorem eq_append_of_authorityOf {cs found : List Char} (h : Url.authorityOf cs = found)
    (hfound : found ≠ []) : ∃ rest, cs = '/' :: '/' :: (found ++ rest) ∧
      (∀ c ∈ found, endsAuthority c = false) ∧
      ∀ c, rest.head? = some c → endsAuthority c = true := by
  unfold Url.authorityOf at h
  split at h
  · rename_i rest
    subst h
    refine ⟨rest.dropWhile (!endsAuthority ·), by rw [List.takeWhile_append_dropWhile],
      fun c hc => ?_, fun c hc => ?_⟩
    · simpa using List.mem_takeWhile_imp hc
    · simpa [hc] using List.head?_dropWhile_not (!endsAuthority ·) rest
  · exact absurd h.symm hfound

/-- A URL that splits into a scheme for feeds and an authority is written as one. -/
theorem exists_isWritten {parts : Parts} (h : split u.toList = .ok parts)
    (hscheme : parts.scheme ∈ allowedSchemes) (hauthority : parts.authority ≠ []) :
    ∃ scheme tail, IsWritten u scheme parts.authority tail := by
  obtain ⟨hfound, hrest⟩ := parts_of_split h
  rcases splitScheme_cases (cleaned u.toList) with hnone | ⟨before, after, hwhole, hsplit⟩
  · have hnil : [] ∉ allowedSchemes := by decide
    rw [hfound, hnone] at hscheme
    exact absurd hscheme hnil
  · rw [hsplit] at hfound hrest
    rw [hfound] at hscheme
    obtain ⟨tail, rfl, hwithin, htail⟩ := eq_append_of_authorityOf hrest.symm hauthority
    exact ⟨before, tail, hwhole, hscheme, hwithin, htail⟩

/-! ## The host -/

/-- The host of an authority: neither user information, up to the last at sign, nor a port, from a
colon outside of brackets, is part of it. -/
def hostOf (authority : List Char) : List Char :=
  let hostAndPort := Text.afterLast '@' authority
  match Text.cut '[' hostAndPort with
  | (_, some inside) => (Text.cut ']' inside).1
  | (_, none) => (Text.cut ':' hostAndPort).1

/-- An authority that is nothing but user information, which an at sign ends, and a port, which a
colon begins. -/
def IsHostless (authority : List Char) : Prop :=
  ∃ user port, authority = user ++ port ∧ (∀ c, user.getLast? = some c → c = '@') ∧
    '@' ∉ port ∧ ∀ c, port.head? = some c → c = ':'

theorem hostOf_eq_nil_iff (h : '[' ∉ authority) : hostOf authority = [] ↔ IsHostless authority := by
  obtain ⟨user, heq, huser, hat⟩ := Text.exists_append_afterLast '@' authority
  have hopen : '[' ∉ Text.afterLast '@' authority := by
    rw [heq] at h
    exact fun hmem => h (List.mem_append_right _ hmem)
  rw [hostOf]
  simp only [Text.cut_eq_none hopen, Text.cut_fst_eq_nil_iff]
  constructor
  · intro hport
    exact ⟨user, _, heq, huser, hat, hport⟩
  · rintro ⟨user, port, rfl, huser, hat, hport⟩
    rwa [Text.afterLast_append huser hat]

theorem hostOf_of_bracketedHost {host : List Char} (h : bracketedHost authority = .ok host) :
    hostOf authority = host := by
  rw [bracketedHost] at h
  rw [hostOf]
  dsimp only at h ⊢
  generalize Text.cut '[' (Text.afterLast '@' authority) = pieces at h ⊢
  obtain ⟨before, inside⟩ := pieces
  cases inside with
  | none =>
      cases h
      rfl
  | some inside =>
      dsimp only at h ⊢
      split at h
      · cases h
      · split at h
        · split at h
          · cases h
            rfl
          · cases h
        · cases h
          rfl

theorem ne_nil_of_checkBracketedHost {host : List Char} (h : checkBracketedHost host = .ok ()) :
    host ≠ [] := by
  rintro rfl
  cases h

/-- Where there is a bracket there is a host. -/
theorem IsSound.hostOf_eq_nil_iff (sound : IsSound authority) :
    hostOf authority = [] ↔ IsHostless authority ∧ '[' ∉ authority ∧ ']' ∉ authority := by
  have hbrackets := sound.brackets
  unfold checkBrackets at hbrackets
  split at hbrackets
  · rename_i hopen hclose
    have hopen' : '[' ∉ authority := by simpa using hopen
    have hclose' : ']' ∉ authority := by simpa using hclose
    rw [Url.hostOf_eq_nil_iff hopen']
    exact (and_iff_left ⟨hopen', hclose'⟩).symm
  · rename_i hopen hclose
    obtain ⟨host, hhost, hchecked⟩ := exists_of_bind_eq_ok hbrackets
    refine iff_of_false (fun hnil => ?_) fun h => h.2.1 (by simpa using hopen)
    exact ne_nil_of_checkBracketedHost hchecked (hostOf_of_bracketedHost hhost ▸ hnil)
  · cases hbrackets

end

/-! ## What is accepted -/

theorem locates_iff {u : String} : Locates u ↔ ∃ scheme authority tail,
    IsWritten u scheme authority tail ∧ authority ≠ [] ∧ IsSound authority := by
  constructor
  · rintro ⟨parts, hsplit, hscheme, hhost⟩
    have hauthority : parts.authority ≠ [] := by simpa using hhost
    obtain ⟨scheme, tail, written⟩ := exists_isWritten hsplit hscheme hauthority
    exact ⟨scheme, parts.authority, tail, written, hauthority,
      (written.split_eq_ok_iff.mp hsplit).1⟩
  · rintro ⟨scheme, authority, tail, written, hauthority, sound⟩
    exact ⟨⟨scheme.map Char.toLower, authority⟩, written.split_eq_ok_iff.mpr ⟨sound, rfl⟩,
      written.scheme_allowed, by simpa using hauthority⟩

theorem toFailure_eq (fault : UrlFault) : fault.toFailure =
    { Failure.of .validation fault.reason with
      code := some fault.code, context := [("field_name", .text "url")], cause := fault.cause } :=
  rfl

/-- **What an accepted URL locates.** A value is accepted, and stripped, if and only if it is a text
that is written with a scheme for feeds and a sound authority that is not empty. Everything else is
refused as invalid, with the URL named as what is at fault. The authority of an accepted URL names a
host, unless it has no bracket and is nothing but user information and a port. -/
theorem accepted_url_located (url : Value) :
    (∀ u, validate url = .ok u ↔ ∃ s, url = .text s ∧ u = Text.strip s ∧
      ∃ scheme authority tail, IsWritten u scheme authority tail ∧ authority ≠ [] ∧
        IsSound authority) ∧
    (∀ u, validate url = .ok u → (∀ c, u.toList.head? = some c → Text.isBlank c = false) ∧
      (∀ c, u.toList.getLast? = some c → Text.isBlank c = false) ∧
      ∀ scheme authority tail, IsWritten u scheme authority tail →
        (hostOf authority = [] ↔ IsHostless authority ∧ '[' ∉ authority ∧ ']' ∉ authority)) ∧
    ((∃ u, validate url = .ok u) ∨ ∃ fault, validate url = .error fault ∧
      fault.toFailure.kind = .validation ∧
      (fault.toFailure.code = some .requiredField ∨ fault.toFailure.code = some .invalidFormat) ∧
      fault.toFailure.context = [("field_name", .text "url")]) := by
  refine ⟨fun u => ?_, fun u h => ?_, ?_⟩
  · simp only [validate_eq_ok_iff, locates_iff]
  · obtain ⟨s, -, rfl, parts, hsplit, -, -⟩ := validate_eq_ok_iff.mp h
    rw [Text.strip, String.toList_ofList]
    refine ⟨fun c => Text.isBlank_of_head?_trim, fun c => Text.isBlank_of_getLast?_trim, ?_⟩
    intro scheme authority tail written
    exact (written.split_eq_ok_iff.mp hsplit).1.hostOf_eq_nil_iff
  · cases hvalid : validate url with
    | ok u => exact .inl ⟨u, rfl⟩
    | error fault =>
        refine .inr ⟨fault, rfl, ?_⟩
        rw [toFailure_eq]
        refine ⟨rfl, ?_, rfl⟩
        cases fault with
        | required => exact .inl rfl
        | _ => exact .inr rfl

/-- A URL with a port and no host is accepted. -/
theorem hostless_url_accepted : validate (.text "http://:80/") = .ok "http://:80/" ∧
    IsWritten "http://:80/" "http".toList ":80".toList "/".toList ∧ hostOf ":80".toList = [] := by
  have within : (":80".toList.all fun c => !endsAuthority c) = true := by decide
  have written : IsWritten "http://:80/" "http".toList ":80".toList "/".toList :=
    ⟨rfl, by decide, by simpa using within, fun c hc => by cases hc; rfl⟩
  exact ⟨rfl, written, rfl⟩

end Url

end FeedIntake
