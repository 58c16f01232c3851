import FeedIntake.Proofs.Answers
import FeedIntake.Proofs.Stamps

/-! # The dates of records

A record has two dates, and each is found through two questions: for a broken-down time, and for a
raw text where there is none that can be rendered. A plain mapping answers them with its own pair of
fields. A derived one that lacks a field of its update is asked for it all the same, and answers
with that of its publication. So the date of publication is always its own, and the date of an
update is borrowed where the mapping says too little of it.
-/

namespace FeedIntake

open Time (BrokenDown)

/-- A value that is a broken-down time has this stamp. -/
def Value.Renders (v : Option Value) (stamp : String) : Prop :=
  ∃ value t, v = some value ∧ value.brokenDown? = some t ∧ t.stamp? = some stamp

/-- A date is the stamp of the broken-down time, or else the raw text unless that is empty. -/
inductive DateFrom (parsed raw : Option Value) : Option String → Prop where
  | stamped {s : String} (h : Value.Renders parsed s) : DateFrom parsed raw (some s)
  | verbatim {s : String} (hparsed : ∀ stamp, ¬Value.Renders parsed stamp)
      (h : raw = some (.text s)) (hs : s ≠ "") : DateFrom parsed raw (some s)
  | absent (hparsed : ∀ stamp, ¬Value.Renders parsed stamp)
      (hraw : ∀ v, raw = some v → ¬v.IsWord) : DateFrom parsed raw none

/-- A pair of fields gives a date. -/
def GivesDate (parsed raw : Option Value) : Prop :=
  (∃ stamp, Value.Renders parsed stamp) ∨ ∃ v, raw = some v ∧ v.IsWord

theorem Time.BrokenDown.stamp?_ne_empty {t : BrokenDown} {stamp : String}
    (h : t.stamp? = some stamp) : stamp ≠ "" := by
  rintro rfl
  have hchars : [] = t.stampChars := (isRenderable_of_stamp? h).2
  simp [stampChars] at hchars

namespace Entry

theorem stampOf_eq_some_iff {v : Option Value} {stamp : String} :
    stampOf v = some stamp ↔ Value.Renders v stamp := by
  unfold stampOf Value.Renders
  rw [Option.bind_eq_some_iff]
  constructor
  · rintro ⟨t, ht, hstamp⟩
    obtain ⟨value, hvalue, ht⟩ := Option.bind_eq_some_iff.mp ht
    exact ⟨value, t, hvalue, ht, hstamp⟩
  · rintro ⟨value, t, rfl, ht, hstamp⟩
    exact ⟨t, ht, hstamp⟩

theorem stampOf_eq_none_iff {v : Option Value} :
    stampOf v = none ↔ ∀ stamp, ¬Value.Renders v stamp := by
  rw [Option.eq_none_iff_forall_ne_some]
  exact forall_congr' fun stamp => not_congr stampOf_eq_some_iff

theorem dateFrom_dateOf (parsed raw : Option Value) : DateFrom parsed raw (dateOf parsed raw) := by
  unfold dateOf
  cases hstamp : stampOf parsed with
  | some stamp => exact .stamped (stampOf_eq_some_iff.mp hstamp)
  | none =>
      have hparsed := stampOf_eq_none_iff.mp hstamp
      cases hword : wordOf raw with
      | some s =>
          obtain ⟨hraw, hs⟩ := wordOf_eq_some_iff.mp hword
          exact .verbatim hparsed hraw hs
      | none => exact .absent hparsed (wordOf_eq_none_iff.mp hword)

end Entry

namespace DateFrom

variable {parsed raw : Option Value} {date : Option String}

theorem isSome_iff (h : DateFrom parsed raw date) : date.isSome = true ↔ GivesDate parsed raw := by
  cases h with
  | stamped h => simp [GivesDate, Exists.intro _ h]
  | verbatim _ h hs => exact iff_of_true rfl (.inr ⟨_, h, _, rfl, hs⟩)
  | absent hparsed hraw =>
      refine iff_of_false (by simp) ?_
      rintro (⟨stamp, h⟩ | ⟨v, h, hv⟩)
      · exact hparsed stamp h
      · exact hraw v h hv

theorem ne_empty {s : String} (h : DateFrom parsed raw (some s)) : s ≠ "" := by
  cases h with
  | stamped h =>
      obtain ⟨_, _, _, _, hstamp⟩ := h
      exact Time.BrokenDown.stamp?_ne_empty hstamp
  | verbatim _ _ hs => exact hs

end DateFrom

/-! ## Mappings that differ in their dates -/

namespace Fields

/-- Two mappings say the same under all other keys. -/
def AgreesBut (keys : List String) (other fields : Fields) : Prop :=
  ∀ key, key ∉ keys → other.lookup key = fields.lookup key

theorem AgreesBut.mono {keys more : List String} {other fields : Fields}
    (h : AgreesBut keys other fields) (hkeys : keys ⊆ more) : AgreesBut more other fields :=
  fun key hkey => h key fun hmem => hkey (hkeys hmem)

theorem agreesBut_put {keys : List String} {key : String} (h : key ∈ keys) (fields : Fields)
    (v : Value) : AgreesBut keys (fields.put key v) fields := by
  intro asked hasked
  have hne : asked ≠ key := fun heq => hasked (heq ▸ h)
  rw [lookup_put, if_neg hne]

/-- What a mapping says of its update settles the date of it: it can be rendered, or neither field
is missing. -/
def OwnsUpdate (fields : Fields) : Prop :=
  (∃ stamp, Value.Renders (fields.lookup "updated_parsed") stamp) ∨
    (fields.lookup "updated_parsed").isSome = true ∧ (fields.lookup "updated").isSome = true

end Fields

namespace Entry

def publicationKeys : List String := ["published", "published_parsed"]

def updateKeys : List String := ["updated", "updated_parsed"]

def dateKeys : List String := publicationKeys ++ updateKeys

/-- The pair that gives the date of an update. A derived mapping puts its publication in for each
field that is missing. -/
def updatePair (lookup : Lookup) (fields : Fields) : Option Value × Option Value :=
  match lookup with
  | .plain => (fields.lookup "updated_parsed", fields.lookup "updated")
  | .derived => ((fields.lookup "updated_parsed").or (fields.lookup "published_parsed"),
      (fields.lookup "updated").or (fields.lookup "published"))

def publishedOf (fields : Fields) : Option String :=
  dateOf (fields.lookup "published_parsed") (fields.lookup "published")

def updatedOf (lookup : Lookup) (fields : Fields) : Option String :=
  dateOf (updatePair lookup fields).1 (updatePair lookup fields).2

theorem firstOf_cons (fields : Fields) (key : String) (keys : List String) :
    firstOf fields (key :: keys) = (fields.lookup key).or (firstOf fields keys) := by
  unfold firstOf
  rw [List.findSome?_cons]
  cases fields.lookup key <;> rfl

theorem firstOf_congr {fields other : Fields} {keys : List String}
    (h : ∀ key ∈ keys, other.lookup key = fields.lookup key) :
    firstOf other keys = firstOf fields keys := by
  induction keys with
  | nil => rfl
  | cons key keys ih =>
      obtain ⟨hkey, hkeys⟩ := List.forall_mem_cons.mp h
      rw [firstOf_cons, firstOf_cons, hkey, ih hkeys]

theorem derivedFind_enclosures_congr {fields other : Fields}
    (h : other.lookup "links" = fields.lookup "links") :
    derivedFind other "enclosures" = derivedFind fields "enclosures" := by
  rw [derivedFind, derivedFind, h]
  rfl

/-- The answers of a mapping; a derived one has found these enclosures. -/
def answerOf (lookup : Lookup) (fields : Fields) (found : Option Value) : String → Option Value :=
  match lookup with
  | .plain => (fields.lookup ·)
  | .derived => derivedAnswer fields found

section

variable {lookup : Lookup} {fields other : Fields} {found : Option Value} {source : String}
  {record : Record}

/-- A mapping that has become a record answers, and so does each with the same links. -/
theorem exists_answers_of_toRecord (h : toRecord ⟨lookup, .dict fields⟩ source = .ok record) :
    ∃ found, ∀ other, other.lookup "links" = fields.lookup "links" →
      Answers ⟨lookup, .dict other⟩ (answerOf lookup other found) := by
  obtain ⟨found, hfound⟩ := find?_enclosures_of_toRecord h
  refine ⟨found, fun other hlinks => ?_⟩
  cases lookup with
  | plain => exact plain_answers other
  | derived => exact derived_answers ((derivedFind_enclosures_congr hlinks).trans hfound)

theorem published_answerOf : dateOf (answerOf lookup fields found "published_parsed")
    (answerOf lookup fields found "published") = publishedOf fields := by
  cases lookup <;> rfl

theorem updated_answerOf : dateOf (answerOf lookup fields found "updated_parsed")
    (answerOf lookup fields found "updated") = updatedOf lookup fields := by
  cases lookup with
  | plain => rfl
  | derived =>
      show dateOf (firstOf fields ["updated_parsed", "published_parsed"])
        (firstOf fields ["updated", "published"]) = _
      simp only [firstOf_cons]
      rw [show firstOf fields [] = none from rfl, Option.or_none, Option.or_none]
      rfl

theorem answerOf_congr (h : Fields.AgreesBut dateKeys other fields) {key : String}
    (hkey : key ∉ dateKeys) :
    answerOf lookup other found key = answerOf lookup fields found key := by
  cases lookup with
  | plain => exact h key hkey
  | derived =>
      have hdescription : firstOf other ["summary", "subtitle", "description"] =
          firstOf fields ["summary", "subtitle", "description"] :=
        firstOf_congr fun asked hasked => h asked (by
          revert asked
          decide)
      have hne : key ≠ "updated" ∧ key ≠ "updated_parsed" := by
        constructor <;> rintro rfl <;> exact hkey (by decide)
      show derivedAnswer other found key = derivedAnswer fields found key
      unfold derivedAnswer substitute
      rw [if_neg hne.1, if_neg hne.2, if_neg hne.1, if_neg hne.2, hdescription, h key hkey]

/-- Answers that differ about dates make records that differ in their dates. -/
theorem recordOf_dates {answer given : String → Option Value}
    (h : ∀ key, key ∉ dateKeys → given key = answer key) (source : String) :
    recordOf given source = { recordOf answer source with
      published := dateOf (given "published_parsed") (given "published")
      updated := dateOf (given "updated_parsed") (given "updated") } := by
  simp only [recordOf, h "title" (by decide), h "summary" (by decide), h "description" (by decide),
    h "content" (by decide), h "author" (by decide), h "authors" (by decide), h "tags" (by decide),
    h "id" (by decide), h "link" (by decide), h "links" (by decide), h "enclosures" (by decide)]

theorem dates_of_toRecord (h : toRecord ⟨lookup, .dict fields⟩ source = .ok record) :
    record.published = publishedOf fields ∧ record.updated = updatedOf lookup fields := by
  obtain ⟨found, answers⟩ := exists_answers_of_toRecord h
  cases h.symm.trans ((answers fields rfl).toRecord source)
  exact ⟨published_answerOf, updated_answerOf⟩

theorem toRecord_of_agreesBut (h : toRecord ⟨lookup, .dict fields⟩ source = .ok record)
    (agrees : Fields.AgreesBut dateKeys other fields) :
    toRecord ⟨lookup, .dict other⟩ source =
      .ok { record with published := publishedOf other, updated := updatedOf lookup other } := by
  obtain ⟨found, answers⟩ := exists_answers_of_toRecord h
  cases h.symm.trans ((answers fields rfl).toRecord source)
  rw [(answers other (agrees "links" (by decide))).toRecord source,
    recordOf_dates fun key hkey => answerOf_congr agrees hkey, published_answerOf,
    updated_answerOf]

theorem dateOf_of_renders {parsed raw : Option Value} {stamp : String}
    (h : Value.Renders parsed stamp) : dateOf parsed raw = some stamp := by
  rw [dateOf, stampOf_eq_some_iff.mpr h, Option.some_or]

theorem updatedOf_of_owns (h : lookup = .plain ∨ fields.OwnsUpdate) :
    updatedOf lookup fields =
      dateOf (fields.lookup "updated_parsed") (fields.lookup "updated") := by
  cases lookup with
  | plain => rfl
  | derived =>
      unfold updatedOf updatePair
      rcases h.resolve_left nofun with ⟨stamp, hrenders⟩ | ⟨hparsed, hraw⟩
      · obtain ⟨value, t, hvalue, ht⟩ := id hrenders
        rw [dateOf_of_renders hrenders, hvalue, Option.some_or, ← hvalue,
          dateOf_of_renders hrenders]
      · rw [Option.or_of_isSome hparsed, Option.or_of_isSome hraw]

theorem publishedOf_congr (agrees : Fields.AgreesBut updateKeys other fields) :
    publishedOf other = publishedOf fields := by
  unfold publishedOf
  rw [agrees "published" (by decide), agrees "published_parsed" (by decide)]

/-- Where the update settles its date, that does not depend on the publication. -/
theorem updatedOf_congr (agrees : Fields.AgreesBut publicationKeys other fields)
    (howns : lookup = .plain ∨ fields.OwnsUpdate) :
    updatedOf lookup other = updatedOf lookup fields := by
  have hparsed := agrees "updated_parsed" (by decide)
  have hraw := agrees "updated" (by decide)
  have hother : lookup = .plain ∨ other.OwnsUpdate := by
    unfold Fields.OwnsUpdate
    rwa [hparsed, hraw]
  rw [updatedOf_of_owns hother, updatedOf_of_owns howns, hparsed, hraw]

theorem updatedOf_put_parsed (h : fields.lookup "updated_parsed" = none) {t : BrokenDown}
    {stamp : String} (hstamp : t.stamp? = some stamp) :
    updatedOf .derived (fields.put "published_parsed" (.brokenDown t)) = some stamp := by
  unfold updatedOf updatePair
  simp only [Fields.lookup_put, h]
  exact dateOf_of_renders ⟨.brokenDown t, t, rfl, rfl, hstamp⟩

theorem updatedOf_put_raw {v : Value} (hparsed : fields.lookup "updated_parsed" = some v)
    (hodd : ∀ stamp, ¬Value.Renders (some v) stamp) (hraw : fields.lookup "updated" = none)
    {s : String} (hs : s ≠ "") :
    updatedOf .derived (fields.put "published" (.text s)) = some s := by
  unfold updatedOf updatePair
  simp only [Fields.lookup_put, hparsed, hraw]
  show dateOf (some v) (some (.text s)) = some s
  rw [dateOf, stampOf_eq_none_iff.mpr hodd, Option.none_or, wordOf_eq_some_iff]
  exact ⟨rfl, hs⟩

def newYear (year : Int) : BrokenDown := ⟨year, 1, 1, 0, 0, 0, 0, 1, 0⟩

/-- Where the update does not settle its date, the publication does: of two changes of it one
changes the date of the update. -/
theorem exists_updatedOf_ne (h : ¬fields.OwnsUpdate) : ∃ other,
    Fields.AgreesBut publicationKeys other fields ∧
      updatedOf .derived other ≠ updatedOf .derived fields := by
  suffices hpair : ∃ one two, Fields.AgreesBut publicationKeys one fields ∧
      Fields.AgreesBut publicationKeys two fields ∧
      updatedOf .derived one ≠ updatedOf .derived two by
    obtain ⟨one, two, hone, htwo, hne⟩ := hpair
    by_cases heq : updatedOf .derived one = updatedOf .derived fields
    · exact ⟨two, htwo, fun h => hne (heq.trans h.symm)⟩
    · exact ⟨one, hone, heq⟩
  unfold Fields.OwnsUpdate at h
  rw [not_or] at h
  obtain ⟨hodd, hmissing⟩ := h
  cases hparsed : fields.lookup "updated_parsed" with
  | none =>
      have hone : (newYear 2024).stamp? = some "2024-01-01T00:00:00Z" := by decide +kernel
      have htwo : (newYear 2025).stamp? = some "2025-01-01T00:00:00Z" := by decide +kernel
      refine ⟨fields.put "published_parsed" (.brokenDown (newYear 2024)),
        fields.put "published_parsed" (.brokenDown (newYear 2025)),
        Fields.agreesBut_put (by decide) _ _, Fields.agreesBut_put (by decide) _ _, ?_⟩
      rw [updatedOf_put_parsed hparsed hone, updatedOf_put_parsed hparsed htwo]
      decide
  | some v =>
      rw [hparsed] at hodd hmissing
      have hraw : fields.lookup "updated" = none :=
        Option.not_isSome_iff_eq_none.mp fun hsome => hmissing ⟨rfl, hsome⟩
      have hodd : ∀ stamp, ¬Value.Renders (some v) stamp := not_exists.mp hodd
      refine ⟨fields.put "published" (.text "one"), fields.put "published" (.text "two"),
        Fields.agreesBut_put (by decide) _ _, Fields.agreesBut_put (by decide) _ _, ?_⟩
      rw [updatedOf_put_raw hparsed hodd hraw (by decide),
        updatedOf_put_raw hparsed hodd hraw (by decide)]
      decide

/-- **The date of publication is a mapping's own, and that of an update may be borrowed.** Each date
comes from a pair of fields. For the publication it is the pair of that name, whatever else the
mapping holds. For an update, a derived mapping puts its publication in for what is missing, unless
what it says of the update settles the matter: then, and for a plain mapping always, the update
comes from its own pair, and no change of the publication changes it. Otherwise some change does. -/
theorem dates_from_pairs (h : toRecord ⟨lookup, .dict fields⟩ source = .ok record) :
    (DateFrom (fields.lookup "published_parsed") (fields.lookup "published") record.published ∧
      (record.published.isSome = true ↔
        GivesDate (fields.lookup "published_parsed") (fields.lookup "published"))) ∧
    (DateFrom (updatePair lookup fields).1 (updatePair lookup fields).2 record.updated ∧
      (record.updated.isSome = true ↔
        GivesDate (updatePair lookup fields).1 (updatePair lookup fields).2)) ∧
    (lookup = .plain ∨ fields.OwnsUpdate →
      DateFrom (fields.lookup "updated_parsed") (fields.lookup "updated") record.updated ∧
        (record.updated.isSome = true ↔
          GivesDate (fields.lookup "updated_parsed") (fields.lookup "updated"))) ∧
    (∀ other, Fields.AgreesBut updateKeys other fields →
      ∃ updated, toRecord ⟨lookup, .dict other⟩ source = .ok { record with updated }) ∧
    (∀ other, Fields.AgreesBut publicationKeys other fields → ∃ published updated,
      toRecord ⟨lookup, .dict other⟩ source = .ok { record with published, updated } ∧
        (lookup = .plain ∨ fields.OwnsUpdate → updated = record.updated)) ∧
    (lookup = .derived → ¬fields.OwnsUpdate → ∃ other published updated,
      Fields.AgreesBut publicationKeys other fields ∧
        toRecord ⟨lookup, .dict other⟩ source = .ok { record with published, updated } ∧
          updated ≠ record.updated) := by
  obtain ⟨hpublished, hupdated⟩ := dates_of_toRecord h
  have hpublication : DateFrom (fields.lookup "published_parsed") (fields.lookup "published")
      record.published := hpublished ▸ dateFrom_dateOf _ _
  have hupdate : DateFrom (updatePair lookup fields).1 (updatePair lookup fields).2
      record.updated := hupdated ▸ dateFrom_dateOf _ _
  refine ⟨⟨hpublication, hpublication.isSome_iff⟩, ⟨hupdate, hupdate.isSome_iff⟩, ?_, ?_, ?_, ?_⟩
  · intro howns
    have hown : DateFrom (fields.lookup "updated_parsed") (fields.lookup "updated")
        record.updated := by
      rw [hupdated, updatedOf_of_owns howns]
      exact dateFrom_dateOf _ _
    exact ⟨hown, hown.isSome_iff⟩
  · intro other agrees
    refine ⟨updatedOf lookup other, ?_⟩
    rw [toRecord_of_agreesBut h (agrees.mono (List.subset_append_right _ _)), hpublished,
      publishedOf_congr agrees]
  · intro other agrees
    refine ⟨publishedOf other, updatedOf lookup other,
      toRecord_of_agreesBut h (agrees.mono (List.subset_append_left _ _)), fun howns => ?_⟩
    rw [hupdated, updatedOf_congr agrees howns]
  · rintro rfl hborrows
    obtain ⟨other, agrees, hne⟩ := exists_updatedOf_ne hborrows
    exact ⟨other, publishedOf other, updatedOf .derived other, agrees,
      toRecord_of_agreesBut h (agrees.mono (List.subset_append_left _ _)), hupdated ▸ hne⟩

end

/-- A mapping says that it was published and will be updated, with null in the place of the time. -/
def postponed : Fields :=
  [("published_parsed", .brokenDown (newYear 2024)), ("updated_parsed", .null),
    ("updated", .text "soon")]

theorem dates_from_pairs_postponed : ∃ record,
    toRecord ⟨.derived, .dict postponed⟩ "a" = .ok record ∧ postponed.OwnsUpdate ∧
      DateFrom (some (.brokenDown (newYear 2024))) none record.published ∧
      DateFrom (some .null) (some (.text "soon")) record.updated ∧
      ∀ other, Fields.AgreesBut publicationKeys other postponed → ∃ published,
        toRecord ⟨.derived, .dict other⟩ "a" = .ok { record with published } := by
  have howns : postponed.OwnsUpdate := .inr ⟨rfl, rfl⟩
  refine ⟨_, rfl, howns, ?_⟩
  obtain ⟨⟨hpublished, -⟩, -, hupdated, -, hchanged, -⟩ :=
    @dates_from_pairs .derived postponed "a" _ rfl
  refine ⟨hpublished, (hupdated (.inr howns)).1, fun other agrees => ?_⟩
  obtain ⟨published, updated, hother, hsame⟩ := hchanged other agrees
  exact ⟨published, hsame (.inr howns) ▸ hother⟩

def announced : Fields :=
  [("id", .text "A"), ("published", .text "Mon, 01 Jan 2024 00:00:00 GMT"),
    ("published_parsed", .brokenDown (newYear 2024))]

/-- A record has the date of an update that nobody announced, and has none when the publication is
removed. -/
theorem update_date_borrowed : ∃ record without,
    toRecord ⟨.derived, .dict announced⟩ "a" = .ok record ∧
      toRecord ⟨.derived, .dict [("id", .text "A")]⟩ "a" = .ok without ∧
      ¬GivesDate (announced.lookup "updated_parsed") (announced.lookup "updated") ∧
      record.updated = some "2024-01-01T00:00:00Z" ∧ without.updated = none := by
  refine ⟨_, _, rfl, rfl, ?_, by decide +kernel, rfl⟩
  rintro (⟨stamp, v, t, h, -⟩ | ⟨v, h, -⟩) <;> cases h

end Entry

end FeedIntake
