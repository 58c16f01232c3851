import FeedIntake.Proofs.Entries

/-! # What entries answer

An entry is asked for a dozen keys, and its record is made of the answers and nothing else. A plain
mapping answers with its own fields. A derived one puts other fields in for some of its own, and for
its enclosures it goes through its links: this is the only question that a mapping may fail to
answer.
-/

namespace FeedIntake

theorem exists_of_bind_eq_ok {ε α β : Type} {x : Except ε α} {next : α → Except ε β} {b : β}
    (h : x >>= next = .ok b) : ∃ a, x = .ok a ∧ next a = .ok b := by
  cases x with
  | error fault => cases h
  | ok a => exact ⟨a, rfl, h⟩

/-- A text that is not empty. -/
def Value.IsWord (v : Value) : Prop := ∃ s, v = .text s ∧ s ≠ ""

namespace Entry

/-! ## Texts and words -/

def textOf (v : Option Value) : Option String := v.bind Value.text?

/-- The text that stands there, unless it is empty. -/
def wordOf (v : Option Value) : Option String := (textOf v).filter (!·.isEmpty)

theorem textOf_eq_some_iff {v : Option Value} {s : String} :
    textOf v = some s ↔ v = some (.text s) := by
  cases v with
  | none => simp [textOf]
  | some v => cases v <;> simp [textOf, Value.text?]

theorem wordOf_eq_some_iff {v : Option Value} {s : String} :
    wordOf v = some s ↔ v = some (.text s) ∧ s ≠ "" := by
  rw [wordOf, Option.filter_eq_some_iff, textOf_eq_some_iff]
  simp

theorem wordOf_eq_none_iff {v : Option Value} :
    wordOf v = none ↔ ∀ value, v = some value → ¬value.IsWord := by
  rw [Option.eq_none_iff_forall_ne_some]
  constructor
  · rintro h _ rfl ⟨s, rfl, hs⟩
    exact h s (wordOf_eq_some_iff.mpr ⟨rfl, hs⟩)
  · intro h s hs
    obtain ⟨rfl, hne⟩ := wordOf_eq_some_iff.mp hs
    exact h _ rfl ⟨s, rfl, hne⟩

/-! ## Records made of answers -/

/-- An entry gives these answers. -/
def Answers (e : Entry) (answer : String → Option Value) : Prop :=
  ∀ key, e.find? key = .ok (answer key)

def dateOf (parsed raw : Option Value) : Option String := (stampOf parsed).or (wordOf raw)

def descriptionOf (summary description : Option Value) : Option String :=
  (wordOf summary).or (textOf description)

/-- The record of an entry that gives these answers. -/
def recordOf (answer : String → Option Value) (source : String) : Record where
  title := textOf (answer "title")
  description := descriptionOf (answer "summary") (answer "description")
  contents := projections ["type", "value", "language"] (answer "content")
  author := textOf (answer "author")
  authors := projections ["name", "email", "href"] (answer "authors")
  categories := categoriesOf (answer "tags")
  uri := textOf (answer "id")
  link := textOf (answer "link")
  links := projections ["rel", "type", "href", "title"] (answer "links")
  enclosures := projections ["href", "type", "length"] (answer "enclosures")
  published := dateOf (answer "published_parsed") (answer "published")
  updated := dateOf (answer "updated_parsed") (answer "updated")
  source := source

section

variable {e : Entry} {answer : String → Option Value} {source : String} {record : Record}

namespace Answers

theorem text? (h : e.Answers answer) (key : String) : e.text? key = .ok (textOf (answer key)) := by
  rw [Entry.text?, h key]
  rfl

theorem description? (h : e.Answers answer) :
    e.description? = .ok (descriptionOf (answer "summary") (answer "description")) := by
  rw [Entry.description?, h.text?, h.text?, descriptionOf, wordOf]
  simp only [bind, Except.bind]
  cases (textOf (answer "summary")).filter (!·.isEmpty) <;> rfl

theorem date? (h : e.Answers answer) (name : String) :
    e.date? name = .ok (dateOf (answer (name ++ "_parsed")) (answer name)) := by
  rw [Entry.date?, h, h.text?, dateOf]
  simp only [bind, Except.bind]
  cases stampOf (answer (name ++ "_parsed")) <;> rfl

theorem toRecord (h : e.Answers answer) (source : String) :
    e.toRecord source = .ok (recordOf answer source) := by
  rw [Entry.toRecord, h.text?, h.description?, h, h.text?, h, h, h.text?, h.text?, h, h,
    h.date? "published", h.date? "updated"]
  rfl

end Answers

/-! ## Answers of mappings -/

theorem plain_answers (fields : Fields) : Answers ⟨.plain, .dict fields⟩ (fields.lookup ·) :=
  fun _ => rfl

/-- What a derived entry answers where it need not go through its links. -/
def substitute (fields : Fields) (key : String) : Option Value :=
  if key = "updated" then firstOf fields ["updated", "published"]
  else if key = "updated_parsed" then firstOf fields ["updated_parsed", "published_parsed"]
  else if key = "description" then firstOf fields ["summary", "subtitle", "description"]
  else fields.lookup key

theorem derivedFind_of_ne {fields : Fields} {key : String} (h : key ≠ "enclosures") :
    derivedFind fields key = .ok (substitute fields key) := by
  unfold derivedFind substitute
  rw [if_neg h]
  repeat' split
  all_goals rfl

/-- The answers of a derived entry that has found these enclosures. -/
def derivedAnswer (fields : Fields) (found : Option Value) (key : String) : Option Value :=
  if key = "enclosures" then found else substitute fields key

theorem derived_answers {fields : Fields} {found : Option Value}
    (h : derivedFind fields "enclosures" = .ok found) :
    Answers ⟨.derived, .dict fields⟩ (derivedAnswer fields found) := by
  intro key
  show derivedFind fields key = _
  unfold derivedAnswer
  split
  · rename_i hkey
    rw [hkey, h]
  · rename_i hkey
    exact derivedFind_of_ne hkey

theorem find?_enclosures_of_toRecord (h : e.toRecord source = .ok record) :
    ∃ found, e.find? "enclosures" = .ok found := by
  simp only [Entry.toRecord, bind, Except.bind] at h
  repeat' split at h
  all_goals cases h
  exact ⟨_, by assumption⟩

/-- Who answers for its enclosures is a mapping and answers for all else. -/
theorem exists_answers_of_enclosures {found : Option Value}
    (h : e.find? "enclosures" = .ok found) : ∃ answer, e.Answers answer := by
  obtain ⟨lookup, value⟩ := e
  cases value with
  | dict fields =>
      cases lookup with
      | plain => exact ⟨_, plain_answers fields⟩
      | derived => exact ⟨_, derived_answers h⟩
  | _ => cases h

theorem toRecord_eq_ok_iff : e.toRecord source = .ok record ↔
    ∃ answer, e.Answers answer ∧ record = recordOf answer source := by
  constructor
  · intro h
    obtain ⟨_, hfound⟩ := find?_enclosures_of_toRecord h
    obtain ⟨answer, answers⟩ := exists_answers_of_enclosures hfound
    exact ⟨answer, answers, Except.ok.inj (h.symm.trans (answers.toRecord source))⟩
  · rintro ⟨answer, answers, rfl⟩
    exact answers.toRecord source

end

end Entry

end FeedIntake
