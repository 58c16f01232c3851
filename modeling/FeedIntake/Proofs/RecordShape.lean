import FeedIntake.Proofs.RecordDates
import Mathlib.Data.List.Basic

/-! # The shape of records

The record of a plain mapping has thirteen fields at most. Texts are copied as they stand, and what
is no text is left out. Of a list, those items are kept that are mappings, cut down to a few names,
and of the tags their words; null and what is left empty is dropped, and a list of which nothing is
left is dropped itself. The source is written over whatever the mapping says. The identity is read
from two of the fields and from nothing else.
-/

namespace FeedIntake

/-! ## Lists gleaned from lists -/

/-- In the order of the items, what those have that have something. -/
inductive Gleaned {α β : Type} (R : α → β → Prop) : List α → List β → Prop where
  | nil : Gleaned R [] []
  | keep {a : α} {b : β} {items : List α} {found : List β} (h : R a b)
      (rest : Gleaned R items found) : Gleaned R (a :: items) (b :: found)
  | drop {a : α} {items : List α} {found : List β} (h : ∀ b, ¬R a b)
      (rest : Gleaned R items found) : Gleaned R (a :: items) found

theorem gleaned_filterMap {α β : Type} {R : α → β → Prop} {f : α → Option β}
    (hsome : ∀ a b, f a = some b → R a b) (hnone : ∀ a, f a = none → ∀ b, ¬R a b)
    (items : List α) : Gleaned R items (items.filterMap f) := by
  induction items with
  | nil => exact .nil
  | cons a rest ih =>
      cases ha : f a with
      | none =>
          rw [List.filterMap_cons_none ha]
          exact .drop (hnone a ha) ih
      | some b =>
          rw [List.filterMap_cons_some ha]
          exact .keep (hsome a b ha) ih

namespace Fields

def present (members : List (String × Option Value)) : Fields :=
  members.filterMap fun m => m.2.map (m.1, ·)

theorem present_cons (key : String) (v : Option Value) (rest : List (String × Option Value)) :
    present ((key, v) :: rest) = v.toList.map (key, ·) ++ present rest := by
  cases v <;> rfl

theorem names_present (members : List (String × Option Value)) :
    ((present members).map (·.1)).Sublist (members.map (·.1)) := by
  induction members with
  | nil => exact .slnil
  | cons m rest ih =>
      obtain ⟨key, _ | v⟩ := m
      · exact ih.cons key
      · exact ih.cons_cons key

theorem lookup_present {members : List (String × Option Value)}
    (h : (members.map (·.1)).Nodup) {key : String} {v : Option Value} (hmem : (key, v) ∈ members) :
    (present members).lookup key = v := by
  induction members with
  | nil => cases hmem
  | cons m rest ih =>
      obtain ⟨name, value⟩ := m
      obtain ⟨hname, hrest⟩ := List.nodup_cons.mp h
      rw [present_cons, List.lookup_append]
      rcases List.mem_cons.mp hmem with heq | hmem
      · cases heq
        have hnone : (present rest).lookup key = none := by
          refine List.lookup_eq_none_iff.mpr fun m hm => bne_iff_ne.mpr fun heq => ?_
          exact hname ((names_present rest).subset (List.mem_map.mpr ⟨m, hm, heq.symm⟩))
        cases v <;> simp [hnone]
      · have hne : key ≠ name := fun heq => hname (heq ▸ List.mem_map_of_mem (f := (·.1)) hmem)
        rw [ih hrest hmem]
        cases value <;> simp [List.lookup_cons, beq_false_of_ne hne]

end Fields

namespace Record

/-! ## Fields of records -/

def names : List String :=
  ["title", "description", "contents", "author", "authors", "categories", "uri", "link", "links",
    "enclosures", "publishedDate", "updatedDate", "rssFeed"]

def listed (items : List Value) : Option Value :=
  if items.isEmpty then none else some (.list items)

def members (r : Record) : List (String × Option Value) :=
  [("title", r.title.map .text), ("description", r.description.map .text),
    ("contents", listed (r.contents.map .dict)), ("author", r.author.map .text),
    ("authors", listed (r.authors.map .dict)), ("categories", listed (r.categories.map .text)),
    ("uri", r.uri.map .text), ("link", r.link.map .text), ("links", listed (r.links.map .dict)),
    ("enclosures", listed (r.enclosures.map .dict)), ("publishedDate", r.published.map .text),
    ("updatedDate", r.updated.map .text), ("rssFeed", some (.text r.source))]

theorem names_nodup : names.Nodup := by decide

theorem textField_eq (key : String) (value : Option String) :
    textField key value = (value.map Value.text).toList.map (key, ·) := by
  cases value <;> rfl

theorem listField_eq (key : String) (items : List Value) :
    listField key items = (listed items).toList.map (key, ·) := by
  cases items <;> rfl

theorem toFields_eq (r : Record) : r.toFields = Fields.present r.members := by
  simp only [toFields, members, textField_eq, listField_eq, Fields.present_cons, List.append_assoc]
  rfl

theorem names_toFields (r : Record) : (r.toFields.map (·.1)).Sublist names := by
  rw [toFields_eq]
  exact Fields.names_present r.members

theorem lookup_toFields (r : Record) {i : Nat} {key : String} {v : Option Value}
    (h : r.members[i]? = some (key, v)) : r.toFields.lookup key = v := by
  have hnodup : (r.members.map (·.1)).Nodup := names_nodup
  rw [toFields_eq, Fields.lookup_present hnodup (List.mem_of_getElem? h)]

end Record

/-! ## What the fields say -/

/-- A field is the text that stands in another, and is absent where no text does. -/
def CopiesText (given field : Option Value) : Prop :=
  ∀ v, field = some v ↔ given = some v ∧ ∃ s, v = .text s

/-- A field is the summary, or the text of the description where the summary is no word. -/
def Describes (summary description field : Option Value) : Prop :=
  (∀ v, summary = some v → v.IsWord → field = some v) ∧
    ((∀ v, summary = some v → ¬v.IsWord) → CopiesText description field)

/-- A field is the date that a pair of others gives, a text that is not empty, and is absent where
they give none. -/
def BearsDate (parsed raw field : Option Value) : Prop :=
  (∃ date, DateFrom parsed raw date ∧ field = date.map .text) ∧ ∀ v, field = some v → v.IsWord

/-- Only a list has items. -/
def itemsOf (v : Option Value) : List Value :=
  match v with
  | some (.list items) => items
  | _ => []

theorem mem_itemsOf_iff {given : Option Value} {item : Value} :
    item ∈ itemsOf given ↔ ∃ items, given = some (.list items) ∧ item ∈ items := by
  cases given with
  | none => simp [itemsOf]
  | some v => cases v <;> simp [itemsOf]

/-- A field lists what the items of another have, and is absent where they have nothing. -/
def ListsOf (R : Value → Value → Prop) (given field : Option Value) : Prop :=
  ∃ found, Gleaned R (itemsOf given) found ∧
    (found = [] ∧ field = none ∨ found ≠ [] ∧ field = some (.list found))

/-- The word of a tag is its term, or else its label. -/
inductive TagWord : Value → Value → Prop where
  | term {fields : Fields} {s : String} (h : fields.lookup "term" = some (.text s))
      (hs : s ≠ "") : TagWord (.dict fields) (.text s)
  | label {fields : Fields} {s : String}
      (hterm : ∀ v, fields.lookup "term" = some v → ¬v.IsWord)
      (h : fields.lookup "label" = some (.text s)) (hs : s ≠ "") :
      TagWord (.dict fields) (.text s)

/-- What a mapping holds under some names, in their order, without null. -/
inductive CutDown (names : List String) : Value → Value → Prop where
  | mk {fields kept : Fields} (hne : kept ≠ []) (hnames : (kept.map (·.1)).Sublist names)
      (hkept : ∀ name v, (name, v) ∈ kept ↔
        name ∈ names ∧ fields.lookup name = some v ∧ v ≠ .null) :
      CutDown names (.dict fields) (.dict kept)

/-- The identity is the address of its own, or else the link, as it stands. -/
inductive Identifies (id link : Option Value) : String → Prop where
  | id {s : String} (h : id = some (.text s)) (hs : s ≠ "") : Identifies id link s
  | link {s : String} (hid : ∀ v, id = some v → ¬v.IsWord) (h : link = some (.text s))
      (hs : s ≠ "") : Identifies id link s
  | none (hid : ∀ v, id = some v → ¬v.IsWord) (hlink : ∀ v, link = some v → ¬v.IsWord) :
      Identifies id link ""

/-- A record says of a mapping what it should. -/
structure Represents (record fields : Fields) (source : String) : Prop where
  names : (record.map (·.1)).Sublist Record.names
  source : record.lookup "rssFeed" = some (.text source)
  title : CopiesText (fields.lookup "title") (record.lookup "title")
  description : Describes (fields.lookup "summary") (fields.lookup "description")
    (record.lookup "description")
  author : CopiesText (fields.lookup "author") (record.lookup "author")
  uri : CopiesText (fields.lookup "id") (record.lookup "uri")
  link : CopiesText (fields.lookup "link") (record.lookup "link")
  published : BearsDate (fields.lookup "published_parsed") (fields.lookup "published")
    (record.lookup "publishedDate")
  updated : BearsDate (fields.lookup "updated_parsed") (fields.lookup "updated")
    (record.lookup "updatedDate")
  categories : ListsOf TagWord (fields.lookup "tags") (record.lookup "categories")
  contents : ListsOf (CutDown ["type", "value", "language"]) (fields.lookup "content")
    (record.lookup "contents")
  authors : ListsOf (CutDown ["name", "email", "href"]) (fields.lookup "authors")
    (record.lookup "authors")
  links : ListsOf (CutDown ["rel", "type", "href", "title"]) (fields.lookup "links")
    (record.lookup "links")
  enclosures : ListsOf (CutDown ["href", "type", "length"]) (fields.lookup "enclosures")
    (record.lookup "enclosures")

namespace Entry

theorem copiesText_textOf (v : Option Value) : CopiesText v ((textOf v).map .text) := by
  intro value
  rw [Option.map_eq_some_iff]
  constructor
  · rintro ⟨s, hs, rfl⟩
    exact ⟨textOf_eq_some_iff.mp hs, s, rfl⟩
  · rintro ⟨rfl, s, rfl⟩
    exact ⟨s, textOf_eq_some_iff.mpr rfl, rfl⟩

theorem describes_descriptionOf (summary description : Option Value) :
    Describes summary description ((descriptionOf summary description).map .text) := by
  unfold descriptionOf
  constructor
  · rintro _ rfl ⟨s, rfl, hs⟩
    rw [wordOf_eq_some_iff.mpr ⟨rfl, hs⟩]
    rfl
  · intro h
    rw [wordOf_eq_none_iff.mpr h, Option.none_or]
    exact copiesText_textOf description

theorem bearsDate_dateOf (parsed raw : Option Value) :
    BearsDate parsed raw ((dateOf parsed raw).map .text) := by
  have hfrom := dateFrom_dateOf parsed raw
  refine ⟨⟨_, hfrom, rfl⟩, fun v hv => ?_⟩
  obtain ⟨s, hs, rfl⟩ := Option.map_eq_some_iff.mp hv
  rw [hs] at hfrom
  exact ⟨s, rfl, hfrom.ne_empty⟩

/-! ## Lists -/

theorem listsOf_listed {R : Value → Value → Prop} {given : Option Value} {found : List Value}
    (h : Gleaned R (itemsOf given) found) : ListsOf R given (Record.listed found) := by
  refine ⟨found, h, ?_⟩
  cases found with
  | nil => exact .inl ⟨rfl, rfl⟩
  | cons first rest => exact .inr ⟨List.cons_ne_nil _ _, rfl⟩

theorem mem_project {names : List String} {fields : Fields} {name : String} {v : Value} :
    (name, v) ∈ project names fields ↔ name ∈ names ∧ fields.lookup name = some v ∧ v ≠ .null := by
  have hnull : (!v.isNull) = true ↔ v ≠ .null := by cases v <;> simp [Value.isNull]
  rw [project, Fields.pick, List.mem_filter, List.mem_filterMap, hnull, ← and_assoc]
  refine and_congr_left fun _ => ?_
  constructor
  · rintro ⟨other, hmem, h⟩
    obtain ⟨value, hvalue, heq⟩ := Option.map_eq_some_iff.mp h
    cases heq
    exact ⟨hmem, hvalue⟩
  · rintro ⟨hmem, hvalue⟩
    exact ⟨name, hmem, by rw [hvalue, Option.map_some]⟩

theorem names_project (names : List String) (fields : Fields) :
    ((project names fields).map (·.1)).Sublist names := by
  have hpick : fields.pick names =
      Fields.present (names.map fun name => (name, fields.lookup name)) := by
    rw [Fields.present, List.filterMap_map]
    rfl
  have hnames := Fields.names_present (names.map fun name => (name, fields.lookup name))
  rw [← hpick, List.map_map, show (Prod.fst ∘ fun name => (name, fields.lookup name)) = id from rfl,
    List.map_id] at hnames
  exact (List.filter_sublist.map _).trans hnames

def projection? (names : List String) (item : Value) : Option Value :=
  item.dict?.bind fun fields =>
    if (project names fields).isEmpty then none else some (.dict (project names fields))

theorem map_projections (names : List String) (v : Option Value) :
    (projections names v).map Value.dict = (itemsOf v).filterMap (projection? names) := by
  cases v with
  | none => rfl
  | some v =>
      cases v with
      | list items =>
          simp only [projections, itemsOf]
          rw [List.filterMap_filterMap, List.map_filterMap]
          refine List.filterMap_congr fun item _ => ?_
          unfold projection?
          cases item.dict? with
          | none => rfl
          | some fields =>
              dsimp only [Option.bind_some]
              split <;> rfl
      | _ => rfl

theorem projection?_eq_some_iff {names : List String} {item kept : Value} :
    projection? names item = some kept ↔ ∃ fields, item = .dict fields ∧
      project names fields ≠ [] ∧ kept = .dict (project names fields) := by
  unfold projection?
  cases item with
  | dict fields =>
      by_cases hempty : project names fields = []
      · simp [Value.dict?, hempty]
      · simp only [Value.dict?, Option.bind_some, List.isEmpty_iff, hempty, if_false]
        constructor
        · rintro ⟨⟩
          exact ⟨fields, rfl, hempty, rfl⟩
        · rintro ⟨_, ⟨⟩, -, rfl⟩
          rfl
  | _ => simp [Value.dict?]

theorem cutDown_of_projection? {names : List String} {item kept : Value}
    (h : projection? names item = some kept) : CutDown names item kept := by
  obtain ⟨fields, rfl, hne, rfl⟩ := projection?_eq_some_iff.mp h
  exact .mk hne (names_project names fields) fun _ _ => mem_project

theorem not_cutDown_of_projection? {names : List String} {item : Value}
    (h : projection? names item = none) (kept : Value) : ¬CutDown names item kept := by
  rintro ⟨hne, -, hkept⟩
  rename_i fields kept
  obtain ⟨⟨name, v⟩, hmem⟩ := List.exists_mem_of_ne_nil kept hne
  have hproject : project names fields ≠ [] :=
    List.ne_nil_of_mem (mem_project.mpr ((hkept name v).mp hmem))
  cases h.symm.trans (projection?_eq_some_iff.mpr ⟨fields, rfl, hproject, rfl⟩)

theorem gleaned_projections (names : List String) (v : Option Value) :
    Gleaned (CutDown names) (itemsOf v) ((projections names v).map .dict) := by
  rw [map_projections]
  exact gleaned_filterMap (fun _ _ => cutDown_of_projection?)
    (fun _ => not_cutDown_of_projection?) _

theorem firstNonEmpty_pair (first second : Option String) :
    firstNonEmpty [first, second] =
      ((first.filter (!·.isEmpty)).or (second.filter (!·.isEmpty))).getD "" := by
  unfold firstNonEmpty
  cases hfirst : first.filter (!·.isEmpty) <;>
    cases hsecond : second.filter (!·.isEmpty) <;> simp [hfirst, hsecond]

theorem tagWord_eq (fields : Fields) :
    tagWord fields = (wordOf (fields.lookup "term")).or (wordOf (fields.lookup "label")) := by
  unfold tagWord
  rw [firstNonEmpty_pair]
  show (let word := ((wordOf (fields.lookup "term")).or (wordOf (fields.lookup "label"))).getD ""
    if word.isEmpty then none else some word) = _
  cases hword : (wordOf (fields.lookup "term")).or (wordOf (fields.lookup "label")) with
  | none => rfl
  | some word =>
      have hne : word ≠ "" := by
        rcases Option.or_eq_some_iff.mp hword with h | ⟨-, h⟩
        · exact (wordOf_eq_some_iff.mp h).2
        · exact (wordOf_eq_some_iff.mp h).2
      simp [hne]

theorem map_categoriesOf (v : Option Value) : (categoriesOf v).map Value.text =
    (itemsOf v).filterMap fun item => (item.dict?.bind tagWord).map .text := by
  cases v with
  | none => rfl
  | some v =>
      cases v with
      | list items =>
          simp only [categoriesOf, itemsOf]
          rw [List.filterMap_filterMap, List.map_filterMap]
      | _ => rfl

theorem tagWord_eq_some_iff {fields : Fields} {s : String} :
    tagWord fields = some s ↔ TagWord (.dict fields) (.text s) := by
  rw [tagWord_eq, Option.or_eq_some_iff, wordOf_eq_some_iff, wordOf_eq_some_iff,
    wordOf_eq_none_iff]
  constructor
  · rintro (⟨hterm, hs⟩ | ⟨hterm, hlabel, hs⟩)
    · exact .term hterm hs
    · exact .label hterm hlabel hs
  · intro tag
    cases tag with
    | term hterm hs => exact .inl ⟨hterm, hs⟩
    | label hterm hlabel hs => exact .inr ⟨hterm, hlabel, hs⟩

theorem gleaned_categories (v : Option Value) :
    Gleaned TagWord (itemsOf v) ((categoriesOf v).map .text) := by
  rw [map_categoriesOf]
  refine gleaned_filterMap (fun item word h => ?_) (fun item h word tag => ?_) _
  · obtain ⟨s, hs, rfl⟩ := Option.map_eq_some_iff.mp h
    cases item with
    | dict fields => exact tagWord_eq_some_iff.mp hs
    | _ => cases hs
  · obtain ⟨fields, s, rfl, rfl⟩ : ∃ fields s, item = .dict fields ∧ word = .text s := by
      cases tag <;> exact ⟨_, _, rfl, rfl⟩
    cases (tagWord_eq_some_iff.mpr tag).symm.trans (Option.map_eq_none_iff.mp h)

/-! ## Records of plain mappings -/

theorem identity_recordOf (answer : String → Option Value) (source : String) :
    (recordOf answer source).identity =
      ((wordOf (answer "id")).or (wordOf (answer "link"))).getD "" :=
  firstNonEmpty_pair _ _

theorem identifies_identity (answer : String → Option Value) (source : String) :
    Identifies (answer "id") (answer "link") (recordOf answer source).identity := by
  rw [identity_recordOf]
  cases hid : wordOf (answer "id") with
  | some s =>
      obtain ⟨hid, hs⟩ := wordOf_eq_some_iff.mp hid
      exact .id hid hs
  | none =>
      have hid := wordOf_eq_none_iff.mp hid
      cases hlink : wordOf (answer "link") with
      | some s =>
          obtain ⟨hlink, hs⟩ := wordOf_eq_some_iff.mp hlink
          exact .link hid hlink hs
      | none => exact .none hid (wordOf_eq_none_iff.mp hlink)

theorem represents_recordOf (fields : Fields) (source : String) :
    Represents (recordOf (fields.lookup ·) source).toFields fields source := by
  -- Each field stands in its place among the members.
  have hlookup i {key v} (h : (recordOf (fields.lookup ·) source).members[i]? = some (key, v)) :=
    Record.lookup_toFields _ h
  exact {
    names := Record.names_toFields _
    source := hlookup 12 rfl
    title := by rw [hlookup 0 rfl]; exact copiesText_textOf _
    description := by rw [hlookup 1 rfl]; exact describes_descriptionOf _ _
    author := by rw [hlookup 3 rfl]; exact copiesText_textOf _
    uri := by rw [hlookup 6 rfl]; exact copiesText_textOf _
    link := by rw [hlookup 7 rfl]; exact copiesText_textOf _
    published := by rw [hlookup 10 rfl]; exact bearsDate_dateOf _ _
    updated := by rw [hlookup 11 rfl]; exact bearsDate_dateOf _ _
    categories := by rw [hlookup 5 rfl]; exact listsOf_listed (gleaned_categories _)
    contents := by rw [hlookup 2 rfl]; exact listsOf_listed (gleaned_projections _ _)
    authors := by rw [hlookup 4 rfl]; exact listsOf_listed (gleaned_projections _ _)
    links := by rw [hlookup 8 rfl]; exact listsOf_listed (gleaned_projections _ _)
    enclosures := by rw [hlookup 9 rfl]; exact listsOf_listed (gleaned_projections _ _) }

/-- **A plain mapping becomes a record that represents it.** The identity of the record is read from
two fields, so mappings that agree on these are taken for the same whatever else they hold. -/
theorem plain_record_represents (fields : Fields) (source : String) : ∃ record,
    toRecord ⟨.plain, .dict fields⟩ source = .ok record ∧
      Represents record.toFields fields source ∧
      Identifies (fields.lookup "id") (fields.lookup "link") record.identity ∧
      ∀ other source' record', toRecord ⟨.plain, .dict other⟩ source' = .ok record' →
        other.lookup "id" = fields.lookup "id" → other.lookup "link" = fields.lookup "link" →
          record'.identity = record.identity := by
  refine ⟨recordOf (fields.lookup ·) source, (plain_answers fields).toRecord source,
    represents_recordOf fields source, identifies_identity (fields.lookup ·) source, ?_⟩
  intro other source' record' h hid hlink
  cases h.symm.trans ((plain_answers other).toRecord source')
  rw [identity_recordOf, identity_recordOf, hid, hlink]

/-- A mapping with an empty title, an empty summary over a description that is no text, items of
several kinds, and a source of its own. -/
def motley : Fields :=
  [("id", .text "x"), ("title", .text ""), ("summary", .text ""), ("description", .int 3),
    ("content", .list [.null, .dict [("type", .null)],
      .dict [("value", .text "v"), ("type", .null), ("base", .text "b")]]),
    ("tags", .list [.dict [("term", .text ""), ("label", .text "l")], .text "t"]),
    ("links", .tuple [.dict [("href", .text "h")]]), ("rssFeed", .text "b")]

theorem plain_record_represents_motley : ∃ record record',
    toRecord ⟨.plain, .dict motley⟩ "a" = .ok record ∧
      record.toFields = [("title", .text ""), ("contents", .list [.dict [("value", .text "v")]]),
        ("categories", .list [.text "l"]), ("uri", .text "x"), ("rssFeed", .text "a")] ∧
      Represents record.toFields motley "a" ∧
      toRecord ⟨.plain, .dict [("id", .text "x")]⟩ "b" = .ok record' ∧
      record'.identity = record.identity := by
  obtain ⟨record, hrecord, represents, -, hsame⟩ := plain_record_represents motley "a"
  cases hrecord
  have hbare := hsame [("id", .text "x")] "b" _ rfl rfl rfl
  exact ⟨_, _, rfl, rfl, represents, rfl, hbare⟩

end Entry

end FeedIntake
