import FeedIntake.Proofs.RecordShape

/-! # Records as JSON

A record is made of texts, and of lists of mappings that hold values of the entry as they stand.
What JSON has no form for can come into it in these mappings alone: bytes, tuples, times. So a
record is fit for JSON if and only if the values are that are copied into it, and an entry that is
fit for JSON becomes such a record.
-/

namespace FeedIntake

/-- A value that JSON has a form for. -/
inductive Value.IsJson : Value → Prop where
  | null : IsJson .null
  | bool (b : Bool) : IsJson (.bool b)
  | int (n : Int) : IsJson (.int n)
  | float (x : Float) : IsJson (.float x)
  | text (s : String) : IsJson (.text s)
  | list {items : List Value} (h : ∀ v ∈ items, IsJson v) : IsJson (.list items)
  | dict {fields : Fields} (h : ∀ f ∈ fields, IsJson f.2) : IsJson (.dict fields)

namespace Value

theorem isJson_list_iff {items : List Value} :
    (Value.list items).IsJson ↔ ∀ v ∈ items, v.IsJson :=
  ⟨fun h => by cases h; assumption, .list⟩

theorem isJson_dict_iff {fields : Fields} :
    (Value.dict fields).IsJson ↔ ∀ f ∈ fields, f.2.IsJson :=
  ⟨fun h => by cases h; assumption, .dict⟩

theorem IsJson.of_lookup {fields : Fields} (h : (Value.dict fields).IsJson) {key : String}
    {v : Value} (hv : fields.lookup key = some v) : v.IsJson := by
  obtain ⟨before, after, rfl, -⟩ := List.lookup_eq_some_iff.mp hv
  exact isJson_dict_iff.mp h (key, v) (List.mem_append_right _ List.mem_cons_self)

end Value

/-! ## Records -/

namespace Record

theorem isJson_present_iff {members : List (String × Option Value)} :
    (Value.dict (Fields.present members)).IsJson ↔ ∀ m ∈ members, ∀ v, m.2 = some v → v.IsJson := by
  rw [Value.isJson_dict_iff, Fields.present]
  simp only [List.mem_filterMap, Option.map_eq_some_iff]
  constructor
  · intro h m hm v hv
    exact h (m.1, v) ⟨m, hm, v, hv, rfl⟩
  · rintro h _ ⟨m, hm, v, hv, rfl⟩
    exact h m hm v hv

theorem isJson_text (given : Option String) : ∀ v, given.map Value.text = some v → v.IsJson := by
  intro v hv
  obtain ⟨s, -, rfl⟩ := Option.map_eq_some_iff.mp hv
  exact .text s

theorem isJson_listed_iff {items : List Value} :
    (∀ v, listed items = some v → v.IsJson) ↔ ∀ v ∈ items, v.IsJson := by
  rw [← Value.isJson_list_iff]
  cases items with
  | nil => simp [listed, Value.isJson_list_iff]
  | cons first rest => simp [listed]

/-- A record is fit for JSON if the mappings are that it lists. -/
theorem toValue_isJson_iff (r : Record) : r.toValue.IsJson ↔
    ∀ fields ∈ r.contents ++ r.authors ++ r.links ++ r.enclosures, (Value.dict fields).IsJson := by
  rw [toValue, toFields_eq, isJson_present_iff]
  simp [members, isJson_text, isJson_listed_iff, or_imp, forall_and]

end Record

/-! ## What is copied -/

namespace Entry

/-- The fields of which parts are copied, with the names that are kept of their items. -/
def copied : List (String × List String) :=
  [("content", ["type", "value", "language"]), ("authors", ["name", "email", "href"]),
    ("links", ["rel", "type", "href", "title"]), ("enclosures", ["href", "type", "length"])]

/-- A value that an entry gives under a kept name in a mapping of a list. -/
def Copies (e : Entry) (v : Value) : Prop :=
  ∃ key names items fields name, (key, names) ∈ copied ∧ e.find? key = .ok (some (.list items)) ∧
    .dict fields ∈ items ∧ name ∈ names ∧ fields.lookup name = some v

theorem isJson_project_iff {names : List String} {fields : Fields} :
    (Value.dict (project names fields)).IsJson ↔
      ∀ name ∈ names, ∀ v, fields.lookup name = some v → v.IsJson := by
  rw [Value.isJson_dict_iff]
  constructor
  · intro h name hname v hv
    by_cases hnull : v = .null
    · exact hnull ▸ .null
    · exact h (name, v) (mem_project.mpr ⟨hname, hv, hnull⟩)
  · rintro h ⟨name, v⟩ hmem
    obtain ⟨hname, hv, -⟩ := mem_project.mp hmem
    exact h name hname v hv

theorem isJson_projections_iff {names : List String} {given : Option Value} :
    (∀ kept ∈ projections names given, (Value.dict kept).IsJson) ↔
      ∀ fields, .dict fields ∈ itemsOf given → (Value.dict (project names fields)).IsJson := by
  have hmap : (∀ kept ∈ projections names given, (Value.dict kept).IsJson) ↔
      ∀ item ∈ itemsOf given, ∀ kept, projection? names item = some kept → kept.IsJson := by
    rw [← List.forall_mem_map, map_projections]
    simp only [List.forall_mem_filterMap]
  rw [hmap]
  constructor
  · intro h fields hmem
    by_cases hempty : project names fields = []
    · simp [hempty, Value.isJson_dict_iff]
    · exact h _ hmem _ (projection?_eq_some_iff.mpr ⟨fields, rfl, hempty, rfl⟩)
  · intro h item hmem kept hkept
    obtain ⟨fields, rfl, -, rfl⟩ := projection?_eq_some_iff.mp hkept
    exact h fields hmem

section

variable {e : Entry} {answer : String → Option Value} {source : String} {record : Record}

theorem Answers.copies_iff (answers : e.Answers answer) {v : Value} : e.Copies v ↔
    ∃ c ∈ copied, ∃ fields, .dict fields ∈ itemsOf (answer c.1) ∧
      ∃ name ∈ c.2, fields.lookup name = some v := by
  unfold Copies
  simp only [answers _, Except.ok.injEq, mem_itemsOf_iff]
  constructor
  · rintro ⟨key, names, items, fields, name, hcopied, hgiven, hmem, hname, hv⟩
    exact ⟨(key, names), hcopied, fields, ⟨items, hgiven, hmem⟩, name, hname, hv⟩
  · rintro ⟨⟨key, names⟩, hcopied, fields, ⟨items, hgiven, hmem⟩, name, hname, hv⟩
    exact ⟨key, names, items, fields, name, hcopied, hgiven, hmem, hname, hv⟩

theorem Answers.isJson_iff (answers : e.Answers answer) (source : String) :
    (recordOf answer source).toValue.IsJson ↔ ∀ v, e.Copies v → v.IsJson := by
  have hlists : (∀ kept ∈ (recordOf answer source).contents ++ (recordOf answer source).authors ++
        (recordOf answer source).links ++ (recordOf answer source).enclosures,
          (Value.dict kept).IsJson) ↔
      ∀ c ∈ copied, ∀ kept ∈ projections c.2 (answer c.1), (Value.dict kept).IsJson := by
    simp [copied, recordOf, or_imp, forall_and]
  rw [Record.toValue_isJson_iff, hlists]
  simp only [isJson_projections_iff, isJson_project_iff, answers.copies_iff]
  constructor
  · rintro h v ⟨c, hc, fields, hmem, name, hname, hv⟩
    exact h c hc fields hmem name hname v hv
  · intro h c hc fields hmem name hname v hv
    exact h v ⟨c, hc, fields, hmem, name, hname, hv⟩

/-! ## Entries that are fit for JSON -/

theorem isJson_of_elements {v : Value} {items : List Value} (hv : v.IsJson)
    (h : elements v = .ok items) : ∀ item ∈ items, item.IsJson := by
  intro item hmem
  cases hv with
  | list hitems =>
      cases h
      exact hitems item hmem
  | text s =>
      cases h
      obtain ⟨c, -, rfl⟩ := List.mem_map.mp hmem
      exact .text _
  | dict hfields =>
      cases h
      obtain ⟨f, -, rfl⟩ := List.mem_map.mp hmem
      exact .text _
  | _ => cases h

theorem isJson_of_enclosuresAmong {links found : List Value} (hlinks : ∀ v ∈ links, v.IsJson)
    (h : enclosuresAmong links = .ok (some found)) : ∀ v ∈ found, v.IsJson := by
  induction links generalizing found with
  | nil =>
      cases h
      exact fun _ hmem => nomatch hmem
  | cons v rest ih =>
      obtain ⟨hv, hrest⟩ := List.forall_mem_cons.mp hlinks
      cases v with
      | dict fields =>
          unfold enclosuresAmong at h
          split at h
          · cases h
          · obtain ⟨among, hamong, h⟩ := exists_of_bind_eq_ok h
            split at h
            · obtain ⟨items, rfl, rfl⟩ := Option.map_eq_some_iff.mp (Except.ok.inj h)
              refine List.forall_mem_cons.mpr ⟨.dict fun f hf => ?_, ih hrest hamong⟩
              exact Value.isJson_dict_iff.mp hv f (List.mem_of_mem_filter hf)
            · cases h
              exact ih hrest hamong
      | _ => cases h

theorem isJson_of_firstOf {fields : Fields} {keys : List String} {v : Value}
    (hfields : (Value.dict fields).IsJson) (h : firstOf fields keys = some v) : v.IsJson := by
  obtain ⟨key, -, hkey⟩ := List.exists_of_findSome?_eq_some h
  exact hfields.of_lookup hkey

theorem isJson_of_derivedFind {fields : Fields} {key : String} {v : Value}
    (hfields : (Value.dict fields).IsJson) (h : derivedFind fields key = .ok (some v)) :
    v.IsJson := by
  by_cases hkey : key = "enclosures"
  · unfold derivedFind at h
    rw [if_pos hkey] at h
    split at h
    · cases h
    · rename_i links hlinks
      obtain ⟨items, hitems, h⟩ := exists_of_bind_eq_ok h
      obtain ⟨among, hamong, h⟩ := exists_of_bind_eq_ok h
      obtain ⟨found, rfl, rfl⟩ := Option.map_eq_some_iff.mp (Except.ok.inj h)
      exact .list (isJson_of_enclosuresAmong
        (isJson_of_elements (hfields.of_lookup hlinks) hitems) hamong)
  · have hanswer := Except.ok.inj ((derivedFind_of_ne hkey).symm.trans h)
    unfold substitute at hanswer
    repeat' split at hanswer
    · exact isJson_of_firstOf hfields hanswer
    · exact isJson_of_firstOf hfields hanswer
    · exact isJson_of_firstOf hfields hanswer
    · exact hfields.of_lookup hanswer

/-- An entry that is fit for JSON gives no other answers. -/
theorem isJson_of_find? {key : String} {v : Value} (he : e.value.IsJson)
    (h : e.find? key = .ok (some v)) : v.IsJson := by
  obtain ⟨lookup, value⟩ := e
  cases value with
  | dict fields =>
      cases lookup with
      | plain => exact he.of_lookup (Except.ok.inj h)
      | derived => exact isJson_of_derivedFind he h
  | _ => cases h

theorem isJson_of_copies {v : Value} (he : e.value.IsJson) (h : e.Copies v) : v.IsJson := by
  obtain ⟨key, names, items, fields, name, -, hfind, hmem, -, hv⟩ := h
  have hitems := Value.isJson_list_iff.mp (isJson_of_find? he hfind)
  exact (hitems _ hmem).of_lookup hv

/-- **A record is as fit for JSON as what is copied into it.** That is the values which stand under
the kept names in mappings of four lists; all else in a record is text. An entry that is fit for
JSON as a whole becomes a record that is. -/
theorem record_isJson_iff (h : e.toRecord source = .ok record) :
    (record.toValue.IsJson ↔ ∀ v, e.Copies v → v.IsJson) ∧
      (e.value.IsJson → record.toValue.IsJson) := by
  obtain ⟨answer, answers, rfl⟩ := toRecord_eq_ok_iff.mp h
  have hiff := answers.isJson_iff source
  exact ⟨hiff, fun he => hiff.mpr fun v hv => isJson_of_copies he hv⟩

end

/-- A mapping with bytes for a title, which are left out, and a list for the kind of its content,
which is copied. -/
def mixed : Entry := ⟨.plain, .dict [("title", .bytes [65]),
  ("content", .list [.dict [("value", .text "v"), ("type", .list [.null])]])]⟩

theorem record_isJson_iff_mixed : ∃ record, mixed.toRecord "a" = .ok record ∧
    record.toValue.IsJson ∧ (∀ v, mixed.Copies v → v.IsJson) ∧ ¬mixed.value.IsJson := by
  obtain ⟨record, hrecord⟩ : ∃ record, mixed.toRecord "a" = .ok record := ⟨_, rfl⟩
  have hlists : record.contents ++ record.authors ++ record.links ++ record.enclosures =
      [[("type", .list [.null]), ("value", .text "v")]] := by
    cases hrecord
    rfl
  have hjson : record.toValue.IsJson := by
    rw [Record.toValue_isJson_iff, hlists, List.forall_mem_singleton, Value.isJson_dict_iff,
      List.forall_mem_cons, List.forall_mem_singleton]
    exact ⟨.list (List.forall_mem_singleton.mpr .null), .text "v"⟩
  refine ⟨record, hrecord, hjson, (record_isJson_iff hrecord).1.mp hjson, fun hmixed => ?_⟩
  cases Value.isJson_dict_iff.mp hmixed ("title", .bytes [65]) List.mem_cons_self

def undecoded : Entry := ⟨.plain, .dict [("id", .text "A"),
  ("content", .list [.dict [("type", .text "text/html"), ("value", .bytes [98, 111, 100, 121])]])]⟩

/-- Bytes of a content that was not decoded come into the record. -/
theorem undecoded_record_not_json : ∃ record, undecoded.toRecord "a" = .ok record ∧
    record.contents = [[("type", .text "text/html"), ("value", .bytes [98, 111, 100, 121])]] ∧
      ¬record.toValue.IsJson := by
  refine ⟨_, rfl, rfl, fun h => ?_⟩
  have hcontent := (Record.toValue_isJson_iff _).mp h
    [("type", .text "text/html"), ("value", .bytes [98, 111, 100, 121])] List.mem_cons_self
  cases Value.isJson_dict_iff.mp hcontent ("value", .bytes [98, 111, 100, 121])
    (List.mem_cons_of_mem _ List.mem_cons_self)

end Entry

end FeedIntake
