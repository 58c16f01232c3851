import FeedIntake.Log.Entry
import FeedIntake.Proofs.JsonReading
import FeedIntake.Proofs.JsonText
import FeedIntake.Proofs.RecordShape

/-! # Log lines

The structured form of an entry is one line. The object on it holds what belongs to the entry
itself, and every attribute once: at the top, or in the group of its name. No attribute comes in the
place of what belongs to the entry, whatever its name is.
-/

namespace FeedIntake

namespace Fields

variable {fields : Fields} {names : List String}

theorem pick_eq_present (fields : Fields) (names : List String) :
    pick fields names = present (names.map fun name => (name, fields.lookup name)) := by
  rw [pick, present, List.filterMap_map]
  rfl

theorem names_pick (fields : Fields) (names : List String) :
    ((pick fields names).map Prod.fst).Sublist names := by
  rw [pick_eq_present]
  simpa [Function.comp_def] using names_present (names.map fun name => (name, fields.lookup name))

theorem mem_pick {f : String × Value} :
    f ∈ pick fields names ↔ f.1 ∈ names ∧ fields.lookup f.1 = some f.2 := by
  obtain ⟨key, value⟩ := f
  rw [pick, List.mem_filterMap]
  constructor
  · rintro ⟨name, hname, h⟩
    obtain ⟨v, hv, heq⟩ := Option.map_eq_some_iff.mp h
    cases heq
    exact ⟨hname, hv⟩
  · rintro ⟨hname, hv⟩
    exact ⟨key, hname, Option.map_eq_some_iff.mpr ⟨value, hv, rfl⟩⟩

theorem pick_congr {other : Fields} (h : ∀ name ∈ names, fields.lookup name = other.lookup name) :
    pick fields names = pick other names :=
  List.filterMap_congr fun name hname => by rw [h name hname]

/-- Where no key comes twice, a member is what is found under its key. -/
theorem lookup_eq_some_iff_mem (hkeys : (fields.map Prod.fst).Nodup) {f : String × Value} :
    fields.lookup f.1 = some f.2 ↔ f ∈ fields := by
  obtain ⟨key, value⟩ := f
  induction fields with
  | nil => simp
  | cons first rest ih =>
      obtain ⟨hfirst, hrest⟩ := List.nodup_cons.mp hkeys
      obtain ⟨name, v⟩ := first
      by_cases h : key = name
      · subst h
        have hmem : (key, value) ∉ rest := fun hf => hfirst (List.mem_map.mpr ⟨_, hf, rfl⟩)
        simp [hmem, eq_comm]
      · simpa [List.lookup_cons, beq_false_of_ne h, h] using ih hrest

theorem nodup_pick (hnames : names.Nodup) : ((pick fields names).map Prod.fst).Nodup :=
  hnames.sublist (names_pick fields names)

theorem perm_pick (hkeys : (fields.map Prod.fst).Nodup) (hnames : names.Nodup) :
    (pick fields names).Perm (fields.filter fun f => names.contains f.1) := by
  refine (List.perm_ext_iff_of_nodup (nodup_pick hnames).of_map (hkeys.of_map.filter _)).mpr ?_
  intro f
  rw [mem_pick, lookup_eq_some_iff_mem hkeys, List.mem_filter, List.contains_iff_mem]
  exact and_comm

end Fields

namespace LogEntry

/-! ## The places of an object -/

def grouped (fields : Fields) : Option Value :=
  if fields.isEmpty then none else some (.dict fields)

def rest (e : LogEntry) : Fields := e.shown.filter fun a => !groupedNames.contains a.1

/-- The names at the top, each with its value, if there is one. -/
def places (e : LogEntry) (stamp : LogStamp) (message : String) : List (String × Option Value) :=
  [("time", some (.text stamp.instant.isoText)), ("level", some (.text (Severity.nameOf e.level))),
    ("logger", some (.text e.logger)), ("component", e.shown.lookup "component"),
    ("source", e.shown.lookup "source"), ("message", some (.text message)),
    ("run", grouped (Fields.pick e.shown runNames)),
    ("failure", grouped (Fields.pick e.shown failureNames)), ("extra", grouped e.rest),
    ("exception", e.fault.map fun fault => .text fault.report)]

/-- The members of a group of an object, none where there is no such group. -/
def groupIn (told : Fields) (name : String) : Fields :=
  match told.lookup name with
  | some (.dict fields) => fields
  | _ => []

/-- The attributes that an object holds, at the top and in its groups. -/
def attributesIn (told : Fields) : Fields :=
  Fields.pick told contextNames ++ groupIn told "run" ++ groupIn told "failure" ++
    groupIn told "extra"

section

variable (e : LogEntry) (stamp : LogStamp) (message : String)

theorem group_eq_present (name : String) (fields : Fields) :
    group name fields = Fields.present [(name, grouped fields)] := by
  cases fields <;> rfl

theorem members_eq_present : e.members stamp message = Fields.present (e.places stamp message) := by
  have hnil : Fields.present [] = [] := rfl
  unfold members places rest
  rw [group_eq_present, group_eq_present, group_eq_present, Fields.pick_eq_present]
  simp only [contextNames, List.map_cons, List.map_nil, Fields.present_cons, hnil,
    Option.toList_some, List.append_assoc, List.cons_append, List.nil_append, List.append_nil]
  cases e.fault <;> rfl

theorem nodup_places : ((e.places stamp message).map Prod.fst).Nodup := by
  have hnames : (e.places stamp message).map Prod.fst =
      ["time", "level", "logger", "component", "source", "message", "run", "failure", "extra",
        "exception"] := rfl
  rw [hnames]
  decide

theorem nodup_members : ((e.members stamp message).map Prod.fst).Nodup := by
  rw [members_eq_present]
  exact (nodup_places e stamp message).sublist (Fields.names_present _)

theorem lookup_members {name : String} {v : Option Value}
    (h : (name, v) ∈ e.places stamp message) : (e.members stamp message).lookup name = v := by
  rw [members_eq_present]
  exact Fields.lookup_present (nodup_places e stamp message) h

theorem groupIn_members {name : String} {fields : Fields}
    (h : (name, grouped fields) ∈ e.places stamp message) :
    groupIn (e.members stamp message) name = fields := by
  rw [groupIn, lookup_members e stamp message h]
  cases fields <;> rfl

theorem groupIn_run :
    groupIn (e.members stamp message) "run" = Fields.pick e.shown runNames :=
  groupIn_members e stamp message (by simp [places])

theorem groupIn_failure :
    groupIn (e.members stamp message) "failure" = Fields.pick e.shown failureNames :=
  groupIn_members e stamp message (by simp [places])

theorem groupIn_extra : groupIn (e.members stamp message) "extra" = e.rest :=
  groupIn_members e stamp message (by simp [places])

theorem pick_members : Fields.pick (e.members stamp message) contextNames =
    Fields.pick e.shown contextNames := by
  refine Fields.pick_congr fun name hname => lookup_members e stamp message ?_
  rcases List.mem_cons.mp hname with rfl | hname
  · simp [places]
  · cases List.mem_singleton.mp hname
    simp [places]

end

theorem attributesIn_members (e : LogEntry) (stamp : LogStamp) (message : String) :
    attributesIn (e.members stamp message) =
      Fields.pick e.shown contextNames ++ Fields.pick e.shown runNames ++
        Fields.pick e.shown failureNames ++ e.rest := by
  rw [attributesIn, pick_members, groupIn_run, groupIn_failure, groupIn_extra]

/-- **Every attribute that is shown stands in the object, and stands in it once.** -/
theorem perm_attributesIn {e : LogEntry} (hnames : (e.attributes.map Prod.fst).Nodup)
    (stamp : LogStamp) (message : String) :
    (attributesIn (e.members stamp message)).Perm e.shown := by
  have hkeys : (e.shown.map Prod.fst).Nodup :=
    hnames.sublist (List.filter_sublist.map Prod.fst)
  have happend : attributesIn (e.members stamp message) =
      Fields.pick e.shown groupedNames ++ e.rest := by
    rw [attributesIn_members, groupedNames, Fields.pick, Fields.pick, Fields.pick, Fields.pick,
      List.filterMap_append, List.filterMap_append]
  rw [happend]
  have hgrouped := Fields.perm_pick hkeys (show groupedNames.Nodup by decide)
  exact (hgrouped.append_right e.rest).trans
    (List.filter_append_perm (fun a => groupedNames.contains a.1) e.shown)

/-- An object lays an entry out: what belongs to the entry stands under its own names, and the
attributes stand beside it or in groups, each where its name belongs. -/
structure IsLaidOut (e : LogEntry) (stamp : LogStamp) (message : String) (told : Fields) :
    Prop where
  time : told.lookup "time" = some (.text stamp.instant.isoText)
  level : told.lookup "level" = some (.text (Severity.nameOf e.level))
  logger : told.lookup "logger" = some (.text e.logger)
  message : told.lookup "message" = some (.text message)
  exception : told.lookup "exception" = e.fault.map fun fault => .text fault.report
  attributes : (attributesIn told).Perm e.shown
  run : ∀ a ∈ groupIn told "run", a.1 ∈ runNames
  failure : ∀ a ∈ groupIn told "failure", a.1 ∈ failureNames
  extra : ∀ a ∈ groupIn told "extra", a.1 ∉ groupedNames
  /-- A group is there if something stands in it. -/
  groups : ∀ name ∈ ["run", "failure", "extra"], told.lookup name = grouped (groupIn told name)
  /-- Nothing else is there. -/
  names : ∀ m ∈ told, m.1 ∈ ["time", "level", "logger", "message", "run", "failure", "extra",
    "exception"] ++ contextNames

theorem isLaidOut_members {e : LogEntry} (hnames : (e.attributes.map Prod.fst).Nodup)
    (stamp : LogStamp) (message : String) :
    e.IsLaidOut stamp message (e.members stamp message) where
  time := lookup_members e stamp message (by simp [places])
  level := lookup_members e stamp message (by simp [places])
  logger := lookup_members e stamp message (by simp [places])
  message := lookup_members e stamp message (by simp [places])
  exception := lookup_members e stamp message (by simp [places])
  attributes := perm_attributesIn hnames stamp message
  run := by
    intro a ha
    rw [groupIn_run] at ha
    exact (Fields.mem_pick.mp ha).1
  failure := by
    intro a ha
    rw [groupIn_failure] at ha
    exact (Fields.mem_pick.mp ha).1
  extra := by
    intro a ha
    rw [groupIn_extra, rest, List.mem_filter] at ha
    simpa using ha.2
  groups := by
    intro name hname
    simp only [List.mem_cons, List.not_mem_nil, or_false] at hname
    rcases hname with rfl | rfl | rfl
    · rw [groupIn_run]
      exact lookup_members e stamp message (by simp [places])
    · rw [groupIn_failure]
      exact lookup_members e stamp message (by simp [places])
    · rw [groupIn_extra]
      exact lookup_members e stamp message (by simp [places])
  names := by
    intro m hm
    rw [members_eq_present] at hm
    have hname := (Fields.names_present _).subset (List.mem_map_of_mem (f := Prod.fst) hm)
    have hplaces : (e.places stamp message).map Prod.fst ⊆
        ["time", "level", "logger", "message", "run", "failure", "extra", "exception"] ++
          contextNames := by
      show ["time", "level", "logger", "component", "source", "message", "run", "failure", "extra",
        "exception"] ⊆ _
      decide
    exact hplaces hname

/-! ## The line -/

theorem sound_grouped {fields : Fields} (hkeys : (fields.map Prod.fst).Nodup)
    (h : ∀ f ∈ fields, f.2.Sound) : ∀ v, grouped fields = some v → v.Sound := by
  intro v hv
  unfold grouped at hv
  split at hv
  · cases hv
  · cases hv
    exact .dict hkeys h

theorem sound_members {e : LogEntry} (hnames : (e.attributes.map Prod.fst).Nodup)
    (hsound : ∀ a ∈ e.attributes, a.2.Sound) (stamp : LogStamp) (message : String) :
    (Value.dict (e.members stamp message)).Sound := by
  have hkeys : (e.shown.map Prod.fst).Nodup :=
    hnames.sublist (List.filter_sublist.map Prod.fst)
  have hshown : ∀ f ∈ e.shown, f.2.Sound := fun f hf => hsound f (List.mem_of_mem_filter hf)
  have hpick (names : List String) : ∀ f ∈ Fields.pick e.shown names, f.2.Sound := fun f hf =>
    hshown f ((Fields.lookup_eq_some_iff_mem hkeys).mp (Fields.mem_pick.mp hf).2)
  have hlookup (name : String) : ∀ v, e.shown.lookup name = some v → v.Sound := fun v hv =>
    hshown (name, v) ((Fields.lookup_eq_some_iff_mem hkeys).mp hv)
  have htext (s : String) : ∀ v, some (Value.text s) = some v → v.Sound := by
    rintro v ⟨⟩
    exact .text s
  have hfault : ∀ v, (e.fault.map fun fault => Value.text fault.report) = some v → v.Sound := by
    intro v hv
    obtain ⟨fault, -, rfl⟩ := Option.map_eq_some_iff.mp hv
    exact .text _
  have hplaces : ∀ p ∈ e.places stamp message, ∀ v, p.2 = some v → v.Sound := by
    unfold places
    simp only [List.forall_mem_cons]
    exact ⟨htext _, htext _, htext _, hlookup _, hlookup _, htext _,
      sound_grouped (Fields.nodup_pick (by decide)) (hpick _),
      sound_grouped (Fields.nodup_pick (by decide)) (hpick _),
      sound_grouped (hkeys.sublist (List.filter_sublist.map Prod.fst))
        fun f hf => hshown f (List.mem_of_mem_filter hf),
      hfault, fun p hp => absurd hp List.not_mem_nil⟩
  refine .dict (nodup_members e stamp message) fun f hf => ?_
  rw [members_eq_present, Fields.present, List.mem_filterMap] at hf
  obtain ⟨p, hp, hf⟩ := hf
  obtain ⟨v, hv, rfl⟩ := Option.map_eq_some_iff.mp hf
  exact hplaces p hp v hv

def isWritable (e : LogEntry) : Bool :=
  Decimal.isWritable e.level && e.shown.all fun a => a.2.isWritable

theorem all_group (name : String) (fields : Fields) :
    ((group name fields).all fun f => f.2.isWritable) = fields.all fun f => f.2.isWritable := by
  cases fields with
  | nil => rfl
  | cons first rest => simp [group, Value.isWritable, Value.membersWritable_eq_all]

/-- The object can be written if the attributes can: the rest of it is text. -/
theorem isWritable_members {e : LogEntry} (hnames : (e.attributes.map Prod.fst).Nodup)
    (stamp : LogStamp) (message : String) :
    (Value.dict (e.members stamp message)).isWritable = e.shown.all fun a => a.2.isWritable := by
  rw [← (perm_attributesIn hnames stamp message).all_eq, attributesIn_members, Value.isWritable,
    Value.membersWritable_eq_all, members, rest]
  simp only [List.all_append, all_group]
  cases e.fault <;> simp [Value.isWritable]

theorem levelName_eq (e : LogEntry) : e.levelName =
    if Decimal.isWritable e.level then .ok (Severity.nameOf e.level) else .error .tooLong := rfl

theorem structured_of_level (e : LogEntry) (stamp : LogStamp)
    (h : Decimal.isWritable e.level = false) : e.structured stamp = .error .tooLong := by
  rw [structured, levelName_eq, h]
  rfl

theorem structured_of_fault {e : LogEntry} {fault : Fault} (hlevel : Decimal.isWritable e.level)
    (h : e.message = .error fault) (stamp : LogStamp) : e.structured stamp = .error fault := by
  rw [structured, levelName_eq, if_pos hlevel, h]
  rfl

theorem structured_of_message {e : LogEntry} {message : String}
    (hlevel : Decimal.isWritable e.level) (h : e.message = .ok message) (stamp : LogStamp) :
    e.structured stamp = (Value.dict (e.members stamp message)).write Value.json := by
  rw [structured, levelName_eq, if_pos hlevel, h]
  rfl

theorem message_of_noName {e : LogEntry} (h : e.attributes.lookup messageName = none)
    (hargs : e.arguments = []) : e.message = .ok e.template := by
  rw [message, h, hargs]
  rfl

theorem structured_of_tooLong {e : LogEntry} {message : String}
    (hnames : (e.attributes.map Prod.fst).Nodup) (hmessage : e.message = .ok message)
    (h : e.isWritable = false) (stamp : LogStamp) : e.structured stamp = .error .tooLong := by
  by_cases hlevel : Decimal.isWritable e.level
  · have hshown : (e.shown.all fun a => a.2.isWritable) = false := by
      simpa [isWritable, hlevel] using h
    rw [structured_of_message hlevel hmessage, Value.write, isWritable_members hnames, hshown]
    rfl
  · exact structured_of_level e stamp (Bool.eq_false_of_not_eq_true hlevel)

/-- **The structured form loses nothing.** Attributes have names of their own, and values that can
be told in full.

A template without arguments is the message, unless an attribute has taken the name by which the
message is asked for. An entry without a message, or with a whole number of too many digits, has no
structured form. Every other entry is one line, and what is read from the line is an object that
lays the entry out. -/
theorem structured_loses_nothing (e : LogEntry) (stamp : LogStamp)
    (hnames : (e.attributes.map Prod.fst).Nodup) (hsound : ∀ a ∈ e.attributes, a.2.Sound) :
    (∀ value, e.attributes.lookup messageName = some value →
      e.message = .error (.notCallable value)) ∧
    (e.attributes.lookup messageName = none → e.arguments = [] → e.message = .ok e.template) ∧
    (Decimal.isWritable e.level = false → e.structured stamp = .error .tooLong) ∧
    (∀ fault, Decimal.isWritable e.level → e.message = .error fault →
      e.structured stamp = .error fault) ∧
    ∀ message, e.message = .ok message →
      (e.isWritable = false → e.structured stamp = .error .tooLong) ∧
      (e.isWritable → ∃ line told,
        e.structured stamp = .ok line ∧ Text.Plain line.toList ∧
        line = (Value.dict told).json ∧ (told.map Prod.fst).Nodup ∧
        Json.read? line = some (.dict (told.map fun m => (m.1, m.2.echo))) ∧
        e.IsLaidOut stamp message told) := by
  refine ⟨fun value h => ?_, message_of_noName, structured_of_level e stamp,
    fun fault hlevel h => ?_, fun message h => ⟨fun hlong => ?_, fun hwritable => ?_⟩⟩
  · rw [LogEntry.message, h]
  · exact structured_of_fault hlevel h stamp
  · exact structured_of_tooLong hnames h hlong stamp
  · obtain ⟨hlevel, hshown⟩ := Bool.and_eq_true_iff.mp hwritable
    have hobject : (Value.dict (e.members stamp message)).isWritable :=
      (isWritable_members hnames stamp message).trans hshown
    have hread := Json.read?_json (sound_members hnames hsound stamp message) hobject
    rw [Value.echo, Value.echoFields_eq_map] at hread
    refine ⟨_, e.members stamp message, ?_, Value.plain_json _, rfl, nodup_members e stamp message,
      hread, isLaidOut_members hnames stamp message⟩
    rw [structured_of_message hlevel h, Value.write, if_pos hobject]

/-- An entry of two lines, with attributes named like what belongs to it. -/
def misnamed : LogEntry where
  level := 20
  logger := "feedstream.provider"
  template := "two\n\"lines\""
  arguments := []
  attributes := [("time", .text "now"), ("run", .null), ("state", .text "done\n"),
    ("source", .text "http://a.example/"), ("context", .dict [("tries", .int (-2))]),
    ("logger", .list [.bool true, .float 0.5])]
  fault := none

theorem sound_misnamed : ∀ a ∈ misnamed.attributes, a.2.Sound := by
  have half : Decimal.IsFinite 0.5 := ⟨false, 4503599627370496, -53, by decide⟩
  have tries : (Value.dict [("tries", .int (-2))]).Sound :=
    .dict (by decide) (List.forall_mem_singleton.mpr (.int _))
  have pair : (Value.list [.bool true, .float 0.5]).Sound :=
    .list (List.forall_mem_cons.mpr ⟨.bool _, List.forall_mem_singleton.mpr (.float half)⟩)
  simp only [misnamed, List.forall_mem_cons]
  exact ⟨.text _, .null, .text _, .text _, tries, pair, fun a ha => absurd ha List.not_mem_nil⟩

/-- What belongs to the entry stays, and each attribute is somewhere in the object. -/
theorem structured_loses_nothing_misnamed :
    (misnamed.attributes.map Prod.fst).Nodup ∧ (∀ a ∈ misnamed.attributes, a.2.Sound) ∧
    ∃ line told, misnamed.structured ⟨.first, .midnight⟩ = .ok line ∧ Text.Plain line.toList ∧
      Json.read? line = some (.dict (told.map fun m => (m.1, m.2.echo))) ∧
      told.lookup "message" = some (.text "two\n\"lines\"") ∧
      (attributesIn told).Perm misnamed.attributes := by
  have hnames : (misnamed.attributes.map Prod.fst).Nodup := by decide
  obtain ⟨-, hmessage, -, -, htold⟩ :=
    structured_loses_nothing misnamed ⟨.first, .midnight⟩ hnames sound_misnamed
  obtain ⟨line, told, hline, plain, -, -, hread, laid⟩ :=
    (htold _ (hmessage rfl rfl)).2 (by decide)
  have hshown : misnamed.shown = misnamed.attributes :=
    List.filter_eq_self.mpr (by simp [misnamed, hiddenNames, ownNames])
  exact ⟨hnames, sound_misnamed, line, told, hline, plain, hread, laid.message,
    hshown ▸ laid.attributes⟩

def telling (name : String) (value : Value) : LogEntry where
  level := 20
  logger := "feedstream.provider"
  template := "hello"
  arguments := []
  attributes := [(name, value)]
  fault := none

theorem isWritable_tenTo {noughts : Nat} (h : Decimal.mostDigits ≤ noughts) :
    Decimal.isWritable (10 ^ noughts) = false := by
  have hlength : (Decimal.natural (10 ^ noughts)).length = noughts + 1 :=
    Decimal.length_natural_eq le_rfl (Nat.pow_lt_pow_right (by decide) noughts.lt_succ_self)
  have habs : ((10 : Int) ^ noughts).natAbs = 10 ^ noughts := Int.natAbs_pow 10 noughts
  rw [Decimal.isWritable, habs, hlength, decide_eq_false_iff_not]
  omega

/-- An attribute can take the name by which the message is asked for, and a whole number can have
too many digits: either entry can be told in full, and neither has a structured form. -/
theorem structured_withheld :
    ("getMessage" ∉ hiddenNames ∧ (Value.text "x").Sound ∧
      (telling "getMessage" (.text "x")).clash? = none ∧
      (telling "getMessage" (.text "x")).structured ⟨.first, .midnight⟩ =
        .error (.outside .wrongType "'str' object is not callable")) ∧
    ("n" ∉ hiddenNames ∧ (Value.int (10 ^ Decimal.mostDigits)).Sound ∧
      (telling "n" (.int (10 ^ Decimal.mostDigits))).clash? = none ∧
      (telling "n" (.int (10 ^ Decimal.mostDigits))).structured ⟨.first, .midnight⟩ =
        .error .tooLong) := by
  refine ⟨⟨by decide, .text _, rfl, rfl⟩, by decide, .int _, rfl, ?_⟩
  have hnames : ([("n", Value.int (10 ^ Decimal.mostDigits))].map Prod.fst).Nodup :=
    List.nodup_singleton _
  have hmessage : (telling "n" (.int (10 ^ Decimal.mostDigits))).message = .ok "hello" := rfl
  have hnumber : (Value.int (10 ^ Decimal.mostDigits)).isWritable = false :=
    isWritable_tenTo le_rfl
  refine structured_of_tooLong hnames hmessage ?_ _
  simp [isWritable, shown, telling, hiddenNames, ownNames, hnumber]

end LogEntry

end FeedIntake
