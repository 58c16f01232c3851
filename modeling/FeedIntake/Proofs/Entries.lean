import FeedIntake.Record

/-! # Faults of reading entries

An entry becomes a record through a dozen look-ups, and whatever goes wrong on the way went wrong in
one of them. A plain mapping answers every look-up; other entries may fail to answer, but never by
a request to stop.
-/

namespace FeedIntake

/-- Every fault that `x` may end in has the property `P`. -/
def FaultsOnly (P : Fault → Prop) {α : Type} (x : Except Fault α) : Prop := ∀ f, x = .error f → P f

namespace FaultsOnly

variable {P : Fault → Prop} {α β : Type}

theorem ok (a : α) : FaultsOnly P (.ok a : Except Fault α) := by
  intro f h
  cases h

theorem error {f : Fault} (h : P f) : FaultsOnly P (.error f : Except Fault α) := by
  intro g hg
  cases hg
  exact h

theorem bind {x : Except Fault α} {next : α → Except Fault β} (hx : FaultsOnly P x)
    (hnext : ∀ a, FaultsOnly P (next a)) : FaultsOnly P (x >>= next) := by
  intro f h
  cases x with
  | error g =>
      change (Except.error g : Except Fault β) = .error f at h
      exact hx f (by rw [Except.error.inj h])
  | ok a => exact hnext a f h

theorem exists_ok {x : Except Fault α} (h : FaultsOnly (fun _ => False) x) : ∃ a, x = .ok a := by
  cases x with
  | error f => exact (h f rfl).elim
  | ok a => exact ⟨a, rfl⟩

end FaultsOnly

namespace Entry

section

variable {P : Fault → Prop} {e : Entry}

theorem text?_faultsOnly (h : ∀ key, FaultsOnly P (e.find? key)) (key : String) :
    FaultsOnly P (e.text? key) := .bind (h key) fun _ => .ok _

theorem description?_faultsOnly (h : ∀ key, FaultsOnly P (e.find? key)) :
    FaultsOnly P e.description? := by
  unfold description?
  refine .bind (text?_faultsOnly h _) fun summary => ?_
  split
  · exact .ok _
  · exact text?_faultsOnly h _

theorem date?_faultsOnly (h : ∀ key, FaultsOnly P (e.find? key)) (name : String) :
    FaultsOnly P (e.date? name) := by
  unfold date?
  refine .bind (h _) fun parsed => ?_
  split
  · exact .ok _
  · exact .bind (text?_faultsOnly h _) fun _ => .ok _

theorem toRecord_faultsOnly (h : ∀ key, FaultsOnly P (e.find? key)) (source : String) :
    FaultsOnly P (e.toRecord source) := by
  have text := text?_faultsOnly h
  have date := date?_faultsOnly h
  unfold toRecord
  refine .bind (text _) fun title => ?_
  refine .bind (description?_faultsOnly h) fun description => ?_
  refine .bind (h _) fun contents => ?_
  refine .bind (text _) fun author => ?_
  refine .bind (h _) fun authors => ?_
  refine .bind (h _) fun categories => ?_
  refine .bind (text _) fun uri => ?_
  refine .bind (text _) fun link => ?_
  refine .bind (h _) fun links => ?_
  refine .bind (h _) fun enclosures => ?_
  refine .bind (date _) fun published => ?_
  exact .bind (date _) fun updated => .ok _

end

/-! ## Plain entries -/

/-- A mapping whose fields are looked up as they stand. -/
def IsPlain (e : Entry) : Prop := e.lookup = .plain ∧ ∃ fields, e.value = .dict fields

theorem IsPlain.find?_faultsOnly {e : Entry} (h : e.IsPlain) (key : String) :
    FaultsOnly (fun _ => False) (e.find? key) := by
  obtain ⟨hl, fields, hv⟩ := h
  unfold find?
  rw [hv, hl]
  exact .ok _

theorem IsPlain.exists_toRecord {e : Entry} (h : e.IsPlain) (source : String) :
    ∃ record, e.toRecord source = .ok record :=
  (toRecord_faultsOnly h.find?_faultsOnly source).exists_ok

/-! ## What goes wrong in a look-up -/

section

variable {P : Fault → Prop} (h : ∀ text, P (.outside .wrongType text))
include h

theorem elements_faultsOnly (v : Value) : FaultsOnly P (elements v) := by
  cases v <;> first | exact .ok _ | exact .error (h _)

theorem enclosuresAmong_faultsOnly (links : List Value) :
    FaultsOnly P (enclosuresAmong links) := by
  induction links with
  | nil => exact .ok _
  | cons v rest ih =>
      cases v with
      | dict fields =>
          unfold enclosuresAmong
          split
          · exact .ok _
          · refine .bind ih fun found => ?_
            split <;> exact .ok _
      | _ => exact .error (h _)

/-- A mapping fails to answer only where something in it is of the wrong type. -/
theorem find?_mapping_faultsOnly (lookup : Lookup) (fields : Fields) (key : String) :
    FaultsOnly P (find? ⟨lookup, .dict fields⟩ key) := by
  cases lookup with
  | plain => exact .ok _
  | derived =>
      show FaultsOnly P (derivedFind fields key)
      unfold derivedFind
      split
      · split
        · exact .ok _
        · exact .bind (elements_faultsOnly h _) fun items =>
            .bind (enclosuresAmong_faultsOnly h items) fun _ => .ok _
      · repeat' split
        all_goals exact .ok _

end

theorem find?_faultsOnly (e : Entry) (key : String) :
    FaultsOnly (fun f => f.isCancellation = false) (e.find? key) := by
  obtain ⟨lookup, value⟩ := e
  cases value with
  | dict fields => exact find?_mapping_faultsOnly (fun _ => rfl) lookup fields key
  | _ => exact .error rfl

theorem toRecord_not_cancellation {e : Entry} {source : String} {fault : Fault}
    (h : e.toRecord source = .error fault) : fault.isCancellation = false :=
  toRecord_faultsOnly e.find?_faultsOnly source fault h

theorem source_of_toRecord {e : Entry} {source : String} {record : Record}
    (h : e.toRecord source = .ok record) : record.source = source := by
  simp only [toRecord, bind, Except.bind, pure, Except.pure] at h
  repeat' split at h
  all_goals cases h
  rfl

/-! ## Identities of entries -/

def identity (e : Entry) (source : String) : String :=
  match e.toRecord source with
  | .ok record => record.identity
  | .error _ => ""

theorem identity_of_toRecord {e : Entry} {source : String} {record : Record}
    (h : e.toRecord source = .ok record) : e.identity source = record.identity := by
  unfold identity
  rw [h]

theorem map_identity {entries : List Entry} {source : String} {records : List Record}
    (h : entries.map (·.toRecord source) = records.map .ok) :
    entries.map (·.identity source) = records.map (·.identity) := by
  induction entries generalizing records with
  | nil =>
      cases records with
      | nil => rfl
      | cons record records => simp at h
  | cons e entries ih =>
      cases records with
      | nil => simp at h
      | cons record records =>
          simp only [List.map_cons, List.cons.injEq] at h ⊢
          exact ⟨identity_of_toRecord h.1, ih h.2⟩

def bare (x : String) : Entry := ⟨.plain, .dict [("id", .text x)]⟩

theorem bare_isPlain (x : String) : (bare x).IsPlain := ⟨rfl, _, rfl⟩

end Entry

def Record.bare (source x : String) : Record :=
  ⟨none, none, [], none, [], [], some x, none, [], [], none, none, source⟩

end FeedIntake
