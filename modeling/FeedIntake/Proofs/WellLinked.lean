import FeedIntake.Proofs.Answers
import FeedIntake.Proofs.Sifting

/-! # Entries that cannot be read

A plain mapping becomes a record whatever it holds. A derived one is asked for its enclosures as
well, and to answer it goes through its links up to the first that has no relation. Where there is
nothing to go through, or something on the way is no mapping, it raises. No other field and no other
odd value keeps an entry from becoming a record. One such entry is enough to break off its run, with
all the entries behind it unread.
-/

namespace FeedIntake

open Affairs
open Time (DateTime)

theorem exists_bind_eq_ok_iff {α β : Type} {x : Except Fault α} {next : α → Except Fault β}
    (h : ∀ a, ∃ b, next a = .ok b) : (∃ b, x >>= next = .ok b) ↔ ∃ a, x = .ok a := by
  cases x with
  | error fault => simp [bind, Except.bind]
  | ok a => exact ⟨fun _ => ⟨a, rfl⟩, fun _ => h a⟩

/-! ## Walks over links -/

/-- A mapping with a relation, which a walk over links goes past. -/
def Value.HasRelation (v : Value) : Prop := ∃ fields rel, v = .dict fields ∧
  fields.lookup "rel" = some rel

/-- A walk over links comes to nothing but mappings. -/
def LinksHold (links : List Value) : Prop :=
  ∀ before v after, links = before ++ v :: after → (∀ u ∈ before, u.HasRelation) →
    ∃ fields, v = .dict fields

theorem linksHold_nil : LinksHold [] := by
  intro before v after h
  simp at h

theorem linksHold_cons_iff {v : Value} {rest : List Value} : LinksHold (v :: rest) ↔
    (∃ fields, v = .dict fields) ∧ (v.HasRelation → LinksHold rest) := by
  constructor
  · intro hold
    refine ⟨hold [] v rest rfl (by simp), fun hrel before u after heq hbefore => ?_⟩
    exact hold (v :: before) u after (by rw [heq, List.cons_append])
      (List.forall_mem_cons.mpr ⟨hrel, hbefore⟩)
  · rintro ⟨hv, hrest⟩ before u after heq hbefore
    cases before with
    | nil =>
        cases heq
        exact hv
    | cons first before =>
        cases heq
        obtain ⟨hfirst, hbefore⟩ := List.forall_mem_cons.mp hbefore
        exact hrest hfirst before u after rfl hbefore

namespace Entry

/-- A mapping whose links, if it is derived and has any, can be gone through. -/
def IsWellLinked (e : Entry) : Prop := ∃ fields, e.value = .dict fields ∧
  (e.lookup = .derived → ∀ links, fields.lookup "links" = some links →
    ∃ items, elements links = .ok items ∧ LinksHold items)

theorem exists_enclosuresAmong_iff (links : List Value) :
    (∃ found, enclosuresAmong links = .ok found) ↔ LinksHold links := by
  induction links with
  | nil => exact ⟨fun _ => linksHold_nil, fun _ => ⟨_, rfl⟩⟩
  | cons v rest ih =>
      rw [linksHold_cons_iff, ← ih]
      cases v with
      | dict fields =>
          rw [enclosuresAmong]
          cases hrel : fields.lookup "rel" with
          | none =>
              refine ⟨fun _ => ⟨⟨fields, rfl⟩, ?_⟩, fun _ => ⟨none, rfl⟩⟩
              rintro ⟨_, rel, ⟨⟩, hsome⟩
              rw [hrel] at hsome
              cases hsome
          | some rel =>
              have hrelation : Value.HasRelation (.dict fields) := ⟨fields, rel, rfl, hrel⟩
              refine (exists_bind_eq_ok_iff fun found => ?_).trans ?_
              · split <;> exact ⟨_, rfl⟩
              · exact ⟨fun h => ⟨⟨fields, rfl⟩, fun _ => h⟩, fun h => h.2 hrelation⟩
      | _ => simp [enclosuresAmong]

/-- A derived mapping finds its enclosures if its links can be gone through. -/
theorem exists_derivedFind_enclosures_iff (fields : Fields) :
    (∃ found, derivedFind fields "enclosures" = .ok found) ↔
      ∀ links, fields.lookup "links" = some links →
        ∃ items, elements links = .ok items ∧ LinksHold items := by
  unfold derivedFind
  rw [if_pos rfl]
  cases fields.lookup "links" with
  | none => simp
  | some links =>
      simp only [Option.some.injEq, forall_eq']
      cases elements links with
      | error fault => simp [bind, Except.bind]
      | ok items =>
          have hwalk : (∃ found, (enclosuresAmong items >>= fun among =>
              pure (among.map Value.list)) = Except.ok found) ↔ LinksHold items := by
            refine (exists_bind_eq_ok_iff ?_).trans (exists_enclosuresAmong_iff items)
            exact fun among => ⟨among.map Value.list, rfl⟩
          refine Iff.trans hwalk ?_
          simp

/-- An entry becomes a record if and only if it is well linked. -/
theorem exists_toRecord_iff {e : Entry} (source : String) :
    (∃ record, e.toRecord source = .ok record) ↔ e.IsWellLinked := by
  obtain ⟨lookup, value⟩ := e
  constructor
  · rintro ⟨record, h⟩
    obtain ⟨found, hfound⟩ := find?_enclosures_of_toRecord h
    cases value with
    | dict fields =>
        refine ⟨fields, rfl, ?_⟩
        rintro ⟨⟩
        exact (exists_derivedFind_enclosures_iff fields).mp ⟨found, hfound⟩
    | _ => cases hfound
  · rintro ⟨fields, rfl, hlinks⟩
    have hfound : ∃ found, find? ⟨lookup, .dict fields⟩ "enclosures" = .ok found := by
      cases lookup with
      | plain => exact ⟨_, rfl⟩
      | derived => exact (exists_derivedFind_enclosures_iff fields).mpr (hlinks rfl)
    obtain ⟨found, hfound⟩ := hfound
    obtain ⟨answer, answers⟩ := exists_answers_of_enclosures hfound
    exact ⟨_, answers.toRecord source⟩

theorem not_isWellLinked_of_error {e : Entry} {source : String} {fault : Fault}
    (h : e.toRecord source = .error fault) : ¬e.IsWellLinked := by
  rw [← exists_toRecord_iff source]
  rintro ⟨record, hrecord⟩
  rw [h] at hrecord
  cases hrecord

/-- What a mapping raises is about a value of the wrong type. -/
theorem wrongType_of_toRecord {lookup : Lookup} {fields : Fields} {source : String} {fault : Fault}
    (h : toRecord ⟨lookup, .dict fields⟩ source = .error fault) :
    ∃ text, fault = .outside .wrongType text :=
  toRecord_faultsOnly (P := fun fault => ∃ text, fault = .outside .wrongType text)
    (find?_mapping_faultsOnly (fun text => ⟨text, rfl⟩) lookup fields) source fault h

end Entry

/-! ## Runs over entries of all kinds -/

/-- How a run ends that has fetched these entries. If it raises, it does so at the entry after those
that it has settled. -/
inductive EndsOver (h : History) (a : ActivityId) (spec : JobSpec) (r : RunResult)
    (entries : List Entry) : RunOutcome → Prop where
  | through (success : r.success = true) (read : ∀ e ∈ entries, e.IsWellLinked) :
      EndsOver h a spec r entries .done
  | cancelled (cancelled : r.cancelled = true) : EndsOver h a spec r entries .cancelled
  /-- The entry cannot be read. -/
  | badlyLinked {e : Entry} {fault : Fault} (here : entries[r.settled]? = some e)
      (bad : ¬e.IsWellLinked) (raised : e.toRecord spec.source = .error fault) :
      EndsOver h a spec r entries (.failed (.failure (spec.processingFailure fault)))
  /-- The entry was read and admitted, and the queue did not take it. -/
  | putFailed {e : Entry} {record : Record} (fault : Fault) (here : entries[r.settled]? = some e)
      (read : e.toRecord spec.source = .ok record)
      (admitted : (h.judgementsBy a)[r.settled]? = some (record, .admitted)) :
      EndsOver h a spec r entries (.failed (.failure (spec.processingFailure fault)))

theorem Progress.getElem?_eq {spec : JobSpec} {r : RunResult} {entries rest : List Entry}
    {trail : Trail} {e : Entry} (progress : Progress spec r entries (e :: rest) trail) :
    entries[trail.length]? = some e := by
  obtain ⟨done, hsplit, hread⟩ := progress.split
  have hlength := congrArg List.length hread
  rw [List.length_map, List.length_map, Trail.length_records] at hlength
  rw [hsplit, ← hlength, List.getElem?_append_right (Nat.le_refl _), Nat.sub_self]
  rfl

section

variable {h : History} {a : ActivityId} {spec : JobSpec} {r : RunResult} {outcome : RunOutcome}
  {entries : List Entry}

theorem Phase.Stop.endsOver {p : Phase} (stop : Phase.Stop spec p r outcome)
    (hp : p.Explained (h.deedsOf a)) (hfetched : h.HasFetched a entries) :
    EndsOver h a spec r entries outcome := by
  obtain ⟨deeds, hdeeds⟩ := hfetched
  generalize hdone : h.deedsOf a = done at hp
  rw [hdone] at hdeeds
  cases stop with
  | noFeed | foreign | cancelledAsking =>
      -- It waited for its entries still.
      cases hp
      cases hdeeds
  | unreadable fault he now =>
      cases hp with
      | working progress =>
          rename_i r' e rest _ trail
          cases hdeeds
          have hsettled : (r'.fail (JobSpec.processingError fault) now).settled = trail.length :=
            progress.tally.sum
          exact .badlyLinked (by rw [hsettled]; exact progress.getElem?_eq)
            (Entry.not_isWellLinked_of_error he) he
  | putFailed fault hc now =>
      cases hp with
      | offering progress he =>
          rename_i record rest r' _ trail e
          cases hdeeds
          have hsettled : ((r'.examine record .admitted).fail (JobSpec.processingError fault)
              now).settled = trail.length := (progress.tally.offer record).sum
          refine .putFailed fault (by rw [hsettled]; exact progress.getElem?_eq) he ?_
          rw [hsettled, History.judgementsBy_eq hdone,
            List.getElem?_append_right (Nat.le_refl _), Nat.sub_self]
          rfl
  | cancelledOffering now => exact .cancelled rfl

theorem Phase.Explained.endsOver
    (hp : Phase.Explained (.ended spec r outcome) (h.deedsOf a))
    (hfetched : h.HasFetched a entries) : EndsOver h a spec r entries outcome := by
  generalize hdone : h.deedsOf a = done at hp
  cases hp with
  | stopped hp stop => exact stop.endsOver (hdone ▸ hp) hfetched
  | through progress now =>
      obtain ⟨deeds, hdeeds⟩ := hfetched
      rw [hdone] at hdeeds
      cases hdeeds
      refine .through (progress.tally.success_conclude spec.perpetual now) fun e he => ?_
      have hmem := List.mem_map_of_mem (f := (·.toRecord spec.source)) he
      rw [progress.read] at hmem
      obtain ⟨record, -, hrecord⟩ := List.mem_map.mp hmem
      exact (Entry.exists_toRecord_iff spec.source).mp ⟨record, hrecord.symm⟩

end

namespace Intake

/-- **Only its links keep a mapping from becoming a record.** A plain one always becomes one, and a
derived one if and only if its links can be gone through. A run that has its entries comes through
only if all of them can be read, and raises only where one of them cannot be or cannot be put. -/
theorem links_decide_reading (e : Entry) (source : String) :
    (e.IsPlain → ∃ record, e.toRecord source = .ok record) ∧
    ((∃ record, e.toRecord source = .ok record) ↔ e.IsWellLinked) ∧
    (∀ fields fault, e.value = .dict fields → e.toRecord source = .error fault →
      ∃ text, fault = .outside .wrongType text) ∧
    ∀ (now : DateTime) (queue : RecordQueue) (store : Snapshots) (web : List (String × Response))
      (w : Intake), Reaches (start now queue store web) w →
      ∀ (a : ActivityId) (spec : JobSpec) (r : RunResult) (outcome : RunOutcome)
        (entries : List Entry), w.specOf? a = some spec → w.result? a = some r →
        w.outcome? a = some outcome → w.history.HasFetched a entries →
          EndsOver w.history a spec r entries outcome := by
  refine ⟨fun hplain => hplain.exists_toRecord source, Entry.exists_toRecord_iff source, ?_, ?_⟩
  · obtain ⟨lookup, value⟩ := e
    rintro fields fault rfl h
    exact Entry.wrongType_of_toRecord h
  · intro now queue store web w reach a spec r outcome entries hs hr ho hfetched
    have hexplained : (w.view.phase a).Explained (w.history.deedsOf a) := reach.sound.explained a
    rw [phase_of_outcome? w a hs hr ho] at hexplained
    exact hexplained.endsOver hfetched

/-! ## A feed with one bad entry -/

/-- The entry has something in the place of its links that is no list. -/
def unlinked : Entry := ⟨.derived, .dict [("id", .text "x"), ("links", .null)]⟩

def unlinkedFirst : Intake :=
  ticks 1 ((ofFeed (.ofCapacity 0) (.ofSource "a") [unlinked, .bare "y"]).startRun 0).1

theorem reaches_unlinkedFirst :
    Reaches (start Time.Instant.first.toDateTime (.ofCapacity 0) .unbounded []) unlinkedFirst :=
  ((reaches_ofFeed (.ofCapacity 0) (.ofSource "a") _).tail (.startRun _ 0)).trans
    (ticks_reaches 1 _)

theorem links_decide_reading_unlinked : ∃ (r : RunResult) (fault : Fault),
    unlinkedFirst.result? 0 = some r ∧
      unlinkedFirst.outcome? 0 =
        some (.failed (.failure ((JobSpec.ofSource "a").processingFailure fault))) ∧
      unlinked.toRecord "a" = .error fault ∧ ¬unlinked.IsWellLinked ∧
      EndsOver unlinkedFirst.history 0 (.ofSource "a") r [unlinked, .bare "y"]
        (.failed (.failure ((JobSpec.ofSource "a").processingFailure fault))) := by
  obtain ⟨-, hreading, -, hruns⟩ := links_decide_reading unlinked "a"
  have ends := hruns _ _ _ _ _ reaches_unlinkedFirst 0 (.ofSource "a") _ _ [unlinked, .bare "y"]
    rfl rfl rfl ⟨_, rfl⟩
  have hbad : ¬unlinked.IsWellLinked := by
    rw [← hreading]
    rintro ⟨record, h⟩
    cases h
  exact ⟨_, _, rfl, rfl, rfl, hbad, ends⟩

/-- A mapping can be kept from becoming a record, and then its run fails: nothing is put, not even
the record of the entry behind it. -/
theorem unlinked_fails_run : ∃ (fields : Fields) (fault : Fault) (r : RunResult),
    unlinked.value = .dict fields ∧ unlinked.toRecord "a" = .error fault ∧
      unlinkedFirst.history.HasFetched 0 [unlinked, .bare "y"] ∧
      unlinkedFirst.result? 0 = some r ∧ r.failed = true ∧
      unlinkedFirst.outcome? 0 =
        some (.failed (.failure ((JobSpec.ofSource "a").processingFailure fault))) ∧
      unlinkedFirst.history.recordsPutBy 0 = [] :=
  ⟨_, _, _, rfl, rfl, ⟨_, rfl⟩, rfl, rfl, rfl, rfl⟩

end Intake

end FeedIntake
