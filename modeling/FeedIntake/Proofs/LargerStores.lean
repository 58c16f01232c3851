import FeedIntake.Proofs.CompletedRun
import FeedIntake.Proofs.OneByOne
import FeedIntake.Proofs.StoreHistory

/-! # Larger stores

A larger store holds all that a smaller one holds, if the same is committed to both: the smaller one
holds the youngest sources of the larger one, since both forget the oldest first. So a run over the
larger store knows every record that it knows over the smaller one, and puts no record that it would
leave out there. What it meets and commits does not depend on what it knows. So the two stores go on
in the same way, run after run.
-/

namespace FeedIntake

open Time (DateTime)

open Intake

/-! ## What the smaller store holds -/

namespace Snapshots

/-- One store holds the youngest of what another one holds, and has no more room. -/
structure Within (s t : Snapshots) : Prop where
  held : s.held <:+ t.held
  nodup : t.sources.Nodup
  room : ∀ n, t.capacity = some n → ∃ k, s.capacity = some k ∧ k ≤ n

theorem nodup_sources_commit {s : Snapshots} (h : s.sources.Nodup) (source : String)
    (identities : List String) : (s.commit source identities).sources.Nodup := by
  rw [sources_commit]
  refine List.Nodup.sublist (youngest_sublist _ _) ?_
  refine List.nodup_append.mpr ⟨h.filter _, by simp, fun x hx y hy hxy => ?_⟩
  have hne := (List.mem_filter.mp hx).2
  rw [hxy, List.mem_singleton.mp hy] at hne
  simp at hne

theorem lookup_of_suffix {held all : List (String × Snapshot)} (h : held <:+ all)
    (hnodup : (all.map (·.1)).Nodup) {source : String} {ids : Snapshot}
    (hheld : held.lookup source = some ids) : all.lookup source = some ids := by
  obtain ⟨older, rfl⟩ := h
  obtain ⟨before, after, heq, -⟩ := List.lookup_eq_some_iff.mp hheld
  have hnone : older.lookup source = none := by
    rw [List.lookup_eq_none_iff]
    intro entry hentry
    rw [List.map_append] at hnodup
    have hne := (List.nodup_append.mp hnodup).2.2 entry.1 (List.mem_map_of_mem hentry) source
      (List.mem_map.mpr ⟨(source, ids), by simp [heq], rfl⟩)
    simpa using Ne.symm hne
  rw [List.lookup_append, hnone, Option.none_or, hheld]

namespace Within

variable {s t : Snapshots} {source : String} {ids : Snapshot}

theorem snapshot? (h : s.Within t) (hs : s.snapshot? source = some ids) :
    t.snapshot? source = some ids := lookup_of_suffix h.held h.nodup hs

/-- To commit the same to both leaves the smaller store within the larger one. -/
theorem commit (h : s.Within t) (source : String) (identities : List String) :
    (s.commit source identities).Within (t.commit source identities) where
  held := by
    have hrenewed : s.renewed source identities <:+ t.renewed source identities := by
      obtain ⟨older, hheld⟩ := h.held
      refine ⟨older.filter fun e => e.1 != source, ?_⟩
      rw [renewed, renewed, ← hheld, List.filter_append, List.append_assoc]
    have hlength := hrenewed.length_le
    show (s.renewed source identities).drop _ <:+ (t.renewed source identities).drop _
    refine List.suffix_of_suffix_length_le ((List.drop_suffix _ _).trans hrenewed)
      (List.drop_suffix _ _) ?_
    rw [List.length_drop, List.length_drop]
    unfold surplus
    cases ht : t.capacity with
    | none =>
        show _ - _ ≤ (t.renewed source identities).length - 0
        omega
    | some n =>
        obtain ⟨k, hs, hle⟩ := h.room n ht
        rw [hs]
        dsimp only
        omega
  nodup := nodup_sources_commit h.nodup source identities
  room := h.room

end Within

end Snapshots

/-! ## What a run knows -/

/-- What is known of a source in the smaller store is known in the larger one. -/
theorem Snapshots.Within.knows {s t : Snapshots} (h : s.Within t) {spec : JobSpec}
    {record : Record} (hknows : spec.knows (s.snapshot? spec.source) record = true) :
    spec.knows (t.snapshot? spec.source) record = true := by
  unfold JobSpec.knows at hknows ⊢
  cases hs : s.snapshot? spec.source with
  | none =>
      rw [hs] at hknows
      simp at hknows
  | some ids =>
      rw [hs] at hknows
      rw [h.snapshot? hs]
      exact hknows

/-- The two stores judge alike, or only the larger one knows the record. -/
theorem Snapshots.Within.judge_cases {s t : Snapshots} (h : s.Within t) (spec : JobSpec)
    (record : Record) : spec.judge t record = spec.judge s record ∨
      spec.judge s record = .admitted ∧ spec.judge t record = .repeated := by
  rw [JobSpec.judge_eq, JobSpec.judge_eq]
  cases record.publishedAt.passes spec.since with
  | false => exact .inl rfl
  | true =>
      cases hs : spec.knows (s.snapshot? spec.source) record with
      | true => exact .inl (by rw [h.knows hs])
      | false =>
          cases spec.knows (t.snapshot? spec.source) record with
          | true => exact .inr ⟨rfl, rfl⟩
          | false => exact .inl rfl

namespace RunResult

/-- What a result says besides how many records were known. -/
def unknowing (r : RunResult) : RunResult := { r with published := 0, repeated := 0 }

variable {r r' : RunResult}

theorem unknowing_examine (h : r'.unknowing = r.unknowing) (record : Record)
    (verdict verdict' : Verdict) (hv : verdict' = .tooOld ↔ verdict = .tooOld) :
    (r'.examine record verdict').unknowing = (r.examine record verdict).unknowing := by
  have hseen (x : RunResult) : (x.meet record.identity).seen =
      (x.unknowing.meet record.identity).seen := by
    unfold meet
    rw [show x.unknowing.seen = x.seen from rfl]
    split <;> rfl
  have hsame (x : RunResult) (v : Verdict) : (x.examine record v).unknowing =
      { x.unknowing with
        seen := (x.unknowing.meet record.identity).seen
        undated := x.unknowing.undated + if record.publishedAt.isFallback then 1 else 0
        tooOld := x.unknowing.tooOld + if v = .tooOld then 1 else 0 } := by
    rw [examine_eq, hseen]
    rfl
  rw [hsame, hsame, h]
  simp only [hv]

end RunResult

namespace JobSpec

variable {spec : JobSpec} {s t : Snapshots}

/-- The induction is on the entries. A record that only the larger store knows is put over the
smaller one and left out over the larger one, and is met by both runs. -/
theorem upshotOfEntries_within (h : s.Within t) {r r' : RunResult}
    (hresult : r'.unknowing = r.unknowing) (entries : List Entry) :
    (spec.upshotOfEntries t r' entries).puts.Sublist (spec.upshotOfEntries s r entries).puts ∧
      (spec.upshotOfEntries t r' entries).result.unknowing =
        (spec.upshotOfEntries s r entries).result.unknowing := by
  induction entries generalizing r r' with
  | nil =>
      refine ⟨List.Sublist.refl _, ?_⟩
      exact congrArg (fun x : RunResult => (x.conclude spec.perpetual
        Time.Instant.first.toDateTime).timeless) hresult
  | cons e rest ih =>
      unfold upshotOfEntries
      cases e.toRecord spec.source with
      | error fault =>
          refine ⟨List.Sublist.refl _, ?_⟩
          exact congrArg (fun x : RunResult => (x.fail (processingError fault)
            Time.Instant.first.toDateTime).timeless) hresult
      | ok record =>
          dsimp only
          rcases h.judge_cases spec record with hsame | ⟨hadmitted, hrepeated⟩
          · rw [hsame]
            have hexamined := RunResult.unknowing_examine hresult record
              (spec.judge s record) (spec.judge s record) Iff.rfl
            split
            · exact ih hexamined
            · have hpublished : (r'.examine record (spec.judge s record)).publish.unknowing =
                  (r.examine record (spec.judge s record)).publish.unknowing := hexamined
              obtain ⟨hputs, hlater⟩ := ih hpublished
              exact ⟨hputs.cons_cons record, hlater⟩
          · have hexamined := RunResult.unknowing_examine hresult record
              .admitted .repeated (by simp)
            rw [hadmitted, hrepeated, if_pos (by simp), if_neg (by simp)]
            have hpublished : (r'.examine record .repeated).unknowing =
                (r.examine record .admitted).publish.unknowing := hexamined
            obtain ⟨hputs, hlater⟩ := ih hpublished
            exact ⟨hputs.cons record, hlater⟩

/-- A run over the larger store puts some of the records that it puts over the smaller one, and
meets the same. -/
theorem prospect_within (spec : JobSpec) (h : s.Within t) (answer : Except Fault (List Entry)) :
    (spec.prospect t answer).puts.Sublist (spec.prospect s answer).puts ∧
      (spec.prospect t answer).result.unknowing = (spec.prospect s answer).result.unknowing := by
  cases answer with
  | ok entries => exact upshotOfEntries_within h rfl entries
  | error fault => exact ⟨List.Sublist.refl _, rfl⟩

end JobSpec

/-! ## Runs over both stores -/

/-- What a run leaves over a larger store is no more than what it leaves over a smaller one. -/
structure Leaving.Exceeds (smaller larger : Leaving) : Prop where
  records : larger.records.Sublist smaller.records
  seen : larger.result.seen = smaller.result.seen
  tooOld : larger.result.tooOld = smaller.result.tooOld
  snapshots : ∀ source ids, smaller.store.snapshot? source = some ids →
    larger.store.snapshot? source = some ids

/-- A run keeps the smaller store within the larger one. -/
theorem Snapshots.Within.leaves {spec : JobSpec} {answer : Except Fault (List Entry)}
    {s t : Snapshots} {leaving leaving' : Leaving} (h : s.Within t)
    (leaves : spec.Leaves s answer leaving) (leaves' : spec.Leaves t answer leaving') :
    leaving.store.Within leaving'.store ∧ leaving.Exceeds leaving' := by
  obtain ⟨hsublist, hsame⟩ := spec.prospect_within h answer
  rw [← leaves.result, ← leaves'.result] at hsame
  rw [← leaves.records, ← leaves'.records] at hsublist
  have hshown {α : Type} (f : RunResult → α) :
      f leaving'.result.timeless.unknowing = f leaving.result.timeless.unknowing :=
    congrArg f hsame
  have hseen : leaving'.result.seen = leaving.result.seen := hshown RunResult.seen
  have hsuccess : leaving'.result.success = leaving.result.success := hshown RunResult.success
  have hwithin : leaving.store.Within leaving'.store := by
    rw [leaves.store, leaves'.store, JobSpec.storeAfter, JobSpec.storeAfter, hsuccess, hseen]
    cases leaving.result.success && spec.perpetual with
    | true => exact h.commit spec.source leaving.result.seen
    | false => exact h
  refine ⟨hwithin, ?_⟩
  exact {
    records := hsublist
    seen := hseen
    tooOld := hshown RunResult.tooOld
    snapshots := fun _ _ => hwithin.snapshot? }

namespace Intake

theorem RunsInTurn.exceed {w v w' v' : Intake} {readings : List Reading}
    {leavings leavings' : List Leaving} (runs : RunsInTurn w readings leavings v) (lull : w.Lull)
    (lull' : w'.Lull) (h : w.store.Within w'.store)
    (runs' : RunsInTurn w' readings leavings' v') :
    List.Forall₂ Leaving.Exceeds leavings leavings' :=
  runs.forall₂ Snapshots.Within.leaves lull lull' h runs'

theorem within_of_new {k k' : Option Int} {store store' : Snapshots}
    (hstore : Snapshots.new? k = .ok store) (hstore' : Snapshots.new? k' = .ok store')
    (hle : ∀ n, k' = some n → ∃ m, k = some m ∧ m ≤ n) : store.Within store' := by
  have hempty {k : Option Int} {store : Snapshots} (hnew : Snapshots.new? k = .ok store) :
      store.held = [] ∧ store.capacity = k.map Int.toNat := by
    unfold Snapshots.new? at hnew
    split at hnew
    · cases hnew
      exact ⟨rfl, rfl⟩
    · split at hnew
      · cases hnew
        exact ⟨rfl, rfl⟩
      · cases hnew
  obtain ⟨hheld, hcapacity⟩ := hempty hstore
  obtain ⟨hheld', hcapacity'⟩ := hempty hstore'
  exact {
    held := ⟨[], hheld.trans hheld'.symm⟩
    nodup := by
      rw [Snapshots.sources, hheld']
      exact List.nodup_nil
    room := by
      intro n hn
      rw [hcapacity'] at hn
      obtain ⟨n', hk', rfl⟩ := Option.map_eq_some_iff.mp hn
      obtain ⟨m, hk, hmn⟩ := hle n' hk'
      exact ⟨m.toNat, by rw [hcapacity, hk, Option.map_some], Int.toNat_le_toNat hmn⟩ }

/-- **A larger store never makes a run put more.** The same runs, one after the other, over an empty
store and over an empty store with no less room: each of them puts some of the records that it puts
over the smaller store, in the same order, meets the same identities and finds as many records too
old; and whatever the smaller store holds of a source after it, the larger one holds as well. -/
theorem larger_store_puts_less {k k' : Option Int} {store store' : Snapshots}
    (hstore : Snapshots.new? k = .ok store) (hstore' : Snapshots.new? k' = .ok store')
    (hle : ∀ n, k' = some n → ∃ m, k = some m ∧ m ≤ n) {now now' : DateTime}
    {capacity capacity' : Nat} {backlog backlog' : List Record}
    {web web' : List (String × Response)} {readings : List Reading}
    {leavings leavings' : List Leaving} {w w' : Intake}
    (runs : RunsInTurn (start now (.holding capacity backlog) store web) readings leavings w)
    (runs' : RunsInTurn (start now' (.holding capacity' backlog') store' web') readings leavings'
      w') :
    List.Forall₂ Leaving.Exceeds leavings leavings' :=
  runs.exceed (lull_start now capacity backlog store web)
    (lull_start now' capacity' backlog' store' web') (within_of_new hstore hstore' hle) runs'

/-- One source is read, another one, and the first one again with something new. -/
def visits : List Reading :=
  [⟨.ofSource "a", .ok [.bare "x"]⟩, ⟨.ofSource "b", .ok [.bare "y"]⟩,
    ⟨.ofSource "a", .ok [.bare "x", .bare "z"]⟩]

def visit (w : Intake) (reading : Reading) : Intake :=
  ticks 1 (w.nextRun [] (.prepared [(reading.spec.source, ⟨reading.answer, false⟩)]) reading.spec)

theorem RunsInTurn.visit {w u : Intake} {reading : Reading} {outcome : RunOutcome}
    {result : RunResult} {readings : List Reading} {leavings : List Leaving}
    (houtcome : (visit w reading).outcome? w.activities.length = some outcome)
    (hresult : (visit w reading).result? w.activities.length = some result)
    (later : RunsInTurn (visit w reading) readings leavings u) :
    RunsInTurn w (reading :: readings)
      ((visit w reading).leavingOf w.activities.length result :: leavings) u :=
  .next (by simp [Supplier.answerFor]) (ticks_proceeds 1 _) houtcome hresult later

def beforeVisits (store : Snapshots) : Intake :=
  start Time.Instant.first.toDateTime (.holding 0 []) store []

/-- With room for one source the last run finds nothing known, and with room for two it does. -/
theorem larger_store_puts_less_visits : ∃ leavings leavings' w w',
    RunsInTurn (beforeVisits (.bounded 1 (by decide))) visits leavings w ∧
      RunsInTurn (beforeVisits (.bounded 2 (by decide))) visits leavings' w' ∧
      List.Forall₂ Leaving.Exceeds leavings leavings' ∧
      leavings.map (·.result.published) = [1, 1, 2] ∧
      leavings'.map (·.result.published) = [1, 1, 1] := by
  have narrow : RunsInTurn (beforeVisits (.bounded 1 (by decide))) visits _ _ :=
    .visit rfl rfl (.visit rfl rfl (.visit rfl rfl (.none _)))
  have wide : RunsInTurn (beforeVisits (.bounded 2 (by decide))) visits _ _ :=
    .visit rfl rfl (.visit rfl rfl (.visit rfl rfl (.none _)))
  have hone : Snapshots.new? (some 1) = .ok (.bounded 1 (by decide)) := rfl
  have htwo : Snapshots.new? (some 2) = .ok (.bounded 2 (by decide)) := rfl
  refine ⟨_, _, _, _, narrow, wide, ?_, rfl, rfl⟩
  exact larger_store_puts_less hone htwo (fun n hn => ⟨1, rfl, by cases hn; decide⟩) narrow wide

end Intake

end FeedIntake
