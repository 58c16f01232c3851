import FeedIntake.Intake.Setup
import FeedIntake.Proofs.Answers
import FeedIntake.Proofs.LargerStores
import FeedIntake.Proofs.SettingsBounds
import FeedIntake.Proofs.Sifting

/-! # Thresholds

A date is compared with the threshold strictly. So the first instant, which stands for a threshold
that nobody named, lets everything pass but what is dated at that very instant. A threshold that is
raised leaves out the records dated between it and the old one, and changes nothing else: what a run
has met, and so what it commits, does not depend on the threshold.
-/

namespace FeedIntake

open Affairs
open Time (DateTime Instant)

open Intake

theorem thresholdOf_eq_ok_iff {since : DateTime} {t : Instant} :
    thresholdOf since = .ok t ↔ (t.micros : Int) = since.position := by
  rw [← DateTime.instant?_eq_some_iff, thresholdOf]
  cases since.instant? <;> simp

theorem thresholdOf_toDateTime (i : Instant) : thresholdOf i.toDateTime = .ok i :=
  thresholdOf_eq_ok_iff.mpr i.position_toDateTime.symm

/-! ## Dates of any mapping -/

/-- A text is always told, and any other value if it has a literal form. -/
theorem TimestampFault.failure_of_readTimestamp {v : Value} {fault : TimestampFault}
    (h : readTimestamp v = .error fault) :
    fault.failure = if v.isWritable then .ok fault.toFailure else .error .tooLong := by
  cases v with
  | text s =>
      unfold readTimestamp readTimestampText at h
      dsimp only at h
      split at h
      · cases h
        rfl
      · split at h
        · cases h
          rfl
        · split at h <;> cases h
          rfl
  | _ =>
      cases h
      rw [failure, Value.write]
      split <;> rfl

theorem isWritable_of_readTimestamp {v : Value} {i : Instant} (h : readTimestamp v = .ok i) :
    v.isWritable = true := by
  cases v with
  | text s => rfl
  | _ => cases h

/-- What stands in a date field is evaluated, unless it is no timestamp and cannot be told. -/
theorem Published.ofField_eq (field : Option Value) : Published.ofField field =
    if (field.getD .null).isWritable then .ok (.read field) else .error .tooLong := by
  cases field with
  | none => rfl
  | some v =>
      by_cases hnull : v = .null
      · subst hnull
        rfl
      · cases hread : readTimestamp v with
        | ok i => simp [ofField, read, hread, isWritable_of_readTimestamp hread]
        | error fault =>
            have hfailure := TimestampFault.failure_of_readTimestamp hread
            cases hwritable : v.isWritable <;>
              simp [ofField, read, hread, hfailure, hwritable, Except.map]

/-! ## The first instant -/

/-- Whatever is dated passes the first instant, except that instant itself. -/
theorem Published.passes_first (p : Published) :
    p.passes .first = decide (p.instant? ≠ some .first) := by
  cases p with
  | «at» i =>
      rw [passes, instant?, decide_eq_decide]
      obtain ⟨micros, inCalendar⟩ := i
      show 0 < micros ↔ _
      simp only [ne_eq, Option.some.injEq, Instant.first, Instant.mk.injEq]
      omega
  | _ => rfl

theorem passesThreshold_eq (p : Published) (t : Instant) :
    passesThreshold p t.toDateTime = .ok (p.passes t) := by
  cases p with
  | «at» i =>
      rw [passesThreshold, thresholdOf_toDateTime]
      rfl
  | _ => rfl

/-- A job whose threshold was left to the settings, on its own or in a round. -/
inductive JobSpec.TakesDefault (settings : Settings) : JobSpec → Prop where
  | alone {source : String} {timeoutMs : Option Int} {perpetual : Option Bool} {spec : JobSpec}
      (h : JobSpec.ofGiven (.ok settings) source none timeoutMs perpetual = .ok spec) :
      TakesDefault settings spec
  | ofRound {sources : List Value} {timeoutMs : Option Int} {perpetual : Option Bool}
      {limit : Option Int} {supplier : SupplierId} {round : RoundSpec} {since : Instant}
      (h : RoundSpec.ofGiven settings sources none timeoutMs perpetual limit supplier = .ok round)
      (hsince : thresholdOf round.since = .ok since) (source : String) :
      TakesDefault settings (round.jobFor since source)

theorem JobSpec.TakesDefault.threshold {settings : Settings} {spec : JobSpec}
    (h : spec.TakesDefault settings) : thresholdOf settings.threshold = .ok spec.since := by
  cases h with
  | alone h =>
      unfold ofGiven at h
      obtain ⟨since, hsince, h⟩ := exists_of_bind_eq_ok h
      cases hsince
      obtain ⟨timeoutMs, -, h⟩ := exists_of_bind_eq_ok h
      obtain ⟨perpetual, -, h⟩ := exists_of_bind_eq_ok h
      obtain ⟨threshold, hthreshold, h⟩ := exists_of_bind_eq_ok h
      cases h
      exact hthreshold
  | ofRound h hsince source =>
      obtain ⟨urls, -, h⟩ := exists_of_bind_eq_ok h
      cases h
      exact hsince

/-- What a run found too old are the judgements in which it said so, however it ended. -/
theorem Phase.Explained.tooOld {p : Phase} {deeds : List Deed} {r : RunResult}
    (h : p.Explained deeds) (hr : p.result? = some r) :
    r.tooOld = Trail.count (deeds.filterMap Deed.judgement?) .tooOld := by
  induction h generalizing r with
  | idle => cases hr
  | asking spec now =>
      cases hr
      rfl
  | working progress =>
      cases hr
      rw [List.filterMap_cons_none rfl, Trail.filterMap_judgement?_deeds]
      exact progress.tally.tooOld
  | @offering spec r entries rest trail e record progress he =>
      cases hr
      rw [List.cons_append, List.filterMap_cons_none rfl, List.filterMap_append,
        Trail.filterMap_judgement?_deeds]
      show _ = Trail.count (trail ++ [(record, .admitted)]) .tooOld
      rw [Trail.count_concat, ← progress.tally.tooOld, RunResult.examine_eq]
  | @through spec r entries trail progress now =>
      cases hr
      have hrest : (if spec.perpetual then [Deed.committed r.seen] else []).filterMap
          Deed.judgement? = [] := by split <;> rfl
      rw [List.cons_append, List.filterMap_cons_none rfl, List.filterMap_append,
        Trail.filterMap_judgement?_deeds, hrest, List.append_nil]
      exact progress.tally.tooOld
  | stopped h stop ih =>
      cases hr
      -- however it stops, it says no more of the dates than it did before
      cases stop with
      | noFeed | foreign | cancelledAsking | unreadable | putFailed | cancelledOffering =>
          refine Eq.trans ?_ (ih rfl)
          rfl

namespace Intake

section

variable {now : DateTime} {queue : RecordQueue} {store : Snapshots}
  {web : List (String × Response)} {w : Intake} {a : ActivityId} {spec : JobSpec} {r : RunResult}

/-- A run judges by its own threshold that a record is too old, whatever the store held. -/
theorem Reaches.tooOld_iff (reach : Reaches (start now queue store web) w)
    (hphase : (w.affairs.phase a).spec? = some spec) {record : Record} {verdict : Verdict}
    (h : (record, verdict) ∈ w.history.judgementsBy a) :
    verdict = .tooOld ↔ record.publishedAt.passes spec.since = false := by
  obtain ⟨held, rfl⟩ := reach.exists_judge_eq hphase h
  refine decide_eq_true_iff.symm.trans ?_
  rw [JobSpec.decide_judge_eq]
  simp

/-- The records of the entries that a run has judged, and how many of them it found too old. -/
theorem Reaches.exists_judged (reach : Reaches (start now queue store web) w)
    (hs : w.specOf? a = some spec) (hr : w.result? a = some r) : ∃ records : List Record,
    ((w.history.entriesOf a).take records.length).map (·.toRecord spec.source) =
        records.map .ok ∧
      (r.success = true → records.length = (w.history.entriesOf a).length) ∧
      r.tooOld = records.countP fun record => !record.publishedAt.passes spec.since := by
  obtain ⟨job, settled, pending, hjob, handling⟩ :=
    exists_handling reach.sound reach.tidy_of_start hr
  cases hs.symm.trans hjob
  have hlength : (Trail.records (w.history.judgementsBy a)).length = settled + pending := by
    have hsame := congrArg List.length handling.judged
    simp only [List.length_map, List.length_take, Nat.min_eq_left handling.met_le] at hsame
    rw [Trail.length_records, ← hsame]
  refine ⟨Trail.records (w.history.judgementsBy a), ?_, fun hsuccess => ?_, ?_⟩
  · rw [hlength, handling.judged, Trail.records, List.map_map]
    rfl
  · have hall := reach.settled_of_success hs hr hsuccess
    have hle := handling.met_le
    have hsum := handling.sum
    unfold RunResult.settled at hall
    omega
  · obtain ⟨hphase, hresult⟩ := reach.stands hs hr
    rw [(reach.sound.explained a).tooOld hresult, Trail.count, Trail.records, List.countP_map]
    refine List.countP_congr fun judgement hmem => ?_
    simpa using reach.tooOld_iff hphase hmem

/-- **A threshold that nobody named rejects the first instant and nothing else.** A date passes it
unless it is that very instant, in whatever way it is written, or cannot be told; and a run that
takes its threshold from settings without one counts as too old just the records with such a date,
among those of the entries that it has come to. -/
theorem default_threshold_rejects_first {settings : Settings}
    (hnone : settings.reading.publishedSince = none)
    (reach : Reaches (start now queue store web) w) (hs : w.specOf? a = some spec)
    (hdefault : spec.TakesDefault settings) (hr : w.result? a = some r) :
    (∀ field, passesThreshold (.read field) settings.threshold =
      .ok (decide ((Published.read field).instant? ≠ some .first))) ∧
    (∀ field, isRecent field settings.threshold = if (field.getD .null).isWritable then
      .ok (decide ((Published.read field).instant? ≠ some .first)) else .error .tooLong) ∧
    ∃ records : List Record,
      ((w.history.entriesOf a).take records.length).map (·.toRecord spec.source) =
          records.map .ok ∧
        (r.success = true → records.length = (w.history.entriesOf a).length) ∧
        r.tooOld = records.countP fun record =>
          decide (record.publishedAt.instant? = some .first) := by
  have hthreshold : settings.threshold = Instant.first.toDateTime := by
    rw [Settings.threshold, hnone, Option.getD_none]
  have hsince : spec.since = .first := by
    have hok := hdefault.threshold
    rw [hthreshold, thresholdOf_toDateTime] at hok
    exact (Except.ok.inj hok).symm
  have hpasses (field : Option Value) : passesThreshold (.read field) settings.threshold =
      .ok (decide ((Published.read field).instant? ≠ some .first)) := by
    rw [hthreshold, passesThreshold_eq, Published.passes_first]
  refine ⟨hpasses, fun field => ?_, ?_⟩
  · rw [isRecent, Published.ofField_eq]
    split
    · exact hpasses field
    · rfl
  · obtain ⟨records, hread, hall, htooOld⟩ := reach.exists_judged hs hr
    refine ⟨records, hread, hall, ?_⟩
    rw [htooOld, hsince]
    simp only [Published.passes_first, decide_not, Bool.not_not]

end

/-! ## An entry of the first instant -/

def datedByText (x text : String) : Entry :=
  ⟨.plain, .dict [("id", .text x), ("published", .text text)]⟩

theorem datedByText_isPlain (x text : String) : (datedByText x text).IsPlain := ⟨rfl, _, rfl⟩

def leftOpen : JobSpec := ⟨"a", .first, 10000, false⟩

theorem leftOpen_takesDefault : leftOpen.TakesDefault Settings.standard :=
  @JobSpec.TakesDefault.alone Settings.standard "a" none none leftOpen rfl

/-- The job has run over an entry of the first instant, told in another time zone, and over one of a
microsecond later. -/
def atTheBeginning : Intake :=
  ticks 1 ((ofFeed (.ofCapacity 0) leftOpen [datedByText "x" "0001-01-01T01:00:00+01:00",
    datedByText "y" "0001-01-01T00:00:00.000001Z"]).startRun 0).1

theorem reaches_atTheBeginning :
    Reaches (start Instant.first.toDateTime (.ofCapacity 0) .unbounded []) atTheBeginning :=
  ((reaches_ofFeed (.ofCapacity 0) leftOpen _).tail (.startRun _ 0)).trans (ticks_reaches 1 _)

/-- One of the two dates is the first instant. -/
theorem default_threshold_rejects_first_once : ∃ r, atTheBeginning.result? 0 = some r ∧
    r.tooOld = 1 ∧
    ∃ records : List Record,
      ((atTheBeginning.history.entriesOf 0).take records.length).map (·.toRecord "a") =
          records.map .ok ∧
        (r.success = true → records.length = (atTheBeginning.history.entriesOf 0).length) ∧
        r.tooOld = records.countP fun record =>
          decide (record.publishedAt.instant? = some .first) :=
  ⟨_, rfl, by decide +kernel, (default_threshold_rejects_first rfl reaches_atTheBeginning rfl
    leftOpen_takesDefault rfl).2.2⟩

/-- A date that was read is rejected though nobody named a threshold, and so is its entry. -/
theorem first_instant_rejected :
    passesThreshold (.read (some (.text "0001-01-01T00:00:00Z"))) Instant.first.toDateTime =
      .ok false ∧
    Settings.standard.reading.publishedSince = none ∧ leftOpen.TakesDefault Settings.standard ∧
    atTheBeginning.specOf? 0 = some leftOpen ∧
    ∃ r, atTheBeginning.result? 0 = some r ∧ r.tooOld = 1 := by
  refine ⟨?_, rfl, leftOpen_takesDefault, rfl, _, rfl, by decide +kernel⟩
  rw [passesThreshold_eq]
  exact congrArg Except.ok (by decide +kernel)

end Intake

/-! ## What a run that came through has judged -/

theorem History.hasFetched_of_working {h : History} {a : ActivityId} {spec : JobSpec}
    {r : RunResult} {entries : List Entry}
    (hexplained : (Phase.working spec (r.takeUp entries.length) entries).Explained (h.deedsOf a)) :
    h.HasFetched a entries := by
  unfold HasFetched
  generalize h.deedsOf a = deeds at hexplained
  cases hexplained with
  | working progress =>
      obtain ⟨done, hsplit, -⟩ := progress.split
      have hlength : entries.length = _ := progress.tally.fetched
      rw [hsplit, List.length_append] at hlength
      obtain rfl : done = [] := List.eq_nil_of_length_eq_zero (by omega)
      rw [List.nil_append] at hsplit
      exact ⟨_, by rw [hsplit]⟩

namespace Plan.CourseOf

variable {plan : Plan} {s t : Affairs} {a : ActivityId} {spec : JobSpec} {store : Snapshots}

theorem faithful (course : plan.CourseOf a spec s t) (h : s.Faithful store a spec) :
    t.Faithful store a spec := by
  induction course with
  | refl => exact h
  | tail _ step ih =>
      rcases step with ⟨turn, -⟩ | take
      · exact turn.faithful ih
      · have takes : Takes _ _ := .single take
        exact {
          explained := by rw [take.phase, takes.deedsOf]; exact ih.explained
          judged := by rw [takes.deedsOf]; exact ih.judged
          snapshot := by rw [takes.store_eq, History.commitsOf, takes.deedsOf]; exact ih.snapshot }

theorem hasFetched {entries : List Entry} (course : plan.CourseOf a spec s t)
    (hanswer : plan.answer? a = some (.ok entries)) (h : s.Faithful store a spec)
    (hidle : s.phase a = .idle) : t.phase a = .idle ∨ (∃ r, t.phase a = .asking spec r) ∨
      t.history.HasFetched a entries := by
  induction course with
  | refl => exact .inl hidle
  | @tail u t before step ih =>
      rcases step with ⟨turn, foreseen⟩ | take
      · have faithful := turn.faithful (faithful before h)
        rcases ih with hidle | ⟨r, hasking⟩ | hfetched
        · cases turn with
          | begin now => exact .inr (.inl ⟨_, set_phase_self _ _ _⟩)
          | fetch _ hp | reject hp | offer hp | put hp | conclude _ hp =>
              rw [hidle] at hp
              cases hp
          | stop stop =>
              rw [hidle] at stop
              cases stop
        · rw [hasking, hanswer] at foreseen
          rcases foreseen.of_asking with ⟨fetched, hfetched, hworking⟩ | ⟨fault, _, hfault, -⟩
          · cases hfetched
            exact .inr (.inr (History.hasFetched_of_working (hworking ▸ faithful.explained)))
          · cases hfault
        · refine .inr (.inr ?_)
          rcases turn.effect with ⟨hhistory, -⟩ | ⟨deed, hhistory, -⟩
          · rwa [hhistory]
          · rw [hhistory]
            exact hfetched.cons _
      · have takes : Takes _ _ := .single take
        rw [take.phase, History.HasFetched, takes.deedsOf]
        exact ih

end Plan.CourseOf

/-- A run over plain entries is expected to come through. -/
theorem JobSpec.outcome_of_isPlain (spec : JobSpec) (store : Snapshots) {entries : List Entry}
    (hplain : ∀ e ∈ entries, e.IsPlain) (r : RunResult) :
    (spec.upshotOfEntries store r entries).outcome = .done := by
  induction entries generalizing r with
  | nil => rfl
  | cons e rest ih =>
      have hrest : ∀ e ∈ rest, e.IsPlain := fun e he => hplain e (List.mem_cons_of_mem _ he)
      obtain ⟨record, hrecord⟩ := (hplain e List.mem_cons_self).exists_toRecord spec.source
      unfold upshotOfEntries
      rw [hrecord]
      dsimp only
      split
      · exact ih hrest _
      · exact ih hrest _

/-- What a run has done that came through with its entries, which are the given records. -/
structure JudgedRun (store : Snapshots) (spec : JobSpec) (entries : List Entry)
    (records : List Record) (v : Intake) (a : ActivityId) (r : RunResult) : Prop where
  success : r.success = true
  read : entries.map (·.toRecord spec.source) = records.map .ok
  judgements : v.history.judgementsBy a = Trail.judgedBy spec store records
  puts : v.history.recordsPutBy a = Trail.admitted (.judgedBy spec store records)
  seen : r.seen = Snapshots.setOf (records.map (·.identity))
  undated : r.undated = records.countP (·.publishedAt.isFallback)

namespace Intake

variable {w v : Intake} {web : List (String × Response)} {supplier : Supplier} {spec : JobSpec}
  {entries : List Entry}

/-- A run of plain entries that is left alone has judged each of them against the store at its
beginning. -/
theorem Lull.exists_judgedRun (lull : w.Lull)
    (hanswer : supplier.answerFor web spec = .ok entries) (hplain : ∀ e ∈ entries, e.IsPlain)
    (proceeds : Proceeds (w.nextRun web supplier spec) v)
    {result : RunResult} {outcome : RunOutcome}
    (houtcome : v.outcome? w.activities.length = some outcome)
    (hresult : v.result? w.activities.length = some result) :
    ∃ records, JudgedRun w.store spec entries records v w.activities.length result := by
  have hphase := lull.phase_of_ended proceeds houtcome hresult
  have hupshot := lull.upshot_eq proceeds houtcome hresult
  have hknown := lull.answer? proceeds
  rw [hanswer] at hupshot hknown
  obtain rfl : outcome = .done :=
    (congrArg Upshot.outcome hupshot).trans (spec.outcome_of_isPlain w.store hplain _)
  have hfresh := faithful_of_fresh w.result?_next lull.deedsOf_next spec
  have course := lull.courseOf proceeds
  have faithful := course.faithful hfresh
  have hfetched : v.affairs.history.HasFetched w.activities.length entries := by
    rcases course.hasFetched hknown hfresh ((phase_idle_iff w _).mpr w.result?_next) with
      hidle | ⟨r, hasking⟩ | hfetched
    · rw [hphase] at hidle
      cases hidle
    · rw [hphase] at hasking
      cases hasking
    · exact hfetched
  obtain ⟨r, records, now, progress, rfl, hdeeds⟩ := faithful.exists_progress hphase hfetched
  have hdone : v.history.deedsOf w.activities.length = _ := hdeeds
  have hread := progress.read
  have hseen := progress.tally.seen
  have hundated := progress.tally.undated
  rw [Trail.records_judgedBy] at hread hseen hundated
  refine ⟨records, ?_⟩
  exact {
    success := progress.tally.success_conclude _ _
    read := hread
    judgements := by
      rw [History.judgementsBy_eq hdone]
      cases spec.perpetual <;> simp [Deed.judgement?]
    puts := by
      rw [History.recordsPutBy_eq hdone]
      cases spec.perpetual <;> simp [Deed.recordPut?]
    seen := hseen
    undated := hundated }

end Intake

/-! ## Raising the threshold -/

/-- What becomes of a judgement when the threshold is raised: nothing, unless the record is dated
between the two thresholds. -/
inductive Raised (since since' : Instant) : Record × Verdict → Record × Verdict → Prop where
  | same (judgement : Record × Verdict) : Raised since since' judgement judgement
  | overtaken {record : Record} {verdict : Verdict} {d : Instant}
      (hdate : record.publishedAt = .at d) (hlater : since < d) (hreached : d ≤ since') :
      Raised since since' (record, verdict) (record, .tooOld)

/-- What passes the higher threshold passes the lower one, and what does not is dated between the
two or passes neither. -/
theorem Published.passes_cases {since since' : Instant} (hle : since ≤ since') (p : Published) :
    p.passes since' = p.passes since ∨
      p.passes since = true ∧ p.passes since' = false ∧
        ∃ d, p = .at d ∧ since < d ∧ d ≤ since' := by
  cases p with
  | «at» d =>
      have hle : since.micros ≤ since'.micros := hle
      by_cases hlater : since.micros < d.micros
      · by_cases hstill : since'.micros < d.micros
        · exact .inl ((decide_eq_true hstill).trans (decide_eq_true hlater).symm)
        · exact .inr ⟨decide_eq_true hlater, decide_eq_false hstill, d, rfl, hlater,
            Nat.le_of_not_lt hstill⟩
      · have hneither : ¬since'.micros < d.micros := fun h => hlater (Nat.lt_of_le_of_lt hle h)
        exact .inl ((decide_eq_false hneither).trans (decide_eq_false hlater).symm)
  | _ => exact .inl rfl

theorem filter_isFallback_of_raised {since since' : Instant} {trail trail' : Trail}
    (h : List.Forall₂ (Raised since since') trail trail') :
    trail'.filter (·.1.publishedAt.isFallback) = trail.filter (·.1.publishedAt.isFallback) := by
  induction h with
  | nil => rfl
  | cons hraised _ ih =>
      cases hraised with
      | same judgement => rw [List.filter_cons, List.filter_cons, ih]
      | overtaken hdate hlater hreached =>
          rw [List.filter_cons_of_neg, List.filter_cons_of_neg, ih] <;>
            simp [hdate, Published.isFallback, Published.instant?]

/-- What a run has done over a later threshold, next to what it has done over an earlier one. -/
structure Narrows (since since' : Instant) (v v' : Intake) (a a' : ActivityId)
    (leaving leaving' : Leaving) : Prop where
  success : leaving.result.success = true ∧ leaving'.result.success = true
  /-- Entry by entry. -/
  judgements : List.Forall₂ (Raised since since') (v.history.judgementsBy a)
    (v'.history.judgementsBy a')
  /-- Entries without a usable date are treated alike. -/
  undatedAlike : (v'.history.judgementsBy a').filter (·.1.publishedAt.isFallback) =
    (v.history.judgementsBy a).filter (·.1.publishedAt.isFallback)
  subsequence : leaving'.records.Sublist leaving.records
  kept : leaving'.records = leaving.records.filter (·.publishedAt.passes since')
  removed : ∀ record ∈ leaving.records, record.publishedAt.passes since' = false →
    ∃ d, record.publishedAt = .at d ∧ since < d ∧ d ≤ since'
  seen : leaving'.result.seen = leaving.result.seen
  undated : leaving'.result.undated = leaving.result.undated
  store : leaving'.store = leaving.store

section

variable {spec : JobSpec} {since' : Instant} (hle : spec.since ≤ since')

include hle in
theorem JobSpec.judge_raised (store : Snapshots) (record : Record) :
    Raised spec.since since' (record, spec.judge store record)
      (record, { spec with since := since' }.judge store record) := by
  rw [judge_eq, judge_eq]
  rcases record.publishedAt.passes_cases hle with hsame | ⟨-, hfails, d, hdate, hlater, hreached⟩
  · dsimp only
    rw [hsame]
    exact .same _
  · dsimp only
    rw [hfails]
    exact .overtaken hdate hlater hreached

variable {store : Snapshots} {entries : List Entry} {records records' : List Record}
  {v v' : Intake} {a a' : ActivityId} {r r' : RunResult}

include hle in
/-- Two runs that came through over the same store differ in the records dated between their
thresholds. -/
theorem JudgedRun.narrows (run : JudgedRun store spec entries records v a r)
    (run' : JudgedRun store { spec with since := since' } entries records' v' a' r')
    (hstore : v.store = spec.storeAfter store r)
    (hstore' : v'.store = { spec with since := since' }.storeAfter store r') :
    Narrows spec.since since' v v' a a' (v.leavingOf a r) (v'.leavingOf a' r') := by
  obtain rfl : records = records' :=
    List.map_injective_iff.mpr (fun _ _ => Except.ok.inj) (run.read.symm.trans run'.read)
  have hseen : r'.seen = r.seen := run'.seen.trans run.seen.symm
  have hjudged : List.Forall₂ (Raised spec.since since') (v.history.judgementsBy a)
      (v'.history.judgementsBy a') := by
    rw [run.judgements, run'.judgements, Trail.judgedBy, Trail.judgedBy,
      List.forall₂_map_left_iff, List.forall₂_map_right_iff, List.forall₂_same]
    exact fun record _ => JobSpec.judge_raised hle store record
  have hputs : v.history.recordsPutBy a = records.filter fun record =>
      record.publishedAt.passes spec.since &&
        !spec.knows (store.snapshot? spec.source) record := by
    rw [run.puts, Trail.admitted_judgedBy]
    simp only [JobSpec.decide_judge_eq]
  have hputs' : v'.history.recordsPutBy a' = records.filter fun record =>
      record.publishedAt.passes since' &&
        !spec.knows (store.snapshot? spec.source) record := by
    rw [run'.puts, Trail.admitted_judgedBy]
    simp only [JobSpec.decide_judge_eq]
    rfl
  have hkept : v'.history.recordsPutBy a' =
      (v.history.recordsPutBy a).filter (·.publishedAt.passes since') := by
    rw [hputs, hputs', List.filter_filter]
    refine List.filter_congr fun record _ => ?_
    rcases record.publishedAt.passes_cases hle with hsame | ⟨hpasses, hfails, -⟩
    · rw [hsame, ← Bool.and_assoc, Bool.and_self]
    · rw [hpasses, hfails, Bool.false_and, Bool.false_and]
  exact {
    success := ⟨run.success, run'.success⟩
    judgements := hjudged
    undatedAlike := filter_isFallback_of_raised hjudged
    subsequence := by
      show (v'.history.recordsPutBy a').Sublist (v.history.recordsPutBy a)
      rw [hkept]
      exact List.filter_sublist
    kept := hkept
    removed := by
      intro record hmem hfails
      have hput : record ∈ v.history.recordsPutBy a := hmem
      rw [hputs, List.mem_filter, Bool.and_eq_true] at hput
      rcases record.publishedAt.passes_cases hle with hsame | ⟨-, -, hdated⟩
      · rw [hsame, hput.2.1] at hfails
        cases hfails
      · exact hdated
    seen := hseen
    undated := run'.undated.trans run.undated.symm
    store := by
      show v'.store = v.store
      rw [hstore, hstore', JobSpec.storeAfter, JobSpec.storeAfter, run.success, run'.success,
        hseen] }

end

/-- Two runs have left the same, times aside. -/
structure Leaving.Alike (leaving leaving' : Leaving) : Prop where
  result : leaving'.result.timeless = leaving.result.timeless
  records : leaving'.records = leaving.records
  store : leaving'.store = leaving.store

/-- Over equal stores a run leaves the same. -/
theorem JobSpec.Leaves.alike {spec : JobSpec} {answer : Except Fault (List Entry)}
    {store store' : Snapshots} {leaving leaving' : Leaving} (h : store' = store)
    (leaves : spec.Leaves store answer leaving) (leaves' : spec.Leaves store' answer leaving') :
    leaving'.store = leaving.store ∧ leaving.Alike leaving' := by
  subst h
  have hresult := leaves'.result.trans leaves.result.symm
  have hshown {α : Type} (f : RunResult → α) :
      f leaving'.result.timeless = f leaving.result.timeless := congrArg f hresult
  have hseen : leaving'.result.seen = leaving.result.seen := hshown RunResult.seen
  have hsuccess : leaving'.result.success = leaving.result.success := hshown RunResult.success
  have hstore : leaving'.store = leaving.store := by
    rw [leaves.store, leaves'.store, storeAfter, storeAfter, hseen, hsuccess]
  exact ⟨hstore, hresult, leaves'.records.trans leaves.records.symm, hstore⟩

namespace Intake

theorem RunsInTurn.exists_of_single {w v : Intake} {reading : Reading} {leaving : Leaving}
    (runs : RunsInTurn w [reading] [leaving] v) : ∃ web supplier outcome,
      supplier.answerFor web reading.spec = reading.answer ∧
        Proceeds (w.nextRun web supplier reading.spec) v ∧
        v.outcome? w.activities.length = some outcome ∧
        v.result? w.activities.length = some leaving.result ∧
        leaving = v.leavingOf w.activities.length leaving.result := by
  generalize hreadings : [reading] = readings at runs
  generalize hleavings : [leaving] = leavings at runs
  cases runs with
  | none => cases hreadings
  | next hanswer proceeds houtcome hresult later =>
      cases hreadings
      cases later
      obtain ⟨rfl, -⟩ := List.cons_eq_cons.mp hleavings
      exact ⟨_, _, _, hanswer, proceeds, houtcome, hresult, rfl⟩

section

variable {source : String} {timeoutMs : Int} {perpetual : Bool} {since since' : DateTime}
  {t t' : Instant} {entries : List Entry} {store : Snapshots} {now now' : DateTime}
  {capacity capacity' : Nat} {backlog backlog' : List Record}
  {web web' : List (String × Response)} {v v' : Intake} {leaving leaving' : Leaving}

/-- **Raising the threshold only removes.** Two runs over the same store read the same plain entries
and differ in the threshold. With the higher one a run puts the records that the other one puts, in
their order, without those dated between the two thresholds. Nothing else is different: not what is
made of entries without a usable date, not what was met, not the store, and not what any later runs
leave that read the same. -/
theorem raised_threshold_narrows (ht : thresholdOf since = .ok t)
    (ht' : thresholdOf since' = .ok t') (hle : since.position ≤ since'.position)
    (hplain : ∀ e ∈ entries, e.IsPlain)
    (run : RunsInTurn (start now (.holding capacity backlog) store web)
      [⟨⟨source, t, timeoutMs, perpetual⟩, .ok entries⟩] [leaving] v)
    (run' : RunsInTurn (start now' (.holding capacity' backlog') store web')
      [⟨⟨source, t', timeoutMs, perpetual⟩, .ok entries⟩] [leaving'] v') :
    Narrows t t' v v' 0 0 leaving leaving' ∧
      ∀ readings leavings leavings' u u', RunsInTurn v readings leavings u →
        RunsInTurn v' readings leavings' u' → List.Forall₂ Leaving.Alike leavings leavings' := by
  have hle : t ≤ t' := by
    rw [thresholdOf_eq_ok_iff] at ht ht'
    show t.micros ≤ t'.micros
    omega
  have lull := lull_start now capacity backlog store web
  have lull' := lull_start now' capacity' backlog' store web'
  obtain ⟨_, _, _, hanswer, proceeds, houtcome, hresult, heq⟩ := run.exists_of_single
  obtain ⟨_, _, _, hanswer', proceeds', houtcome', hresult', heq'⟩ := run'.exists_of_single
  obtain ⟨records, judged⟩ := lull.exists_judgedRun hanswer hplain proceeds houtcome hresult
  obtain ⟨records', judged'⟩ :=
    lull'.exists_judgedRun hanswer' hplain proceeds' houtcome' hresult'
  obtain ⟨lull, leaves⟩ := lull.next proceeds houtcome hresult
  obtain ⟨lull', leaves'⟩ := lull'.next proceeds' houtcome' hresult'
  have narrows := JudgedRun.narrows hle judged judged' leaves.store leaves'.store
  refine ⟨?_, fun readings leavings leavings' u u' runs runs' => ?_⟩
  · rw [heq, heq']
    exact narrows
  · exact runs.forall₂ JobSpec.Leaves.alike lull lull' narrows.store runs'

end

/-! ## A year more -/

def fourEntries : List Entry :=
  [.bare "x", datedByText "y" "2020-06-01T00:00:00+02:00", datedByText "z" "yesterday",
    datedByText "u" "2021-06-01T00:00:00Z"]

theorem fourEntries_isPlain : ∀ e ∈ fourEntries, e.IsPlain := by
  simp [fourEntries, Entry.bare_isPlain, datedByText_isPlain]

def sinceYear (t : Instant) : Reading := ⟨⟨"a", t, 1000, true⟩, .ok fourEntries⟩

/-- Over a store that knows the first entry, a run from 2020 on puts three records and one from 2021
on puts two. -/
theorem raised_threshold_narrows_aYear : ∃ leaving leaving' v v',
    RunsInTurn (beforeVisits (Snapshots.unbounded.commit "a" ["x"]))
        [sinceYear (newYear 2020 (by decide))] [leaving] v ∧
      RunsInTurn (beforeVisits (Snapshots.unbounded.commit "a" ["x"]))
        [sinceYear (newYear 2021 (by decide))] [leaving'] v' ∧
      Narrows (newYear 2020 (by decide)) (newYear 2021 (by decide)) v v' 0 0 leaving leaving' ∧
      leaving.result.published = 3 ∧ leaving'.result.published = 2 := by
  have early : RunsInTurn (beforeVisits (Snapshots.unbounded.commit "a" ["x"]))
      [sinceYear (newYear 2020 (by decide))] _ _ := .visit rfl rfl (.none _)
  have late : RunsInTurn (beforeVisits (Snapshots.unbounded.commit "a" ["x"]))
      [sinceYear (newYear 2021 (by decide))] _ _ := .visit rfl rfl (.none _)
  -- the earlier one is told without an offset
  have hearly : thresholdOf ⟨⟨2020, 1, 1, by decide⟩, .midnight, none⟩ =
      .ok (newYear 2020 (by decide)) := thresholdOf_eq_ok_iff.mpr (by decide)
  have hlate : thresholdOf (newYear 2021 (by decide)).toDateTime = .ok (newYear 2021 (by decide)) :=
    thresholdOf_toDateTime _
  exact ⟨_, _, _, _, early, late, (raised_threshold_narrows hearly hlate (by decide)
    fourEntries_isPlain early late).1, by decide +kernel, by decide +kernel⟩

end Intake

end FeedIntake
