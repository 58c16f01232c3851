import FeedIntake.Proofs.BoundedQueue
import FeedIntake.Proofs.CompletedRun
import FeedIntake.Proofs.Stamps

/-! # Sifting by date

A run that is not perpetual looks at nothing but the dates of its entries. It puts the records of
those that pass, and no entry stands in for another. A date that was understood comes broken down
into numbers, goes through a text, and is an instant again when it is compared with the threshold.
On this way years of four digits come through unchanged. The text has a year below 1000 with as many
digits as it needs, which nobody reads as a year, and so the date counts as unusable: the entry
passes, however old it is.
-/

namespace FeedIntake

open Time

/-! ## Broken-down instants -/

namespace Time

attribute [ext] Date TimeOfDay

def Date.yearDay (d : Date) : Nat := daysBeforeMonth d.year d.month + d.day

/-- What a clock in UTC shows at an instant, to the second. -/
def Instant.brokenDown (i : Instant) : BrokenDown where
  year := i.date.year
  month := i.date.month
  day := i.date.day
  hour := i.time.hour
  minute := i.time.minute
  second := i.time.second
  weekday := i.date.weekday
  yearDay := i.date.yearDay
  daylight := 0

theorem BrokenDown.isWeekday_of_lt {n : Nat} (h : n < 7) : isWeekday n = true := by
  match n, h with
  | 0, _ | 1, _ | 2, _ | 3, _ | 4, _ | 5, _ | 6, _ => decide

theorem BrokenDown.atLeastFirst_of_pos {n : Nat} (h : 1 ≤ n) : atLeastFirst n = n :=
  if_neg (by omega)

namespace Date

theorem yearDay_bounds (d : Date) : 1 ≤ d.yearDay ∧ d.yearDay ≤ 366 := by
  have hday := d.dayInYear_lt
  have hpos := d.isDate.2.2.1
  unfold yearDay
  unfold daysInYear at hday
  split at hday <;> omega

end Date

namespace Instant

theorem brokenDown_isRenderable (i : Instant) : i.brokenDown.isRenderable = true := by
  obtain ⟨hyear, hmonth, hday, -⟩ := i.date.isDate
  have hclock := i.time.inDay
  have hlast := i.date.day_le
  have hyearDay := i.date.yearDay_bounds
  have hweekday : i.date.weekday < 7 := Nat.mod_lt _ (by decide)
  simp only [BrokenDown.isRenderable, BrokenDown.toList, BrokenDown.fitsWord, BrokenDown.between,
    List.all_cons, List.all_nil, Bool.and_eq_true, decide_eq_true_eq]
  simp only [brokenDown, BrokenDown.leastYear, BrokenDown.isWeekday_of_lt hweekday,
    BrokenDown.atLeastFirst_of_pos hmonth.1, BrokenDown.atLeastFirst_of_pos hday,
    BrokenDown.atLeastFirst_of_pos hyearDay.1, and_true]
  omega

theorem brokenDown_isReadable_iff (i : Instant) :
    i.brokenDown.isReadable = true ↔ 1000 ≤ i.date.year := by
  obtain ⟨hyear, hmonth, hday, hlast⟩ := i.date.isDate
  have hclock := i.time.inDay
  have hexists : i.brokenDown.dayExists = true := by
    simp only [BrokenDown.dayExists, brokenDown, BrokenDown.atLeastFirst_of_pos hmonth.1,
      BrokenDown.atLeastFirst_of_pos hday, Int.toNat_natCast, decide_eq_true_eq]
    exact hlast
  rw [BrokenDown.isReadable_iff, hexists]
  simp only [brokenDown, true_and]
  omega

/-- No other instant, to the second, shows the same. -/
theorem eq_of_shows {i j : Instant} (h : j.Shows i.brokenDown) (hsecond : i.time.micro = 0) :
    j = i := by
  obtain ⟨-, hmonth, hday, -⟩ := i.date.isDate
  have hmonth' := h.month
  have hday' := h.day
  simp only [brokenDown, BrokenDown.atLeastFirst_of_pos hmonth.1,
    BrokenDown.atLeastFirst_of_pos hday, Int.natCast_inj] at hmonth' hday'
  have hdate : j.date = i.date := Date.ext (Int.ofNat_inj.mp h.year) hmonth' hday'
  have htime : j.time = i.time := TimeOfDay.ext (Int.ofNat_inj.mp h.hour)
    (Int.ofNat_inj.mp h.minute) (Int.ofNat_inj.mp h.second) (h.micro.trans hsecond.symm)
  exact eq_of_date_of_time hdate htime

end Instant

end Time

/-! ## Dated entries -/

namespace Entry

/-- The date of publication was understood as an instant, to the second. -/
def IsDated (e : Entry) (i : Instant) : Prop :=
  i.time.micro = 0 ∧
    ∃ v, e.find? "published_parsed" = .ok (some v) ∧ v.brokenDown? = some i.brokenDown

/-- What becomes of an instant on its way through the text: all or nothing, by the year alone. -/
theorem IsDated.publishedAt {e : Entry} {i : Instant} (dated : e.IsDated i) {source : String}
    {record : Record} (h : e.toRecord source = .ok record) :
    (1000 ≤ i.date.year → record.publishedAt = .at i) ∧
      (i.date.year < 1000 → ∃ fault, record.publishedAt = .unreadable fault) := by
  obtain ⟨hsecond, v, hfind, htime⟩ := dated
  have hstamp : i.brokenDown.stamp? = some (String.ofList i.brokenDown.stampChars) :=
    if_pos i.brokenDown_isRenderable
  have hdate := published_of_toRecord h
  rw [date?_of_stamp? hfind htime hstamp] at hdate
  rw [Record.publishedAt, ← Except.ok.inj hdate, Option.map_some]
  constructor
  · intro hyear
    obtain ⟨j, hread, hshows⟩ :=
      Published.read_of_readable hstamp (i.brokenDown_isReadable_iff.mpr hyear)
    rw [hread, Instant.eq_of_shows hshows hsecond]
  · intro hyear
    refine ⟨_, Published.read_of_unreadable hstamp fun hreadable => ?_⟩
    have := i.brokenDown_isReadable_iff.mp hreadable
    omega

/-- Only an instant of a year from 1000 on is compared with the threshold. -/
theorem IsDated.passes_iff {e : Entry} {i : Instant} (dated : e.IsDated i) {source : String}
    {record : Record} (h : e.toRecord source = .ok record) (since : Instant) :
    record.publishedAt.passes since = true ↔ i.date.year < 1000 ∨ since < i := by
  rcases Nat.lt_or_ge i.date.year 1000 with hyear | hyear
  · obtain ⟨fault, hread⟩ := (dated.publishedAt h).2 hyear
    rw [hread]
    exact ⟨fun _ => .inl hyear, fun _ => rfl⟩
  · rw [(dated.publishedAt h).1 hyear, Published.passes, decide_eq_true_eq]
    exact ⟨.inr, fun h => h.resolve_left (by omega)⟩

theorem IsDated.isFallback_iff {e : Entry} {i : Instant} (dated : e.IsDated i) {source : String}
    {record : Record} (h : e.toRecord source = .ok record) :
    record.publishedAt.isFallback = true ↔ i.date.year < 1000 := by
  rcases Nat.lt_or_ge i.date.year 1000 with hyear | hyear
  · obtain ⟨fault, hread⟩ := (dated.publishedAt h).2 hyear
    rw [hread]
    exact ⟨fun _ => hyear, fun _ => rfl⟩
  · rw [(dated.publishedAt h).1 hyear]
    constructor
    · intro h
      cases h
    · omega

end Entry

/-! ## What a run puts -/

/-- A run is through with an entry when it has put it or left it out. -/
def RunResult.settled (r : RunResult) : Nat := r.published + r.tooOld + r.repeated

theorem JobSpec.judge_of_not_perpetual {spec : JobSpec} (h : spec.perpetual = false)
    (store : Snapshots) (record : Record) : spec.judge store record = .admitted ↔
      record.publishedAt.passes spec.since = true := by
  unfold judge
  cases record.publishedAt.passes spec.since <;> simp [h]

/-- What a run has made of the entries that it is through with, which gave it these records. -/
structure Sifted (h : History) (a : ActivityId) (spec : JobSpec) (r : RunResult)
    (records : List Record) : Prop where
  settled_le : r.settled ≤ (h.entriesOf a).length
  /-- A run that came through is through with all its entries. -/
  whole : r.success = true → r.settled = (h.entriesOf a).length
  read : ((h.entriesOf a).take r.settled).map (·.toRecord spec.source) = records.map .ok
  /-- The records that pass are put, each once and in their order, and no others. -/
  put : h.recordsPutBy a = records.filter (·.publishedAt.passes spec.since)

namespace Sifted

variable {h : History} {a : ActivityId} {spec : JobSpec} {r : RunResult} {records : List Record}

/-- Whether the record of an entry is put is a question of the entry alone. -/
theorem mem_iff (sifted : Sifted h a spec r records) {e : Entry}
    (he : e ∈ (h.entriesOf a).take r.settled) : ∃ record, e.toRecord spec.source = .ok record ∧
      (record ∈ h.recordsPutBy a ↔ record.publishedAt.passes spec.since = true) := by
  have hmem := List.mem_map_of_mem (f := (·.toRecord spec.source)) he
  rw [sifted.read] at hmem
  obtain ⟨record, hrecord, heq⟩ := List.mem_map.mp hmem
  refine ⟨record, heq.symm, ?_⟩
  rw [sifted.put, List.mem_filter]
  exact and_iff_right hrecord

end Sifted

namespace Handling

variable {h : History} {a : ActivityId} {spec : JobSpec} {r : RunResult} {settled pending : Nat}

/-- What a run did sifts its entries if its judgements were about dates only. -/
theorem sifted (handling : Handling h a spec r settled (settled + pending))
    (hjudged : ∀ record verdict, (record, verdict) ∈ h.judgementsBy a →
      (verdict = .admitted ↔ record.publishedAt.passes spec.since = true))
    (hwhole : r.success = true → r.settled = (h.entriesOf a).length) :
    Sifted h a spec r (Trail.records ((h.judgementsBy a).take settled)) where
  settled_le := by
    have hle := handling.met_le
    have hsum := handling.sum
    unfold RunResult.settled
    omega
  whole := hwhole
  read := by
    have hread := congrArg (List.take settled) handling.judged
    rw [← List.map_take, ← List.map_take, List.take_take,
      Nat.min_eq_left (Nat.le_add_right settled pending)] at hread
    rw [RunResult.settled, handling.sum, hread, Trail.records, List.map_map]
    rfl
  put := by
    rw [handling.put, Trail.admitted, Trail.records, List.filter_map]
    congr 1
    refine List.filter_congr fun judgement hmem => ?_
    have hverdict := hjudged _ _ (List.mem_of_mem_take hmem)
    exact Bool.eq_iff_iff.mpr (decide_eq_true_iff.trans hverdict)

end Handling

namespace Intake

section

variable {now : DateTime} {queue : RecordQueue} {store : Snapshots}
  {web : List (String × Response)} {w : Intake} {a : ActivityId} {spec : JobSpec} {r : RunResult}

/-- Whatever a run judged, it judged for its own job, against what the store held at the time. -/
theorem Reaches.exists_judge_eq (reach : Reaches (start now queue store web) w)
    (hphase : (w.affairs.phase a).spec? = some spec) {record : Record} {verdict : Verdict}
    (h : (record, verdict) ∈ w.history.judgementsBy a) :
    ∃ held, verdict = spec.judge held record := by
  obtain ⟨deed, hdeed, hjudged⟩ := List.mem_filterMap.mp h
  obtain ⟨job, hdid⟩ := History.mem_deedsOf.mp hdeed
  cases deed with
  | judged =>
      cases hjudged
      obtain ⟨later, past, hsplit⟩ := List.append_of_mem hdid
      cases hphase.symm.trans (reach.sound.owned hdid)
      exact ⟨_, reach.sound.judged hsplit⟩
  | _ => cases hjudged

/-- A run that is not perpetual judges by the date alone, whatever the store held. -/
theorem Reaches.judged_by_date (reach : Reaches (start now queue store web) w)
    (hphase : (w.affairs.phase a).spec? = some spec) (hperp : spec.perpetual = false)
    {record : Record} {verdict : Verdict} (h : (record, verdict) ∈ w.history.judgementsBy a) :
    verdict = .admitted ↔ record.publishedAt.passes spec.since = true := by
  obtain ⟨held, rfl⟩ := reach.exists_judge_eq hphase h
  exact JobSpec.judge_of_not_perpetual hperp held record

theorem Reaches.settled_of_success (reach : Reaches (start now queue store web) w)
    (hs : w.specOf? a = some spec) (hr : w.result? a = some r) (hsuccess : r.success = true) :
    r.settled = (w.history.entriesOf a).length := by
  have hresult := (reach.stands hs hr).2
  obtain ⟨_, r', entries, trail, now, progress, hphase, hdeeds⟩ :=
    (reach.sound.explained a).of_success hresult hsuccess
  rw [hphase] at hresult
  cases hresult
  calc r'.published + r'.tooOld + r'.repeated = trail.length := progress.tally.sum
    _ = entries.length := progress.length_eq
    _ = (w.history.entriesOf a).length :=
        congrArg List.length (History.entriesOf_eq hdeeds).symm

theorem Reaches.exists_sifted (reach : Reaches (start now queue store web) w)
    (hs : w.specOf? a = some spec) (hr : w.result? a = some r) (hperp : spec.perpetual = false) :
    ∃ records, Sifted w.history a spec r records := by
  obtain ⟨job, settled, pending, hjob, handling⟩ :=
    exists_handling reach.sound reach.tidy_of_start hr
  cases hs.symm.trans hjob
  exact ⟨_, handling.sifted
    (fun _ _ => reach.judged_by_date (reach.stands hs hr).1 hperp)
    (reach.settled_of_success hs hr)⟩

/-- **Dated entries are sifted by their dates.** A run that is not perpetual puts the records of
those entries, among the ones it is through with, that pass. One whose date was understood as an
instant passes if and only if that is later than the threshold, or its year is below 1000: such a
date, and no other that was understood, is taken for unusable. -/
theorem dated_entries_sifted (reach : Reaches (start now queue store web) w)
    (hs : w.specOf? a = some spec) (hr : w.result? a = some r) (hperp : spec.perpetual = false) :
    (∃ records, Sifted w.history a spec r records) ∧
      ∀ e ∈ (w.history.entriesOf a).take r.settled, ∀ i, e.IsDated i →
        ∃ record, e.toRecord spec.source = .ok record ∧
          (record.publishedAt.isFallback = true ↔ i.date.year < 1000) ∧
          (record ∈ w.history.recordsPutBy a ↔ i.date.year < 1000 ∨ spec.since < i) := by
  obtain ⟨records, sifted⟩ := reach.exists_sifted hs hr hperp
  refine ⟨⟨records, sifted⟩, fun e he i dated => ?_⟩
  obtain ⟨record, hrecord, hmem⟩ := sifted.mem_iff he
  exact ⟨record, hrecord, dated.isFallback_iff hrecord,
    hmem.trans (dated.passes_iff hrecord spec.since)⟩

end

/-! ## Three new years -/

theorem newYear_inCalendar {year : Nat} (h : year ≤ 9999) :
    daysBeforeYear year * dayMicros < Date.count * dayMicros := by
  simp only [daysBeforeYear, Date.count, dayMicros]
  omega

def newYear (year : Nat) (h : year ≤ 9999) : Instant where
  micros := daysBeforeYear year * dayMicros
  inCalendar := newYear_inCalendar h

def datedAt (i : Instant) : Entry :=
  ⟨.plain, .dict [("published_parsed", .brokenDown i.brokenDown)]⟩

theorem datedAt_isDated {i : Instant} (h : i.time.micro = 0) : (datedAt i).IsDated i :=
  ⟨h, _, rfl, rfl⟩

def recent : JobSpec := ⟨"a", newYear 2020 (by decide), 1000, false⟩

def newYears : Intake :=
  ticks 1 ((ofFeed (.ofCapacity 0) recent [datedAt (newYear 999 (by decide)),
    datedAt (newYear 2019 (by decide)), datedAt (newYear 2021 (by decide))]).startRun 0).1

theorem reaches_newYears :
    Reaches (start Instant.first.toDateTime (.ofCapacity 0) .unbounded []) newYears :=
  ((reaches_ofFeed (.ofCapacity 0) recent _).tail (.startRun _ 0)).trans (ticks_reaches 1 _)

/-- One date of three is unusable, one too old and one recent. -/
theorem dated_entries_sifted_newYears : ∃ r, newYears.result? 0 = some r ∧
    (∃ records, Sifted newYears.history 0 recent r records) ∧
      ∀ e ∈ (newYears.history.entriesOf 0).take r.settled, ∀ i, e.IsDated i →
        ∃ record, e.toRecord "a" = .ok record ∧
          (record.publishedAt.isFallback = true ↔ i.date.year < 1000) ∧
          (record ∈ newYears.history.recordsPutBy 0 ↔ i.date.year < 1000 ∨ recent.since < i) :=
  ⟨_, rfl, dated_entries_sifted reaches_newYears rfl rfl rfl⟩

example : (newYears.history.recordsPutBy 0).map (·.published) =
    [some "999-01-01T00:00:00Z", some "2021-01-01T00:00:00Z"] := by decide +kernel

/-- The entry of the year 999 slips through: the run comes through and has put its record, though
its date was understood and is not later than the threshold. -/
theorem ancient_entry_put : ∃ r record, newYears.specOf? 0 = some recent ∧
    recent.perpetual = false ∧ newYears.result? 0 = some r ∧ r.success = true ∧
    datedAt (newYear 999 (by decide)) ∈ newYears.history.entriesOf 0 ∧
    (datedAt (newYear 999 (by decide))).IsDated (newYear 999 (by decide)) ∧
    (datedAt (newYear 999 (by decide))).toRecord "a" = .ok record ∧
    record ∈ newYears.history.recordsPutBy 0 ∧
    ¬recent.since < newYear 999 (by decide) := by
  have hsuccess : ∃ r, newYears.result? 0 = some r ∧ r.success = true := ⟨_, rfl, by decide +kernel⟩
  obtain ⟨r, hr, hsuccess⟩ := hsuccess
  have hentry : datedAt (newYear 999 (by decide)) ∈ newYears.history.entriesOf 0 :=
    List.mem_cons_self
  have dated : (datedAt (newYear 999 (by decide))).IsDated (newYear 999 (by decide)) :=
    datedAt_isDated (by decide +kernel)
  obtain ⟨records, sifted⟩ := reaches_newYears.exists_sifted rfl hr rfl
  obtain ⟨record, hrecord, hput⟩ :=
    sifted.mem_iff (by rwa [sifted.whole hsuccess, List.take_length])
  refine ⟨r, record, rfl, rfl, hr, hsuccess, hentry, dated, hrecord, ?_, by decide +kernel⟩
  exact hput.mpr ((dated.passes_iff hrecord _).mpr (.inl (by decide +kernel)))

end Intake

end FeedIntake
