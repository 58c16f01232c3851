import FeedIntake.Proofs.CompletedRun
import FeedIntake.Proofs.Retention
import FeedIntake.Proofs.Succession

/-! # The steady state of rounds

A second round over the same entries finds every identity in the snapshot of its source, whatever
others commit in the meantime, as long as the store has room for all sources of the round. So it
puts nothing but entries without an identity.
-/

namespace FeedIntake

open Affairs
open Time (DateTime Instant)

open Intake

/-! ## Steady runs -/

/-- What is made of a record whose identity is known, if it has one. -/
def JobSpec.steadyVerdict (spec : JobSpec) (record : Record) : Verdict :=
  if !record.publishedAt.passes spec.since then .tooOld
  else if record.identity.isEmpty then .admitted
  else .repeated

/-- A run has come through with entries all of whose identities were known. -/
structure Intake.SteadyRun (w : Intake) (spec : JobSpec) (entries : List Entry) (m : ActivityId)
    (r : RunResult) (records : List Record) : Prop where
  result : w.result? m = some r
  success : r.success = true
  read : entries.map (·.toRecord spec.source) = records.map .ok
  judged : w.history.judgementsBy m = records.map fun record => (record, spec.steadyVerdict record)
  /-- In the order of the feed, the new records that have no identity. -/
  put : w.history.recordsPutBy m = records.filter fun record =>
    record.publishedAt.passes spec.since && record.identity.isEmpty
  published : r.published = records.countP fun record =>
    record.publishedAt.passes spec.since && record.identity.isEmpty
  tooOld : r.tooOld = records.countP fun record => !record.publishedAt.passes spec.since
  repeated : r.repeated = records.countP fun record =>
    record.publishedAt.passes spec.since && !record.identity.isEmpty

section

variable {spec : JobSpec} {base : Snapshots} {identities : List String} {record : Record}

/-- A record is known if it has an identity that the snapshot of its source was made of. -/
theorem JobSpec.knows_of_mem (hperp : spec.perpetual = true)
    (hmem : record.identity ∈ identities) :
    spec.knows (some (Snapshots.setOf identities)) record = !record.identity.isEmpty := by
  rw [knows, hperp]
  cases hid : record.identity.isEmpty with
  | true => rfl
  | false =>
      have hne : record.identity ≠ "" := fun heq => by simp [heq] at hid
      simpa using Snapshots.mem_setOf.mpr ⟨hne, hmem⟩

theorem JobSpec.judge_of_mem (hperp : spec.perpetual = true)
    (hbase : base.snapshot? spec.source = some (Snapshots.setOf identities))
    (hmem : record.identity ∈ identities) : spec.judge base record = spec.steadyVerdict record := by
  rw [judge_eq, hbase, knows_of_mem hperp hmem, steadyVerdict]
  cases record.identity.isEmpty <;> rfl

variable {w : Intake} {store : Snapshots} {backlog : List Record} {entries : List Entry}
  {m : ActivityId} {r : RunResult} {outcome : RunOutcome}

/-- A run was always told of the same snapshot, and so its judgements are those of one store. -/
theorem Affairs.Sound.trail_eq (h : w.affairs.Sound store backlog)
    (hspec : (w.affairs.phase m).spec? = some spec) {trail : Trail} {more : List Deed}
    (hdeeds : w.history.deedsOf m = .fetched entries :: trail.deeds ++ more)
    (htold : ∀ (later past : History) (record : Record) (verdict : Verdict),
      w.history = later ++ .did m spec (.judged record verdict) :: past →
        (past.replay store).snapshot? spec.source = base.snapshot? spec.source) :
    trail = .judgedBy spec base trail.records := by
  refine Trail.eq_judgedBy fun record verdict hmem => ?_
  have hdeed : Deed.judged record verdict ∈ w.history.deedsOf m := by
    rw [hdeeds]
    exact List.mem_cons_of_mem _ (List.mem_append_left _ (Trail.judged_mem_deeds hmem))
  obtain ⟨job, hdid⟩ := History.mem_deedsOf.mp hdeed
  have howned := h.owned hdid
  rw [hspec] at howned
  cases howned
  obtain ⟨later, past, hsplit⟩ := List.append_of_mem hdid
  rw [h.judged hsplit]
  exact JobSpec.judge_congr (htold later past record verdict hsplit) record

/-- A run is steady if the snapshot that it was told of was always the one that its entries would
leave. -/
theorem Affairs.Sound.steadyRun (h : w.affairs.Sound store backlog) (hperp : spec.perpetual = true)
    (hphase : w.affairs.phase m = .ended spec r outcome) (hsuccess : r.success = true)
    (hgiven : ∀ given, Deed.fetched given ∈ w.history.deedsOf m → given = entries)
    (hbase : base.snapshot? spec.source =
      some (Snapshots.setOf (entries.map (·.identity spec.source))))
    (htold : ∀ (later past : History) (record : Record) (verdict : Verdict),
      w.history = later ++ .did m spec (.judged record verdict) :: past →
        (past.replay store).snapshot? spec.source = base.snapshot? spec.source) :
    ∃ records, w.SteadyRun spec entries m r records := by
  obtain ⟨_, hresult, -⟩ := View.of_phase_ended hphase
  obtain ⟨spec', r', given, trail, now, progress, hphase', hdeeds⟩ :=
    (h.explained m).of_success (by rw [hphase]; rfl) hsuccess
  have hdone : w.history.deedsOf m = _ := hdeeds
  rw [hphase] at hphase'
  obtain ⟨rfl, rfl, rfl⟩ := Phase.ended.inj hphase'
  obtain rfl := hgiven given (by rw [hdone]; simp)
  have htrail := h.trail_eq (by rw [hphase]; rfl) hdone htold
  have hmet (record : Record) (hmem : record ∈ trail.records) :
      record.identity ∈ given.map (·.identity spec.source) := by
    rw [Entry.map_identity progress.read]
    exact List.mem_map_of_mem hmem
  have hknows (record : Record) (hmem : record ∈ trail.records) :
      spec.knows (base.snapshot? spec.source) record = !record.identity.isEmpty := by
    rw [hbase, JobSpec.knows_of_mem hperp (hmet record hmem)]
  have hcount (verdict : Verdict) : trail.count verdict =
      trail.records.countP fun record => decide (spec.judge base record = verdict) :=
    (congrArg (Trail.count · verdict) htrail).trans (Trail.count_judgedBy _ _ _ _)
  refine ⟨trail.records, ?_⟩
  exact {
    result := by rw [← view_result?, hresult]
    success := hsuccess
    read := progress.read
    judged := by
      rw [History.judgementsBy_eq hdone, hperp]
      refine (List.append_nil trail).trans (htrail.trans ?_)
      refine List.map_congr_left fun record hmem => ?_
      rw [JobSpec.judge_of_mem hperp hbase (hmet record hmem)]
    put := by
      rw [History.recordsPutBy_eq hdone, hperp]
      refine (List.append_nil trail.admitted).trans ((congrArg Trail.admitted htrail).trans ?_)
      rw [Trail.admitted_judgedBy]
      refine List.filter_congr fun record hmem => ?_
      simp [JobSpec.decide_judge_eq, hknows record hmem]
    published := by
      refine progress.tally.published.trans ((hcount .admitted).trans ?_)
      refine List.countP_congr fun record hmem => ?_
      simp [JobSpec.decide_judge_eq, hknows record hmem]
    tooOld := by
      refine progress.tally.tooOld.trans ((hcount .tooOld).trans ?_)
      refine List.countP_congr fun record hmem => ?_
      simp [JobSpec.decide_judge_eq]
    repeated := by
      refine progress.tally.repeated.trans ((hcount .repeated).trans ?_)
      refine List.countP_congr fun record hmem => ?_
      simp [JobSpec.decide_judge_eq, hknows record hmem] }

end

/-! ## What was committed -/

/-- What a run commits was met in what it was given. -/
theorem Plan.Course.committed {plan : Plan} {s t : Affairs} {a : ActivityId} {spec : JobSpec}
    {store : Snapshots} {records : List Record} {entries : List Entry} {identities : List String}
    (course : plan.Course s t) (h : t.Sound store records) (hstart : s.history.deedsOf a = [])
    (hanswer : plan.answer? a = some (.ok entries))
    (hmem : Event.did a spec (.committed identities) ∈ t.history) :
    Snapshots.setOf identities = Snapshots.setOf (entries.map (·.identity spec.source)) := by
  obtain ⟨later, past, hsplit⟩ := List.append_of_mem hmem
  obtain ⟨r, given, trail, now, progress, -, -, hdeeds, rfl⟩ := h.of_committed hsplit
  have hfetched : Deed.fetched given ∈ t.history.deedsOf a := by
    rw [hsplit, History.deedsOf_append, History.deedsOf_did_self, hdeeds]
    simp
  have hgiven := course.told hstart hfetched
  rw [hanswer] at hgiven
  cases hgiven
  rw [progress.seen_eq, Snapshots.setOf_setOf]

namespace Intake

section

variable {w : Intake} {r : RoundId} {spec : RoundSpec} {supplier : Supplier} {round : Round}
  {source : String} {m : ActivityId} {result : RunResult} {since : Instant} {store : Snapshots}
  {records : List Record}

theorem CameThrough.committedFor (h : w.CameThrough r spec supplier source m result since)
    (sound : w.affairs.Sound store records) (hperp : spec.perpetual = true) :
    w.history.CommittedFor source := by
  obtain ⟨outcome, hphase⟩ := h.ended
  obtain ⟨-, hresult, -⟩ := View.of_phase_ended hphase
  rw [view_result?] at hresult
  have hcompleted : w.CompletedFor m source := ⟨_, _, h.job, rfl, hperp, hresult, h.success⟩
  obtain ⟨job, identities, hsource, hmem⟩ := (completedFor_iff_committed sound).mp hcompleted
  exact ⟨m, job, identities, hmem, hsource⟩

/-- What a member has committed was met in the feed of its source. -/
theorem Accomplished.known (h : w.Accomplished r spec supplier round) {s : Affairs}
    (course : w.plan.Course s w.affairs) (sound : w.affairs.Sound store records)
    {feed : String → List Entry} (hfeed : ∀ since, ∀ source ∈ spec.sources,
      supplier.answerFor w.web (spec.jobFor since source) = .ok (feed source))
    {j : JobId} (hrole : w.role? m = some (.member r j)) (hstart : s.history.deedsOf m = [])
    {job : JobSpec} {identities : List String}
    (hmem : Event.did m job (.committed identities) ∈ w.history) :
    job.source ∈ spec.sources ∧ Snapshots.setOf identities =
      Snapshots.setOf ((feed job.source).map (·.identity job.source)) := by
  obtain ⟨source, result, since, hsource, through⟩ := h.of_member hrole
  obtain ⟨outcome, hphase⟩ := through.ended
  have howned := sound.owned hmem
  rw [hphase] at howned
  cases howned
  exact ⟨hsource, course.committed sound hstart
    (through.answer.trans (congrArg some (hfeed since source hsource))) hmem⟩

end

section

variable {now : DateTime} {capacity : Nat} {backlog : List Record} {store : Snapshots}
  {web web' : List (String × Response)} {supplier supplier' : Supplier} {spec spec' : RoundSpec}
  {w v : Intake}

/-- Whatever is committed in two rounds was met in the feed of its source. -/
theorem commitsKnown_nextRound {feed : String → List Entry}
    (proceeds : Proceeds (ofRound now (.holding capacity backlog) store web supplier spec) w)
    (completed : w.Completed 0) (next : Proceeds (w.nextRound web' supplier' spec') v)
    (completed' : v.Completed 1) (hsources : spec'.sources = spec.sources)
    (hfeed : ∀ since, ∀ source ∈ spec.sources,
      supplier.answerFor web (spec.jobFor since source) = .ok (feed source))
    (hfeed' : ∀ since, ∀ source ∈ spec.sources,
      supplier'.answerFor web' (spec'.jobFor since source) = .ok (feed source)) :
    v.history.CommitsKnown spec.sources fun source =>
      Snapshots.setOf ((feed source).map (·.identity source)) := by
  obtain ⟨sound, -⟩ := sound_of_ofRound proceeds
  obtain ⟨unfolds, -⟩ := unfolds_ofRound proceeds
  obtain ⟨unfolds', -⟩ := unfolds_nextRound proceeds completed next
  obtain ⟨round, accomplished⟩ := accomplished_ofRound proceeds completed
  obtain ⟨round', accomplished'⟩ := accomplished_nextRound proceeds completed next completed'
  have course := course_nextRound proceeds completed next
  have sound' : v.affairs.Sound store backlog := course.course.sound sound
  intro a job identities hmem
  by_cases hnew : w.history.deedsOf a = []
  · obtain ⟨j, hrole⟩ := (newcomers proceeds completed next
      (specOf?_of_phase (sound'.owned hmem))).mp hnew
    rw [← hsources] at hfeed' ⊢
    rw [show web' = v.web from unfolds'.settled.web.symm] at hfeed'
    exact accomplished'.known course sound' hfeed' hrole hnew hmem
  · -- It has ended in the first round and has done nothing since.
    obtain ⟨known, hknown⟩ := sound.exists_spec hnew
    obtain ⟨j, hrole⟩ := exists_member_of_ofRound proceeds hknown
    obtain ⟨source, result, since, -, through⟩ := accomplished.of_member hrole
    obtain ⟨outcome, hphase⟩ := through.ended
    have hdeed : Deed.committed identities ∈ v.affairs.history.deedsOf a :=
      History.mem_deedsOf.mpr ⟨job, hmem⟩
    rw [course.course.deedsOf_of_ended hphase] at hdeed
    obtain ⟨job', hmem'⟩ := History.mem_deedsOf.mp hdeed
    have howned := sound'.owned hmem
    rw [course.course.phase_of_ended hphase] at howned
    have howned' := sound.owned hmem'
    rw [hphase, howned] at howned'
    cases howned'
    rw [show web = w.web from unfolds.settled.web.symm] at hfeed
    exact accomplished.known unfolds.course sound hfeed hrole
      (by rw [affairs_ofRound]; rfl) hmem'

/-- Who comes through in the second round is steady, if the store always held what its entries would
leave. -/
theorem steadyRun_nextRound {entries : List Entry}
    (proceeds : Proceeds (ofRound now (.holding capacity backlog) store web supplier spec) w)
    (completed : w.Completed 0) (next : Proceeds (w.nextRound web' supplier' spec') v)
    (hperp : spec'.perpetual = true) {source : String} {m : ActivityId} {result : RunResult}
    {since : Instant}
    (through : v.CameThrough 1 { spec' with supplier := 1 } supplier' source m result since)
    (hanswer : supplier'.answerFor web' (spec'.jobFor since source) = .ok entries)
    (hheld : ∀ past : History, w.history <:+ past → past <:+ v.history →
      (past.replay store).snapshot? source =
        some (Snapshots.setOf (entries.map (·.identity source)))) :
    ∃ records, v.SteadyRun (spec'.jobFor since source) entries m result records := by
  obtain ⟨sound, -⟩ := sound_of_ofRound proceeds
  have course := course_nextRound proceeds completed next
  have sound' : v.affairs.Sound store backlog := course.course.sound sound
  have hgrows : w.history <:+ v.history := course.course.history_suffix
  obtain ⟨outcome, hphase⟩ := through.ended
  have hnew := (newcomers proceeds completed next through.job).mpr through.role
  have hgiven (given : List Entry) (hfetched : Deed.fetched given ∈ v.history.deedsOf m) :
      given = entries := by
    have hgave : v.answer? m = some (.ok given) := course.told hnew hfetched
    rw [through.answer, (unfolds_nextRound proceeds completed next).1.settled.web] at hgave
    exact Except.ok.inj ((Option.some.inj hgave).symm.trans hanswer)
  have hbase : w.store.snapshot? source =
      some (Snapshots.setOf (entries.map (·.identity source))) := by
    have hstore : w.store = w.history.replay store := sound.replayed
    rw [hstore]
    exact hheld w.history List.suffix_rfl hgrows
  refine sound'.steadyRun hperp hphase through.success hgiven hbase ?_
  intro later past record verdict hsplit
  -- The run had done nothing before the second round, so all that it judged it judged since then.
  have hfresh : Event.did m (spec'.jobFor since source) (.judged record verdict) ∉ w.history := by
    intro hmem
    have hdeed := History.mem_deedsOf.mpr ⟨_, hmem⟩
    rw [hnew] at hdeed
    cases hdeed
  rw [hsplit] at hgrows hheld
  rw [show (spec'.jobFor since source).source = source from rfl, hbase]
  exact hheld past (History.suffix_of_notMem hgrows hfresh)
    ((List.suffix_cons _ past).trans (List.suffix_append later _))

/-- Two rounds over the same feeds come through one after the other, in any order of the moves.
While the second one goes on the store holds every identity of every source, none of the sources is
forgotten, and every run of it puts exactly the new records that have no identity. -/
theorem steady_rounds {feed : String → List Entry}
    (hroom : ∀ k, store.capacity = some k → spec.sources.length ≤ k)
    (hperp : spec.perpetual = true) (hperp' : spec'.perpetual = true)
    (hsources : spec'.sources = spec.sources)
    (hfeed : ∀ since, ∀ source ∈ spec.sources,
      supplier.answerFor web (spec.jobFor since source) = .ok (feed source))
    (hfeed' : ∀ since, ∀ source ∈ spec.sources,
      supplier'.answerFor web' (spec'.jobFor since source) = .ok (feed source))
    (proceeds : Proceeds (ofRound now (.holding capacity backlog) store web supplier spec) w)
    (completed : w.Completed 0) (next : Proceeds (w.nextRound web' supplier' spec') v)
    (completed' : v.Completed 1) :
    (∀ u, Proceeds (w.nextRound web' supplier' spec') u → Proceeds u v →
      ∀ source ∈ spec.sources, u.store.snapshot? source =
        some (Snapshots.setOf ((feed source).map (·.identity source)))) ∧
    (∀ (later past : History) (a : ActivityId) (job : JobSpec) (identities : List String),
      v.history = later ++ .did a job (.committed identities) :: past → w.history <:+ past →
        ∀ source ∈ spec.sources, source ∉ (past.replay store).evicted job.source identities) ∧
    ∃ round, v.rounds[1]? = some round ∧ round.results.length = spec.sources.length ∧
      ∀ (i : Nat) (source : String), spec.sources[i]? = some source → ∃ m result since records,
        round.members[i]? = some m ∧ round.results[i]? = some result ∧
          thresholdOf spec'.since = .ok since ∧
          v.SteadyRun (spec'.jobFor since source) (feed source) m result records := by
  obtain ⟨sound, htidy⟩ := sound_of_ofRound proceeds
  obtain ⟨round, accomplished⟩ := accomplished_ofRound proceeds completed
  obtain ⟨round', accomplished'⟩ := accomplished_nextRound proceeds completed next completed'
  have hknown := commitsKnown_nextRound proceeds completed next completed' hsources hfeed hfeed'
  have hcommitted (source : String) (hsource : source ∈ spec.sources) :
      w.history.CommittedFor source := by
    obtain ⟨i, hi⟩ := List.getElem?_of_mem hsource
    obtain ⟨m, result, since, -, -, through⟩ := accomplished.each hi
    exact through.committedFor sound hperp
  have hheld (source : String) (hsource : source ∈ spec.sources) (past : History)
      (hlow : w.history <:+ past) (hhigh : past <:+ v.history) :
      (past.replay store).snapshot? source =
        some (Snapshots.setOf ((feed source).map (·.identity source))) :=
    History.snapshot?_replay_of_known hroom hknown (hcommitted source hsource) hlow hhigh
  refine ⟨fun u before after source hsource => ?_, ?_, round', accomplished'.recorded,
    hsources ▸ accomplished'.length_eq, ?_⟩
  · have course₁ := (Proceeds.reaches before).course (by rw [affairs_nextRound]; exact htidy)
    rw [affairs_nextRound] at course₁
    have course₂ := (Proceeds.reaches after).course (course₁.tidy htidy)
    have hreplayed : u.store = u.history.replay store := (course₁.sound sound).replayed
    rw [hreplayed]
    exact hheld source hsource u.history course₁.history_suffix course₂.history_suffix
  · intro later past a job identities hsplit hlow source hsource
    exact History.notMem_evicted_of_known hroom hknown (hcommitted source hsource) hlow hsplit
  · intro i source hi
    have hsource := List.mem_of_getElem? hi
    obtain ⟨m, result, since, hm, hr, through⟩ := accomplished'.each (hsources ▸ hi)
    obtain ⟨records, steady⟩ := steadyRun_nextRound proceeds completed next hperp' through
      (hfeed' since source hsource) (hheld source hsource)
    exact ⟨m, result, since, records, hm, hr, through.threshold, steady⟩

end

def steadyFeed (source : String) : List Entry :=
  if source = "a" then [.bare "x", .bare ""] else [.bare "y"]

def steadyFeeds : Supplier :=
  .prepared [("a", ⟨.ok (steadyFeed "a"), false⟩), ("b", ⟨.ok (steadyFeed "b"), false⟩)]

/-- A store that has room for two sources and knows another one. -/
def crowded : Snapshots := (Snapshots.bounded 2 (by decide)).commit "z" ["w"]

def beforeBoth : Intake :=
  ofRound Instant.first.toDateTime (.holding 0 []) crowded [] steadyFeeds (.ofSources ["a", "b"])

def afterFirst : Intake := ticks 6 beforeBoth

def beforeSecond : Intake := afterFirst.nextRound [] steadyFeeds (.ofSources ["a", "b"])

def afterSecond : Intake := ticks 6 beforeSecond

theorem steady_rounds_twoFeeds : ∃ round, afterSecond.rounds[1]? = some round ∧
    round.results.length = 2 ∧ ∀ (i : Nat) (source : String), ["a", "b"][i]? = some source →
      ∃ m result since records, round.members[i]? = some m ∧ round.results[i]? = some result ∧
        afterSecond.SteadyRun ((RoundSpec.ofSources ["a", "b"]).jobFor since source)
          (steadyFeed source) m result records := by
  have hroom (k : Nat) (hk : crowded.capacity = some k) :
      (RoundSpec.ofSources ["a", "b"]).sources.length ≤ k := Nat.le_of_eq (Option.some.inj hk)
  have hfeed (since : Instant) (source : String)
      (h : source ∈ (RoundSpec.ofSources ["a", "b"]).sources) :
      steadyFeeds.answerFor [] ((RoundSpec.ofSources ["a", "b"]).jobFor since source) =
        .ok (steadyFeed source) := by
    rcases List.mem_cons.mp h with rfl | h
    · rfl
    · rw [List.mem_singleton.mp h]
      rfl
  have completed : afterFirst.Completed 0 := completed_of_all rfl rfl
  have completed' : afterSecond.Completed 1 := completed_of_all rfl rfl
  obtain ⟨-, -, round, hround, hlength, heach⟩ := steady_rounds hroom rfl rfl rfl hfeed hfeed
    (ticks_proceeds 6 beforeBoth) completed (ticks_proceeds 6 beforeSecond) completed'
  refine ⟨round, hround, hlength, fun i source hi => ?_⟩
  obtain ⟨m, result, since, records, hm, hr, -, steady⟩ := heach i source hi
  exact ⟨m, result, since, records, hm, hr, steady⟩

end Intake

end FeedIntake
