import FeedIntake.Proofs.Conduct
import FeedIntake.Proofs.Paths

/-! # What a round reports

A round whose fetches are not cancelled returns one result for every source, in the order of the
sources. Each is the result of the run of that source, whether the run came through, was refused or
raised, and tells how far this run got. What another source meets makes no difference to it. Only a
round that cannot begin fails, and it has run nothing then.
-/

namespace FeedIntake

open Affairs
open Intake
open Time (DateTime Instant)

/-! ## Names of results -/

namespace Phase

/-- The result of a run is about the source of its job. -/
def NamesSource : Phase → Prop
  | asking spec r | working spec r _ | offering spec r _ _ | ended spec r _ =>
      r.source = spec.source
  | _ => True

theorem Stop.namesSource {p : Phase} {spec : JobSpec} {r : RunResult} {outcome : RunOutcome}
    (stop : Stop spec p r outcome) (h : p.NamesSource) : (ended spec r outcome).NamesSource := by
  cases stop <;> exact h

end Phase

namespace Affairs

theorem Turn.namesSource {a : ActivityId} {spec : JobSpec} {s t : Affairs} (turn : Turn a spec s t)
    (h : (s.phase a).NamesSource) : (t.phase a).NamesSource := by
  cases turn with
  | begin now hp =>
      rw [set_phase_self]
      rfl
  | reject hp he hv | offer hp he hv =>
      rw [hp] at h
      rw [set_phase_self, RunResult.examine_eq]
      exact h
  | fetch entries hp | put hp | conclude now hp =>
      rw [hp] at h
      rw [set_phase_self]
      exact h
  | stop stop =>
      rw [set_phase_self]
      exact stop.namesSource h

theorem Course.namesSource {s t : Affairs} (course : Course s t)
    (h : ∀ a, (s.phase a).NamesSource) : ∀ a, (t.phase a).NamesSource := by
  induction course with
  | refl => exact h
  | tail _ step ih =>
      intro b
      rcases step with ⟨a, spec, turn⟩ | take
      · by_cases hb : b = a
        · subst hb
          exact turn.namesSource (ih b)
        · rw [turn.phase_of_ne hb]
          exact ih b
      · rw [take.phase]
        exact ih b

end Affairs

/-! ## Reports -/

/-- A run that raised on its path to the end has failed. -/
theorem RunResult.Took.failed_of_raised {result : RunResult} {job : JobSpec} {outcome : RunOutcome}
    {path : RunPath} (took : result.Took job outcome path) {fault : Fault}
    (h : outcome = .failed fault) : result.failed = true := by
  obtain ⟨hpath, -⟩ := took.ingestion.mp (took.raised fault h)
  rw [took.failed_iff, hpath]
  decide

/-- What came of the run of a job that asked for its entries and was given this answer. -/
structure Intake.ReportsOn (w : Intake) (queued : Nat) (answer : Except Fault (List Entry))
    (m : ActivityId) (job : JobSpec) (result : RunResult) (outcome : RunOutcome) : Prop where
  runs : w.specOf? m = some job
  reached : w.result? m = some result
  ended : w.outcome? m = some outcome
  source : result.source = job.source
  /-- The run has ended in one of the ways in which runs end, and its figures are what it did. -/
  ending : ∃ ending : Ending, ending.Explains w.history m job result outcome
  /-- Its states are a path to the end, and a run that raised has failed; only where the fetch
  raised a fault that is not about feeds, the run is left as it stood. -/
  states : (∃ path, result.Took job outcome path ∧
      ∀ fault, outcome = .failed fault → result.failed = true) ∨
    ∃ fault, answer = .error fault ∧ fault.isForeign = true ∧ outcome = .failed fault ∧
      result.LeftAsItStood
  uncancelled : outcome ≠ .cancelled
  /-- What it put is in the queue, or was taken from there. -/
  stays : (w.history.recordsPutBy m).Sublist
    ((w.history.recordsTaken ++ w.queue.records).drop queued)

/-- A round has returned a result of every source, in the order of the sources. -/
structure Intake.Returns (w : Intake) (queued : Nat) (web : List (String × Response))
    (supplier : Supplier) (spec : RoundSpec) (round : Round) (since : Instant) : Prop where
  known : w.rounds[0]? = some round
  began : spec.sources ≠ [] → 0 ≤ spec.limit ∧ thresholdOf spec.since = .ok since
  length : round.results.length = spec.sources.length
  /-- No two sources have their results from one run. -/
  apart : round.members.Nodup
  each : ∀ (i : Nat) source, spec.sources[i]? = some source → ∃ m result outcome,
    round.members[i]? = some m ∧ round.results[i]? = some result ∧
      w.ReportsOn queued (supplier.answerFor web (spec.jobFor since source)) m
        (spec.jobFor since source) result outcome

theorem RoundSpec.Declines.congr {spec spec' : RoundSpec} {fault : Fault} (h : spec.Declines fault)
    (hlimit : spec'.limit = spec.limit) (hsince : spec'.since = spec.since) :
    spec'.Declines fault := by
  cases h with
  | limit h => exact .limit (hlimit ▸ h)
  | threshold h h' => exact .threshold (hlimit ▸ h) (hsince ▸ h')

namespace Intake

section

variable {now : DateTime} {queue : RecordQueue} {store : Snapshots}
  {web : List (String × Response)} {w : Intake} {m : ActivityId} {job : JobSpec}
  {result : RunResult} {outcome : RunOutcome}

theorem recordsPutBy_sublist (reach : Reaches (start now queue store web) w) :
    (w.history.recordsPutBy m).Sublist
      ((w.history.recordsTaken ++ w.queue.records).drop queue.records.length) := by
  have hconserved : queue.records ++ w.history.recordsPut =
    w.history.recordsTaken ++ w.queue.records := reach.sound.conserved
  have hmine : (w.history.puts.filter (·.1 = m)).map (·.2) = w.history.recordsPutBy m := by
    rw [History.filter_puts, List.map_map]
    exact List.map_id _
  rw [← hconserved, List.drop_left, ← History.map_puts, ← hmine]
  exact List.filter_sublist.map _

/-- Where the fetch raised what a run left as it stood, that is what the fetch was to raise. -/
theorem MayEnd.answer_of_foreign {fault : Fault} (may : w.MayEnd m (.failed fault) (some result))
    (left : result.LeftAsItStood) : w.answer? m = some (.error fault) := by
  generalize houtcome : RunOutcome.failed fault = outcome at may
  cases may with
  | done => cases houtcome
  | working spec raised failed =>
      have hfailed := failed result rfl
      rw [RunResult.failed, left.states] at hfailed
      cases hfailed
  | asking h heq =>
      rw [← houtcome, Fault.outcome] at heq
      split at heq
      · cases heq
      · cases heq
        exact h
  | putting => cases houtcome

theorem reports_of_ended (reach : Reaches (start now queue store web) w)
    (hphase : w.affairs.phase m = .ended job result outcome) {answer : Except Fault (List Entry)}
    (hanswer : w.answer? m = some answer) (may : w.MayEnd m outcome (w.result? m))
    (uncancelled : outcome ≠ .cancelled) :
    w.ReportsOn queue.records.length answer m job result outcome := by
  obtain ⟨hs, hr, ho⟩ := of_phase_ended w m hphase
  have hexplained := reach.sound.explained m
  have hnames := reach.course_of_start.namesSource (fun _ => trivial) m
  rw [hphase] at hexplained hnames
  obtain ⟨ending, explains, -⟩ := hexplained.exists_ending
  refine ⟨hs, hr, ho, hnames, ⟨ending, explains⟩, ?_, uncancelled, recordsPutBy_sublist reach⟩
  rcases reach.took hs hr ho with ⟨fault, rfl, hforeign, -, left⟩ | ⟨path, took⟩
  · rw [hr] at may
    have hgiven := may.answer_of_foreign left
    rw [hanswer] at hgiven
    exact .inr ⟨fault, Option.some.inj hgiven, hforeign, rfl, left⟩
  · exact .inl ⟨path, took, fun fault h => took.failed_of_raised h⟩

end

section

variable {now : DateTime} {queue : RecordQueue} {store : Snapshots}
  {web : List (String × Response)} {supplier : Supplier} {spec : RoundSpec} {w : Intake}
  {m : ActivityId}

theorem exists_specOf?_of_answer {answer : Except Fault (List Entry)}
    (h : w.answer? m = some answer) : ∃ job, w.specOf? m = some job := by
  rw [answer?_eq_of_role] at h
  rw [specOf?_eq_of_role]
  obtain ⟨j, hj, hrest⟩ := Option.bind_eq_some_iff.mp h
  obtain ⟨job, hjob, -⟩ := Option.bind_eq_some_iff.mp hrest
  exact ⟨job.1, by rw [hj, Option.bind_some, hjob, Option.map_some]⟩

/-- Where no fetch and no put raises a cancellation, no run is cancelled. -/
theorem uncancelled_of_ofRound (hputters : queue.putters = []) (hgetters : queue.getters = [])
    (hqueue : ∀ fault, queue.refuses = some fault → fault.isCancellation = false)
    (hanswers : ∀ source ∈ spec.sources, ∀ since fault,
      supplier.answerFor web (spec.jobFor since source) = .error fault →
        fault.isCancellation = false)
    (proceeds : Proceeds (ofRound now queue store web supplier spec) w)
    {result? : Option RunResult} : ¬w.MayEnd m .cancelled result? := by
  obtain ⟨round, limit, conducts, hspec⟩ := conducts_of_ofRound hputters hgetters proceeds
  obtain ⟨goes, -⟩ := goes_ofRound hputters hgetters proceeds
  intro may
  cases may with
  | @asking fault _ _ h heq =>
      have hsupplier : w.suppliers[round.spec.supplier]? = some supplier := by
        rw [goes.settled.suppliers, hspec]
        rfl
      have hweb : w.web = web := goes.settled.web
      obtain ⟨job, hjob⟩ := exists_specOf?_of_answer h
      obtain ⟨p, hp, hmember⟩ := conducts.exists_member hjob
      obtain ⟨since, source, hmem, hanswer⟩ := conducts.exists_answer hp hmember hsupplier
      rw [h, hweb, hspec] at hanswer
      rw [hspec] at hmem
      have hnot := hanswers source hmem since fault (Option.some.inj hanswer).symm
      rw [Fault.outcome, if_neg (by simp [hnot])] at heq
      cases heq
  | putting h hc =>
      rw [hqueue _ (goes.settled.refuses.symm.trans h)] at hc
      cases hc

theorem returns_of_done (hputters : queue.putters = []) (hgetters : queue.getters = [])
    (hlimit : spec.sources ≠ [] → 0 ≤ spec.limit)
    (hnever : ∀ m result?, ¬w.MayEnd m .cancelled result?)
    (proceeds : Proceeds (ofRound now queue store web supplier spec) w)
    (hdone : w.roundOutcome? 0 = some .done) :
    ∃ round since, w.Returns queue.records.length web supplier spec round since := by
  obtain ⟨round, limit, conducts, hspec⟩ := conducts_of_ofRound hputters hgetters proceeds
  obtain ⟨goes, hosts⟩ := goes_ofRound hputters hgetters proceeds
  have reach := reaches_of_ofRound proceeds
  obtain ⟨roster, closed⟩ := hosts.closed hdone
  obtain ⟨-, since, hsince, staffed, hresults⟩ := hosts.done closed
  obtain ⟨-, hroster, -⟩ := closed
  rw [rosters, conducts.rounds] at hroster
  cases hroster
  refine ⟨round, since, by rw [conducts.rounds]; rfl, fun h => ⟨hlimit h, hsince h⟩, ?_,
    staffed.nodup, ?_⟩
  · exact hresults.length_eq.symm.trans staffed.length_eq
  · intro i source hsource
    obtain ⟨m, result, outcome, hmember, hresult, hphase⟩ := staffed.ended_at hresults hsource
    refine ⟨m, result, outcome, hmember, hresult, ?_⟩
    obtain ⟨p, hp, hpost⟩ := staffed.exists_post (List.mem_of_getElem? hmember)
    have fares := conducts.members m p hp hpost
    have hsupplier : w.suppliers[0]? = some supplier := by
      rw [goes.settled.suppliers]
      rfl
    have hanswer := staffed.answer?_at hmember hsource hsupplier
    rw [show w.web = web from goes.settled.web] at hanswer
    have may := fares.outcome outcome (stage_of_phase_ended w m hphase hp)
    refine reports_of_ended reach hphase hanswer may ?_
    rintro rfl
    exact hnever m _ may

/-- **A round returns one result for every source, in their order, or has run none of them.** What a
source meets stays with its own run: each result is that of the run of its source, whatever came of
it and of the others. -/
theorem round_reports_every_source (hputters : queue.putters = []) (hgetters : queue.getters = [])
    (hqueue : ∀ fault, queue.refuses = some fault → fault.isCancellation = false)
    (hanswers : ∀ source ∈ spec.sources, ∀ since fault,
      supplier.answerFor web (spec.jobFor since source) = .error fault →
        fault.isCancellation = false)
    (proceeds : Proceeds (ofRound now queue store web supplier spec) w) {outcome : RunOutcome}
    (houtcome : w.roundOutcome? 0 = some outcome) :
    (outcome = .done ∧
      ∃ round since, w.Returns queue.records.length web supplier spec round since) ∨
    ∃ fault, outcome = .failed fault ∧ spec.sources ≠ [] ∧ spec.Declines fault ∧
      ∀ m, w.result? m = none := by
  have hnever (m : ActivityId) (result? : Option RunResult) : ¬w.MayEnd m .cancelled result? :=
    uncancelled_of_ofRound hputters hgetters hqueue hanswers proceeds
  obtain ⟨round, limit, conducts, hspec⟩ := conducts_of_ofRound hputters hgetters proceeds
  have htidy := (reaches_of_ofRound proceeds).tidy_of_start
  cases conducts.footing_of_outcome houtcome with
  | declined sources members h =>
      rw [hspec] at sources h
      refine .inr ⟨_, rfl, sources, h.congr rfl rfl, fun m => ?_⟩
      by_contra hsome
      obtain ⟨p, hp, hmember⟩ := conducts.exists_member_of_result htidy
        (Option.isSome_iff_ne_none.mpr hsome)
      rw [conducts.unmanned members hp] at hmember
      cases hmember
  | skipped hempty _ =>
      rw [hspec] at hempty
      exact .inl ⟨rfl, returns_of_done hputters hgetters (fun h => absurd hempty h) hnever proceeds
        houtcome⟩
  | closed hlimit hsince _ _ _ h =>
      rw [hspec] at hlimit
      rcases h with rfl | ⟨rfl, m, result?, may⟩
      · exact .inl ⟨rfl, returns_of_done hputters hgetters (fun _ => hlimit) hnever proceeds
          houtcome⟩
      · exact absurd may (hnever m result?)

end

/-- One feed can be read, one cannot be had, and one has among its entries what is none. -/
def threeFeeds : Supplier :=
  .prepared [("a", ⟨.ok [.bare "x"], false⟩),
    ("b", ⟨.error (.failure (.of .network "down")), false⟩),
    ("c", ⟨.ok [.bare "y", ⟨.plain, .int 3⟩], false⟩)]

def threeUnread : Intake :=
  ofRound Instant.first.toDateTime (.ofCapacity 0) .unbounded [] threeFeeds
    (.ofSources ["a", "b", "c"])

theorem round_reports_every_source_threeFeeds : ∃ (w : Intake) (round : Round) (since : Instant),
    Proceeds threeUnread w ∧ w.roundOutcome? 0 = some .done ∧
      round.results.map (·.published) = [1, 0, 1] ∧
      round.results.map (·.failed) = [false, true, true] ∧
      w.Returns 0 [] threeFeeds (.ofSources ["a", "b", "c"]) round since := by
  have proceeds := ticks_proceeds 10 threeUnread
  have hanswers : ∀ source ∈ (RoundSpec.ofSources ["a", "b", "c"]).sources, ∀ since fault,
      threeFeeds.answerFor [] ((RoundSpec.ofSources ["a", "b", "c"]).jobFor since source) =
        .error fault → fault.isCancellation = false := by
    intro source hmem since fault h
    have hsource : source = "a" ∨ source = "b" ∨ source = "c" := by
      simpa [RoundSpec.ofSources] using hmem
    rcases hsource with rfl | rfl | rfl <;> cases h
    rfl
  rcases round_reports_every_source rfl rfl (fun fault h => by cases h) hanswers proceeds
    (show (ticks 10 threeUnread).roundOutcome? 0 = some .done from rfl) with
    ⟨-, round, since, returns⟩ | ⟨fault, h, -⟩
  · have hround := returns.known
    refine ⟨_, round, since, proceeds, rfl, ?_, ?_, returns⟩
    · cases hround
      rfl
    · cases hround
      rfl
  · cases h

/-- A limit below nothing, or a threshold that no instant denotes, makes a whole round fail. -/
theorem unfit_rounds_fail : ∃ w w' : Intake,
    Proceeds (ofRound Instant.first.toDateTime (.ofCapacity 0) .unbounded [] threeFeeds
      { RoundSpec.ofSources ["a"] with limit := -1 }) w ∧
    w.roundOutcome? 0 =
      some (.failed (.outside .value "Semaphore initial value must be >= 0")) ∧
    Proceeds (ofRound Instant.first.toDateTime (.ofCapacity 0) .unbounded [] threeFeeds
      { RoundSpec.ofSources ["a"] with since := beforeTime }) w' ∧
    w'.roundOutcome? 0 = some (.failed .overflow) :=
  ⟨_, _, ticks_proceeds 1 _, rfl, ticks_proceeds 1 _, rfl⟩

end Intake

end FeedIntake
