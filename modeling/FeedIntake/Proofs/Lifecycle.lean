import FeedIntake.Proofs.Ledger
import FeedIntake.Proofs.Paths
import FeedIntake.Proofs.RoundCourse

/-! # The life of a run

From its first step to its end a run is on one of three paths, and its result says which. The only
runs that come to no proper end are those whose fetch raises a fault that is not about feeds. The
results of a round are those of its members, and so the same holds of them.
-/

namespace FeedIntake

open Affairs
open Time (DateTime)

namespace Intake

/-! ## The results of rounds -/

def reported (w : Intake) : List (List RunResult) := w.rounds.map (·.results)

/-- Whatever is reported later was reported before, or is the result of somebody who has ended. -/
def Reports (w w' : Intake) : Prop :=
  ∀ results ∈ w'.reported, results ∈ w.reported ∨ ∀ x ∈ results, ∃ m, w.EndedWith m x

section

variable {w u w' : Intake} {a : ActivityId}

theorem Reports.of_eq (h : w'.reported = w.reported) : Reports w w' := fun _ hmem =>
  .inl (h ▸ hmem)

theorem Reports.after (h : Reports u w') (hreported : u.reported = w.reported)
    (hended : ∀ m x, u.EndedWith m x → w.EndedWith m x) : Reports w w' := by
  intro results hmem
  rcases h results hmem with hold | hnew
  · exact .inl (hreported ▸ hold)
  · exact .inr fun x hx => (hnew x hx).imp fun m => hended m x

theorem reported_eq (w : Intake) : w.reported = w.rosters.map (·.results) := by
  rw [rosters, List.map_map]
  rfl

theorem reported_of_outline (h : w'.outline = w.outline) : w'.reported = w.reported := by
  rw [reported_eq, reported_eq, show w'.rosters = w.rosters from congrArg Outline.rosters h]

theorem reported_of_pursuit (h : Pursuit a w w') : w'.reported = w.reported := by
  obtain ⟨u, motions, halt⟩ := h
  exact reported_of_outline (halt.outline.trans motions.outline)

theorem reported_onRound (w : Intake) (r : RoundId) {f : Round → Round}
    (h : ∀ x, (f x).results = x.results) : (w.onRound r f).reported = w.reported :=
  List.map_modify_of_unseen h w.rounds r

theorem reported_callOff (w : Intake) (a : ActivityId) : (w.callOff a).1.reported = w.reported := by
  unfold callOff
  split
  · rfl
  · split
    · rfl
    · split
      · show (w.leaveLines a).reported = w.reported
        unfold leaveLines
        dsimp only
        split
        · exact reported_onRound _ _ (by exact fun _ => rfl)
        · rfl
      · rfl

theorem reported_cancel (w : Intake) (a : ActivityId) : (w.cancel a).1.reported = w.reported :=
  cancel_induction (P := fun v => v.reported = w.reported) rfl
    (fun v m hv => (reported_callOff v m).trans hv)
    (fun v r hv => (reported_onRound v r (by exact fun _ => rfl)).trans hv) fun _ hv => hv

theorem reported_close (w : Intake) (a : ActivityId) (outcome : RunOutcome) :
    (w.close a outcome).reported = w.reported := reported_of_outline (outline_close w a outcome)

theorem reported_endOwner (w : Intake) (a : ActivityId) (outcome : RunOutcome) :
    (w.endOwner a outcome).reported = w.reported := by
  unfold endOwner
  split
  · rw [reported_close, reported_callOff]
  · exact reported_close w a outcome

theorem reported_endRound (w : Intake) (a : ActivityId) (r : RoundId) (results : List RunResult) :
    (w.endRound a r results).reported = (w.onRound r fun x => { x with results }).reported := by
  unfold endRound
  dsimp only
  split
  · split
    · exact reported_endOwner _ a _
    · rfl
  · exact reported_endOwner _ a _

theorem mem_reported_onRound {r : RoundId} {results given : List RunResult}
    (h : given ∈ (w.onRound r fun x => { x with results }).reported) :
    given ∈ w.reported ∨ given = results := by
  have hmap : (w.onRound r fun x => { x with results }).reported =
      w.reported.modify r fun _ => results := by
    refine List.map_modify ?_ w.rounds r
    exact fun _ => rfl
  rw [hmap] at h
  obtain ⟨i, hi⟩ := List.getElem?_of_mem h
  rw [List.getElem?_modify] at hi
  cases hr : w.reported[i]? with
  | none => simp [hr] at hi
  | some old =>
      simp only [hr, Option.map_eq_map, Option.map_some, Option.some.injEq] at hi
      by_cases hri : r = i
      · right
        rw [← hi, if_pos hri]
      · left
        rw [← hi, if_neg hri]
        exact List.mem_of_getElem? hr

theorem reports_endRound {results : List RunResult} (r : RoundId)
    (h : ∀ x ∈ results, ∃ m, w.EndedWith m x) : Reports w (w.endRound a r results) := by
  intro given hmem
  rw [reported_endRound] at hmem
  rcases mem_reported_onRound hmem with hold | rfl
  · exact .inl hold
  · exact .inr h

theorem exists_account_of_mem {members : List ActivityId} {results : List RunResult}
    (h : (w.accounts members).2 = some results) {x : RunResult} (hx : x ∈ results) :
    ∃ m entries, w.account m = some (x, entries) := by
  induction members generalizing results with
  | nil =>
      cases h
      cases hx
  | cons m rest ih =>
      unfold accounts at h
      split at h
      · cases h
      · rename_i result entries haccount
        obtain ⟨others, hothers, rfl⟩ := Option.map_eq_some_iff.mp h
        rcases List.mem_cons.mp hx with rfl | hx
        · exact ⟨m, entries, haccount⟩
        · exact ih hothers hx

theorem exists_endedWith (htidy : w.affairs.Tidy) {members : List ActivityId}
    {results : List RunResult} (h : (w.accounts members).2 = some results) {x : RunResult}
    (hx : x ∈ results) : ∃ m, w.EndedWith m x := by
  obtain ⟨m, entries, haccount⟩ := exists_account_of_mem h hx
  have hr : w.result? m = some x := by
    obtain ⟨y, hy, hx⟩ := Option.bind_eq_some_iff.mp haccount
    rw [result?, hy, Option.bind_some]
    split at hx
    · rename_i hresult
      cases hx
      exact hresult
    · rename_i hresult
      cases hx
      exact hresult
    · cases hx
  obtain ⟨spec, hs⟩ := exists_specOf? htidy hr
  exact ⟨m, endedWith_of_account haccount hs⟩

theorem reports_gather (htidy : w.affairs.Tidy) (r : RoundId) : Reports w (w.gather a r) := by
  unfold gather
  split
  · exact .of_eq rfl
  · rename_i round _
    dsimp only
    split
    · exact .of_eq (reported_endOwner _ a _)
    · rename_i results hresults
      exact reports_endRound (w := (w.log _).log _) r fun x hx =>
        exists_endedWith htidy hresults hx

theorem reports_beginRound (w : Intake) (a : ActivityId) (r : RoundId) :
    Reports w (w.beginRound a r) :=
  beginRound_induction (P := Reports w) (Q := fun v => v.reported = w.reported) (.of_eq rfl)
    (reports_endRound r fun x hx => by cases hx) (fun _ _ => .of_eq (reported_endOwner _ a _))
    (fun entries _ => reported_onRound (w.log entries) r (by exact fun _ => rfl))
    (fun v spec supplier hv =>
      (reported_onRound ((v.addJob spec supplier).1.add _).1 r (by exact fun _ => rfl)).trans hv)
    fun _ hv => .of_eq hv

theorem reported_note (w : Intake) (r : RoundId) : (w.note r).reported = w.reported := by
  have hround : (w.onRound r fun x => { x with ended := x.ended + 1 }).reported = w.reported :=
    reported_onRound w r (by exact fun _ => rfl)
  unfold note
  dsimp only
  split
  · exact hround
  · split
    · exact hround
    · exact hround

theorem reported_withQueue (w : Intake) (q : RecordQueue × Option ActivityId) :
    (w.withQueue q).reported = w.reported := by
  unfold withQueue
  cases q.2 <;> rfl

theorem reported_takeRecord (w : Intake) : w.takeRecord.reported = w.reported :=
  takeRecord_induction (P := fun v => v.reported = w.reported) rfl
    (fun _ => reported_withQueue _ _) fun _ _ _ hv => hv

theorem reported_takeRecords (w : Intake) (a : ActivityId) :
    (w.takeRecords a).reported = w.reported :=
  repeat_takeRecord_induction (P := fun v => v.reported = w.reported) w.queue.records.length rfl
    fun v hv => (reported_takeRecord v).trans hv

theorem reported_stopTaking (w : Intake) (a : ActivityId) (woken : Bool) :
    (w.stopTaking a woken).reported = w.reported := by
  unfold stopTaking
  dsimp only
  split
  · rw [reported_close, reported_withQueue]
  · exact reported_close w a _

theorem act_reports (htidy : w.affairs.Tidy) {x : Activity} (hx : w.activity? a = some x)
    (calledOff stop : Bool) : Reports w (w.act a x.role calledOff stop x.stage) := by
  have hrole : w.role? a = some x.role := by rw [role?, hx, Option.map_some]
  by_cases h : x.role.job? = none ∨ x.stage = .awaitingRecord
  · have move := act_idleMove hrole h calledOff stop
    generalize w.act a x.role calledOff stop x.stage = v at move ⊢
    cases move with
    | rest => exact .of_eq rfl
    | ends outcome => exact .of_eq (reported_endOwner w a outcome)
    | begins r => exact reports_beginRound w a r
    | gathers r => exact reports_gather htidy r
    | takes => exact .of_eq (reported_takeRecords w a)
    | stops woken => exact .of_eq (reported_stopTaking w a woken)
  · obtain ⟨hrun, hstage⟩ := not_or.mp h
    obtain ⟨j, hj⟩ := Option.ne_none_iff_exists'.mp hrun
    exact .of_eq (reported_of_pursuit (act_pursuit hrole hj calledOff stop hstage))

theorem move_reports (htidy : w.affairs.Tidy) (a : ActivityId) (calledOff : Bool) :
    Reports w (w.move a calledOff) := by
  unfold move
  split
  · exact .of_eq rfl
  · rename_i x hx
    have hsame : (w.onActivity a fun x => { x with stopping := false }).view = w.view :=
      view_onActivity_of_unseen _ _ fun _ => rfl
    have haffairs : (w.onActivity a fun x => { x with stopping := false }).affairs = w.affairs := by
      rw [affairs, hsame, affairs]
    have reports := act_reports (w := w.onActivity a fun x => { x with stopping := false })
      (a := a) (x := { x with stopping := false }) (by rw [haffairs]; exact htidy)
      (by simp only [activity?, onActivity] at hx ⊢; simp [hx]) calledOff (calledOff || x.stopping)
    refine reports.after rfl fun m result => ?_
    rintro ⟨spec, outcome, hphase⟩
    exact ⟨spec, outcome, by rw [← haffairs]; exact hphase⟩

theorem Step.reports (step : Step w w') (htidy : w.affairs.Tidy) : Reports w w' := by
  cases step with
  | happen before c after h =>
      cases c with
      | move a calledOff =>
          exact move_reports (w := { w with ready := before ++ after }) htidy a calledOff
      | note r => exact .of_eq (reported_note { w with ready := before ++ after } r)
  | clock | web | refusal | addSupplier | prepare | addJob | startRun => exact .of_eq rfl
  | startRound spec | startCollecting spec =>
      intro results hmem
      have happend : results ∈ w.reported ++ [[]] := by
        rw [reported] at hmem ⊢
        simpa [Intake.startRound, Intake.startCollecting, Intake.add, Intake.call, Round.new]
          using hmem
      rcases List.mem_append.mp happend with hold | hnew
      · exact .inl hold
      · right
        rw [List.mem_singleton.mp hnew]
        exact fun x hx => by cases hx
  | openGate source => exact .of_eq (reported_of_outline (outline_openGate w source))
  | cancel a => exact .of_eq (reported_cancel w a)
  | takeOne h => exact .of_eq (reported_of_outline (outline_takeOne h))

theorem Reaches.endedWith (reach : Reaches w w') (htidy : w.affairs.Tidy)
    (h : w.reported = []) : ∀ results ∈ w'.reported, ∀ x ∈ results, ∃ m, w'.EndedWith m x := by
  induction reach with
  | refl =>
      intro results hmem
      rw [h] at hmem
      cases hmem
  | tail before step ih =>
      intro results hmem x hx
      have htidy' := (Reaches.course before htidy).tidy htidy
      have hlater := ended_of_course (step.course htidy')
      rcases step.reports htidy' results hmem with hold | hnew
      · obtain ⟨m, hm⟩ := ih results hold x hx
        exact ⟨m, hlater m x hm⟩
      · obtain ⟨m, hm⟩ := hnew x hx
        exact ⟨m, hlater m x hm⟩

end

/-! ## Paths and flags -/

section

variable {now : DateTime} {queue : RecordQueue} {store : Snapshots}
  {web : List (String × Response)} {w : Intake}

/-- **The state of a run and the flags of its result are consistent.** At every moment the states
visited are a beginning of one of three paths and the last of them is the state. It is that of the
job as well, as long as no other run of the job has been under way since the run began. A run that
has ended took one path, and that path says what its flags are and what it raised; but for one whose
fetch raised a fault that is neither about feeds nor a request to stop. -/
theorem paths_and_flags (reach : Reaches (start now queue store web) w) {a : ActivityId}
    {spec : JobSpec} {r : RunResult} (hs : w.specOf? a = some spec)
    (hr : w.result? a = some r) :
    r.OnTheWay ∧
      (∀ j job, w.jobOf? a = some j → w.jobs[j]? = some job →
        Alone (start now queue store web) w a j → job.state = r.state) ∧
      ∀ outcome, w.outcome? a = some outcome →
        (∃ path, r.Took spec outcome path) ∨
          ∃ fault, outcome = .failed fault ∧ fault.isForeign = true ∧
            w.history.deedsOf a = [] ∧ r.LeftAsItStood := by
  refine ⟨reach.onTheWay hs hr, ?_, ?_⟩
  · intro j job hj hjob alone
    exact alone.state_eq (tidy_start now queue store web) hj hr hjob
  · intro outcome ho
    exact (reach.took hs hr ho).symm

/-- Two runs of one job over a queue with room for one record. The first waits to put its second
record, and the second run waits to put its first; then a record is taken, and the first run goes on
to its end. -/
def overlapping : Intake :=
  (takeSettling 1 (readTwice (.ofCapacity 1) (.ofSource "a") [.bare "x", .bare "y"])).2

theorem reaches_overlapping :
    Reaches (start Time.Instant.first.toDateTime (.ofCapacity 1) .unbounded []) overlapping :=
  (reaches_readTwice _ _ _).trans (takeSettling_reaches 1 _)

/-- The first of the overlapping runs came through. -/
theorem paths_and_flags_overlapping : ∃ r, overlapping.result? 0 = some r ∧
    overlapping.outcome? 0 = some .done ∧ ∃ path, r.Took (.ofSource "a") .done path := by
  have hconsistent := @paths_and_flags _ _ _ _ _ reaches_overlapping 0 (.ofSource "a") _ rfl rfl
  refine ⟨_, rfl, rfl, ?_⟩
  rcases hconsistent.2.2 .done rfl with htook | ⟨fault, houtcome, -⟩
  · exact htook
  · cases houtcome

/-- The second of them waits in the middle of its work when the job is done. -/
theorem job_done_before_run :
    Reaches (start Time.Instant.first.toDateTime (.ofCapacity 1) .unbounded []) overlapping ∧
      ∃ r job, overlapping.jobOf? 1 = some 0 ∧ overlapping.result? 1 = some r ∧
        overlapping.outcome? 1 = none ∧ overlapping.jobs[0]? = some job ∧
        r.state = .processing ∧ job.state = .done :=
  ⟨reaches_overlapping, _, _, rfl, rfl, rfl, rfl, rfl, rfl⟩

/-! ## Every end is accounted for, but one -/

/-- **A run that has ended has come to the end of its states and tells what failed**, and it raised
nothing but a cancellation or a failure of its work; unless its fetch raised a fault that is neither
about feeds nor a request to stop. Then it raised that fault and is left as it stood. Every result
that a round gives is a success, tells what failed or was left so. -/
theorem ends_accounted_for (reach : Reaches (start now queue store web) w) :
    (∀ a spec r outcome, w.specOf? a = some spec → w.result? a = some r →
      w.outcome? a = some outcome →
        (r.Accounted outcome ∧ ∀ j job, w.jobOf? a = some j → w.jobs[j]? = some job →
          Alone (start now queue store web) w a j → job.state = .done) ∨
        ∃ fault, outcome = .failed fault ∧ fault.isForeign = true ∧ w.history.deedsOf a = [] ∧
          r.LeftAsItStood) ∧
      ∀ results ∈ w.reported, ∀ r ∈ results,
        r.success = true ∨ r.TellsFailure ∨ r.LeftAsItStood := by
  constructor
  · intro a spec r outcome hs hr ho
    rcases reach.took hs hr ho with hforeign | ⟨path, htook⟩
    · exact .inr hforeign
    · refine .inl ⟨htook.accounted, fun j job hj hjob alone => ?_⟩
      rw [← htook.state]
      exact alone.state_eq (tidy_start now queue store web) hj hr hjob
  · intro results hmem r hr
    have htidy := tidy_start now queue store web
    obtain ⟨m, spec, outcome, hphase⟩ := reach.endedWith htidy rfl results hmem r hr
    have hexplained := reach.sound.explained m
    have hretries := reach.retries m
    rw [hphase] at hexplained hretries
    rcases hexplained.took hretries with ⟨_, _, _, _, hleft⟩ | ⟨path, htook⟩
    · exact .inr (.inr hleft)
    · exact htook.accounted.failure.imp id .inl

def hostFault : Intake :=
  let w := start Time.Instant.first.toDateTime (.ofCapacity 0) .unbounded []
  let w := (w.addSupplier (.prepared [("a", ⟨.error (.outside .runtime "boom"), false⟩)])).1
  (w.startRound ⟨["a"], Time.Instant.first.toDateTime, 1000, true, 0, 1⟩).1.settle

theorem reaches_hostFault :
    Reaches (start Time.Instant.first.toDateTime (.ofCapacity 0) .unbounded []) hostFault :=
  ((Relation.ReflTransGen.single (.addSupplier _ _)).tail (.startRound _ _)).trans
    (settle_reaches _)

/-- What the round reports is left as it stood: neither a success nor a failure. -/
theorem ends_accounted_for_hostFault : ∃ r, hostFault.reported = [[r]] ∧
    (r.success = true ∨ r.TellsFailure ∨ r.LeftAsItStood) :=
  ⟨_, rfl, (ends_accounted_for reaches_hostFault).2 _ (.head _) _ (.head _)⟩

theorem host_fault_not_told :
    Reaches (start Time.Instant.first.toDateTime (.ofCapacity 0) .unbounded []) hostFault ∧
      hostFault.outcome? 1 = some (.failed (.outside .runtime "boom")) ∧
      ∃ r, hostFault.reported = [[r]] ∧ r.success = false ∧ r.failed = false ∧
        r.error = none ∧ r.state = .fetching ∧ r.finished = none :=
  ⟨reaches_hostFault, rfl, _, rfl, rfl, rfl, rfl, rfl, rfl⟩

end

end Intake

end FeedIntake
