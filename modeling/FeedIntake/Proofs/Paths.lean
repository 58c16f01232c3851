import FeedIntake.Proofs.Account

/-! # Paths

A run goes through its states on one of three paths, and a run that goes on has come some way along
one of them. Which path it took to the end settles what its result says: whether it succeeded, what
it committed, whether there is an error and whether another try is worth while. One kind of end is
on no path: where a fetch raises a fault that is not about feeds, the run is left as it stood.
-/

namespace FeedIntake

open Affairs
open Time (DateTime)

/-- The paths that a run can take through its states. -/
inductive RunPath where
  /-- The fetch failed or was cancelled. -/
  | refused
  /-- The work on the entries failed or was cancelled. -/
  | broken
  | through
  deriving DecidableEq

def RunPath.states : RunPath → List RunState
  | refused => [.fetching, .failed, .done]
  | broken => [.fetching, .processing, .failed, .done]
  | through => [.fetching, .processing, .committing, .done]

theorem RunPath.states_injective : Function.Injective RunPath.states := by
  intro p q h
  cases p <;> cases q <;> first | rfl | cases h

/-- A fault that a run neither reports as a failed fetch nor takes for a request to stop. -/
def Fault.isForeign (fault : Fault) : Bool :=
  match fault with
  | .failure f => !f.kind.isFeed
  | .outside _ _ => !fault.isCancellation

theorem Fault.isForeign_of {fault : Fault} (hc : fault.isCancellation = false)
    (hf : ∀ f, fault = .failure f → f.kind.isFeed = false) : fault.isForeign = true := by
  cases fault with
  | failure f => simp [isForeign, hf f rfl]
  | outside kind text => simpa [isForeign] using hc

def RunOutcome.isIngestion : RunOutcome → Bool
  | .failed (.failure f) => f.kind = .ingestion
  | _ => false

def RunOutcome.isCancelled : RunOutcome → Bool
  | .cancelled => true
  | _ => false

namespace RunResult

/-- How far a run has come: its state is the last one it visited. -/
structure OnTheWay (r : RunResult) : Prop where
  path : ∃ path : RunPath, r.states <+: path.states
  state : r.states.getLast? = some r.state

/-- What the result of a run says that took a path to its end and left with an outcome. -/
structure Took (r : RunResult) (spec : JobSpec) (outcome : RunOutcome) (path : RunPath) : Prop where
  states : r.states = path.states
  state : r.state = .done
  finished : r.finished.isSome = true
  success : r.success = true ↔ path = .through
  committed : r.committed = true ↔ r.success = true ∧ spec.perpetual = true
  failed : r.failed = true ↔ r.error.isSome = true
  cancelled : r.cancelled = true ↔ outcome.isCancelled = true
  failed_of_cancelled : r.cancelled = true → r.failed = true
  /-- What was refused and not cancelled tells the failure of its fetch. -/
  refused : path = .refused → r.cancelled = false → ∃ f : Failure, f.kind.isFeed = true ∧
    r.error = some f.message ∧ r.retryable = f.isRetryable
  told : r.error = some "" → path = .refused ∧ r.cancelled = false
  retryable : r.retryable = true → path = .refused ∧ r.published = 0 ∧ r.fetched = 0 ∧
    r.seen = [] ∧ r.cancelled = false
  /-- A failure of the work on entries is the only one ever raised. -/
  raised : ∀ fault, outcome = .failed fault → outcome.isIngestion = true
  ingestion : outcome.isIngestion = true ↔ path = .broken ∧ r.cancelled = false

/-- What the result of a run says whose fetch raised a fault that is not about feeds. -/
structure LeftAsItStood (r : RunResult) : Prop where
  states : r.states = [.fetching]
  state : r.state = .fetching
  finished : r.finished = none
  error : r.error = none
  flags : r.committed = false ∧ r.cancelled = false ∧ r.retryable = false
  figures : r.fetched = 0 ∧ r.published = 0 ∧ r.seen = []

/-- The result tells that the run failed, and why. The text is empty only where a failure of the
fetch had none. -/
def TellsFailure (r : RunResult) : Prop :=
  r.failed = true ∧ ∃ text, r.error = some text ∧
    (text = "" → r.states = RunPath.refused.states ∧ r.cancelled = false)

/-- A run has come to the end of its states, and has told what failed. -/
structure Accounted (r : RunResult) (outcome : RunOutcome) : Prop where
  state : r.state = .done
  last : r.states.getLast? = some .done
  finished : r.finished.isSome = true
  raised : ∀ fault, outcome = .failed fault → outcome.isIngestion = true
  failure : r.success = true ∨ r.TellsFailure

theorem Took.failed_iff {r : RunResult} {spec : JobSpec} {outcome : RunOutcome} {path : RunPath}
    (h : r.Took spec outcome path) : r.failed = true ↔ path ≠ .through := by
  rw [RunResult.failed, h.states]
  cases path <;> decide

theorem Took.onTheWay {r : RunResult} {spec : JobSpec} {outcome : RunOutcome} {path : RunPath}
    (h : r.Took spec outcome path) : r.OnTheWay where
  path := ⟨path, h.states ▸ List.prefix_rfl⟩
  state := by
    rw [h.states, h.state]
    cases path <;> rfl

theorem Took.accounted {r : RunResult} {spec : JobSpec} {outcome : RunOutcome} {path : RunPath}
    (h : r.Took spec outcome path) : r.Accounted outcome where
  state := h.state
  last := by
    rw [h.states]
    cases path <;> rfl
  finished := h.finished
  raised := h.raised
  failure := by
    by_cases hpath : path = .through
    · exact .inl (h.success.mpr hpath)
    · have hfailed := h.failed_iff.mpr hpath
      obtain ⟨text, herror⟩ := Option.isSome_iff_exists.mp (h.failed.mp hfailed)
      refine .inr ⟨hfailed, text, herror, ?_⟩
      rintro rfl
      obtain ⟨rfl, hcancelled⟩ := h.told herror
      exact ⟨h.states, hcancelled⟩

theorem LeftAsItStood.onTheWay {r : RunResult} (h : r.LeftAsItStood) : r.OnTheWay where
  path := ⟨.refused, by rw [h.states]; decide⟩
  state := by rw [h.states, h.state]; rfl

theorem LeftAsItStood.begun (spec : JobSpec) (now : DateTime) : (spec.begun now).LeftAsItStood :=
  ⟨rfl, rfl, rfl, rfl, ⟨rfl, rfl, rfl⟩, ⟨rfl, rfl, rfl⟩⟩

end RunResult

theorem Tally.onTheWay {r : RunResult} {n : Nat} {trail : Trail} {met : List Record}
    (h : Tally r n trail met) : r.OnTheWay where
  path := ⟨.through, by rw [h.states]; decide⟩
  state := by rw [h.states, h.state]; rfl

namespace Phase

/-! ## Another try -/

/-- Another try is said to be worth while only where the fetch was refused. -/
def Retries : Phase → Prop
  | asking spec r => ∃ now, r = spec.begun now
  | working _ r _ | offering _ r _ _ => r.retryable = false
  | ended spec r _ => r.retryable = true → ∃ begun f now, r = (spec.begun begun).refuse f now
  | _ => True

theorem Stop.retries {p : Phase} {spec : JobSpec} {r : RunResult} {outcome : RunOutcome}
    (stop : Stop spec p r outcome) (h : p.Retries) : (ended spec r outcome).Retries := by
  cases stop with
  | noFeed f hf now =>
      obtain ⟨begun, rfl⟩ := h
      exact fun _ => ⟨begun, f, now, rfl⟩
  | foreign fault hc hf =>
      obtain ⟨begun, rfl⟩ := h
      exact fun hr => by cases hr
  | cancelledAsking now =>
      obtain ⟨begun, rfl⟩ := h
      exact fun hr => by cases hr
  | unreadable fault he now => exact fun hr => absurd (h.symm.trans hr) (by decide)
  | putFailed fault hc now => exact fun hr => absurd (h.symm.trans hr) (by decide)
  | cancelledOffering now => exact fun hr => absurd (h.symm.trans hr) (by decide)

/-- What is worth another try has been refused, and has fetched nothing. -/
theorem Retries.of_ended {spec : JobSpec} {r : RunResult} {outcome : RunOutcome}
    (h : (ended spec r outcome).Retries) (hr : r.retryable = true) :
    r.states = RunPath.refused.states ∧ r.published = 0 ∧ r.fetched = 0 ∧ r.seen = [] ∧
      r.cancelled = false := by
  obtain ⟨begun, f, now, rfl⟩ := h hr
  exact ⟨rfl, rfl, rfl, rfl, rfl⟩

end Phase

theorem RunResult.retryable_examine (r : RunResult) (record : Record) (verdict : Verdict) :
    (r.examine record verdict).retryable = r.retryable := by
  rw [RunResult.examine_eq]

namespace Affairs

theorem Turn.retries {a : ActivityId} {spec : JobSpec} {s t : Affairs} (turn : Turn a spec s t)
    (h : (s.phase a).Retries) : (t.phase a).Retries := by
  cases turn with
  | begin now hp =>
      rw [set_phase_self]
      exact ⟨now, rfl⟩
  | fetch entries hp =>
      rw [hp] at h
      obtain ⟨begun, rfl⟩ := h
      rw [set_phase_self]
      rfl
  | reject hp he hv | offer hp he hv =>
      rw [hp] at h
      rw [set_phase_self]
      exact (RunResult.retryable_examine _ _ _).trans h
  | put hp =>
      rw [hp] at h
      rw [set_phase_self]
      exact h
  | conclude now hp =>
      rw [hp] at h
      rw [set_phase_self]
      exact fun hr => absurd (h.symm.trans hr) (by decide)
  | stop stop =>
      rw [set_phase_self]
      exact stop.retries h

theorem Course.retries {s t : Affairs} (course : Course s t) (h : ∀ a, (s.phase a).Retries) :
    ∀ a, (t.phase a).Retries := by
  induction course with
  | refl => exact h
  | tail _ step ih =>
      intro b
      rcases step with ⟨a, spec, turn⟩ | take
      · by_cases hb : b = a
        · subst hb
          exact turn.retries (ih b)
        · rw [turn.phase_of_ne hb]
          exact ih b
      · rw [take.phase]
        exact ih b

end Affairs

/-! ## What path a run took -/

theorem JobSpec.processingError_ne_empty (fault : Fault) : JobSpec.processingError fault ≠ "" := by
  intro h
  have hlength := congrArg String.length h
  simp only [JobSpec.processingError, String.length_append] at hlength
  have hcolon : ": ".length = 2 := rfl
  have hempty : "".length = 0 := rfl
  omega

@[simp] theorem JobSpec.isIngestion_processingFailure (spec : JobSpec) (fault : Fault) :
    (RunOutcome.failed (.failure (spec.processingFailure fault))).isIngestion = true := by
  unfold RunOutcome.isIngestion JobSpec.processingFailure Failure.causedBy Failure.about
  dsimp only
  split
  · split <;> rfl
  · rfl

namespace RunResult

theorem Took.of_fail {r : RunResult} {spec : JobSpec} {outcome : RunOutcome} {path : RunPath}
    {error : String} {now : DateTime} (hpath : path ≠ .through)
    (hstates : r.states ++ [.failed, .done] = path.states) (hcommitted : r.committed = false)
    (hcancelled : r.cancelled = outcome.isCancelled)
    (hraised : ∀ fault, outcome = .failed fault → outcome.isIngestion = true)
    (hingestion : outcome.isIngestion = true ↔ path = .broken ∧ r.cancelled = false)
    (hrefused : path = .refused → r.cancelled = false → ∃ f : Failure, f.kind.isFeed = true ∧
      error = f.message ∧ r.retryable = f.isRetryable)
    (htold : error = "" → path = .refused ∧ r.cancelled = false)
    (hretries : (Phase.ended spec (r.fail error now) outcome).Retries) :
    (r.fail error now).Took spec outcome path := by
  have hstates : (r.fail error now).states = path.states := by
    rw [← hstates]
    exact List.append_assoc _ _ _
  have hfailed : (r.fail error now).failed = true := by
    simp [RunResult.failed, fail, finish, enter]
  exact {
    states := hstates
    state := rfl
    finished := rfl
    success := by simp [hpath]
    committed := by
      rw [success_fail]
      simp [fail, finish, enter, hcommitted]
    failed := by
      rw [hfailed]
      exact ⟨fun _ => rfl, fun _ => rfl⟩
    cancelled := by
      rw [← hcancelled]
      rfl
    failed_of_cancelled := fun _ => hfailed
    refused := by
      intro hpath hnot
      obtain ⟨f, hf, herror, hretryable⟩ := hrefused hpath hnot
      exact ⟨f, hf, congrArg some herror, hretryable⟩
    told := fun h => htold (Option.some.inj h)
    retryable := by
      intro hr
      obtain ⟨hrefused, hfigures⟩ := hretries.of_ended hr
      exact ⟨RunPath.states_injective (hstates.symm.trans hrefused), hfigures⟩
    raised := hraised
    ingestion := hingestion }

end RunResult

namespace Phase

variable {p : Phase} {spec : JobSpec} {r : RunResult} {outcome : RunOutcome} {deeds : List Deed}

theorem took_broken {n : Nat} {trail : Trail} {met : List Record} (tally : Tally r n trail met)
    (fault : Fault) (now : DateTime)
    (hretries : (ended spec (r.fail (JobSpec.processingError fault) now)
      (.failed (.failure (spec.processingFailure fault)))).Retries) :
    (r.fail (JobSpec.processingError fault) now).Took spec
      (.failed (.failure (spec.processingFailure fault))) .broken := by
  refine .of_fail (by decide) ?_ tally.committed tally.cancelled ?_ ?_ ?_ ?_ hretries
  · rw [tally.states]
    rfl
  · simp
  · simp [tally.cancelled]
  · exact fun h => by cases h
  · exact fun h => absurd h (JobSpec.processingError_ne_empty fault)

/-- A run that stopped took one of the first two paths, unless its fetch raised a foreign fault. -/
theorem Stop.took (stop : Stop spec p r outcome) (hp : p.Explained deeds)
    (hretries : (ended spec r outcome).Retries) :
    (∃ fault, outcome = .failed fault ∧ fault.isForeign = true ∧ deeds = [] ∧
      r.LeftAsItStood) ∨ ∃ path, r.Took spec outcome path := by
  cases stop with
  | noFeed f hf now =>
      cases hp with
      | asking _ begun =>
          refine .inr ⟨.refused, .of_fail (by decide) rfl rfl rfl ?_ ?_ ?_ ?_ hretries⟩
          · exact fun _ h => by cases h
          · simp [RunOutcome.isIngestion]
          · exact fun _ _ => ⟨f, hf, rfl, rfl⟩
          · exact fun _ => ⟨rfl, rfl⟩
  | foreign fault hc hf =>
      cases hp with
      | asking _ begun =>
          exact .inl ⟨fault, rfl, Fault.isForeign_of hc hf, rfl, .begun spec begun⟩
  | cancelledAsking now =>
      cases hp with
      | asking _ begun =>
          refine .inr ⟨.refused, .of_fail (by decide) rfl rfl rfl ?_ ?_ ?_ ?_ hretries⟩
          · exact fun _ h => by cases h
          · simp [RunOutcome.isIngestion]
          · exact fun _ h => by cases h
          · exact fun h => absurd h (by decide)
  | unreadable fault he now =>
      cases hp with
      | working progress => exact .inr ⟨.broken, took_broken progress.tally fault now hretries⟩
  | putFailed fault hc now =>
      cases hp with
      | offering progress he =>
          exact .inr ⟨.broken, took_broken (progress.tally.offer _) fault now hretries⟩
  | cancelledOffering now =>
      cases hp with
      | offering progress he =>
          rename_i record _ _ _ _ _
          have tally := progress.tally.offer record
          refine .inr ⟨.broken, .of_fail (by decide) ?_ tally.committed rfl ?_ ?_ ?_ ?_
            hretries⟩
          · show RunResult.states _ ++ _ = _
            rw [tally.states]
            rfl
          · exact fun _ h => by cases h
          · simp [RunOutcome.isIngestion]
          · exact fun h => by cases h
          · exact fun h => absurd h (by decide)

theorem took_through {entries : List Entry} {trail : Trail}
    (progress : Progress spec r entries [] trail) (now : DateTime)
    (hretries : (ended spec (r.conclude spec.perpetual now) .done).Retries) :
    (r.conclude spec.perpetual now).Took spec .done .through := by
  have hsuccess := progress.tally.success_conclude spec.perpetual now
  have hcancelled : (r.conclude spec.perpetual now).cancelled = false := progress.tally.cancelled
  have herror : (r.conclude spec.perpetual now).error = none := progress.tally.error
  have hstates : (r.conclude spec.perpetual now).states = RunPath.through.states := by
    show r.states ++ [.committing] ++ [.done] = _
    rw [progress.tally.states]
    rfl
  exact {
    states := hstates
    state := rfl
    finished := rfl
    success := by simp [hsuccess]
    committed := by
      rw [hsuccess]
      simp [RunResult.conclude, RunResult.finish, RunResult.enter]
    failed := by
      rw [herror, RunResult.failed, hstates]
      decide
    cancelled := by rw [hcancelled]; rfl
    failed_of_cancelled := by simp [hcancelled]
    refused := fun h => by cases h
    told := fun h => by simp [herror] at h
    retryable := by
      intro hr
      obtain ⟨hrefused, -⟩ := hretries.of_ended hr
      exact absurd (hstates.symm.trans hrefused) (by decide)
    raised := fun _ h => by cases h
    ingestion := by simp [RunOutcome.isIngestion] }

/-- Every run that has ended took a path to its end, or its fetch raised a foreign fault. -/
theorem Explained.took (h : Explained (.ended spec r outcome) deeds)
    (hretries : (ended spec r outcome).Retries) :
    (∃ fault, outcome = .failed fault ∧ fault.isForeign = true ∧ deeds = [] ∧
      r.LeftAsItStood) ∨ ∃ path, r.Took spec outcome path := by
  cases h with
  | through progress now => exact .inr ⟨.through, took_through progress now hretries⟩
  | stopped hp stop => exact stop.took hp hretries

theorem Explained.onTheWay (h : p.Explained deeds) (hretries : p.Retries)
    (hr : p.result? = some r) : r.OnTheWay := by
  cases hp : p with
  | idle | astray => rw [hp] at hr; cases hr
  | asking spec r' =>
      rw [hp] at h hr
      cases hr
      cases h
      exact (RunResult.LeftAsItStood.begun _ _).onTheWay
  | working spec r' rest =>
      rw [hp] at h hr
      cases hr
      cases h with
      | working progress => exact progress.tally.onTheWay
  | offering spec r' record rest =>
      rw [hp] at h hr
      cases hr
      cases h with
      | offering progress he => exact (progress.tally.offer record).onTheWay
  | ended spec r' outcome =>
      rw [hp] at h hr hretries
      cases hr
      rcases h.took hretries with ⟨_, _, _, _, left⟩ | ⟨_, took⟩
      · exact left.onTheWay
      · exact took.onTheWay

end Phase

namespace Intake

variable {now : DateTime} {queue : RecordQueue} {store : Snapshots}
  {web : List (String × Response)} {w : Intake} {a : ActivityId} {spec : JobSpec} {r : RunResult}

theorem Reaches.retries (reach : Reaches (start now queue store web) w) (a : ActivityId) :
    (w.affairs.phase a).Retries :=
  reach.course_of_start.retries (fun _ => trivial) a

theorem Reaches.onTheWay (reach : Reaches (start now queue store web) w)
    (hs : w.specOf? a = some spec) (hr : w.result? a = some r) : r.OnTheWay :=
  (reach.sound.explained a).onTheWay (reach.retries a) (reach.stands hs hr).2

theorem Reaches.took (reach : Reaches (start now queue store web) w)
    (hs : w.specOf? a = some spec) (hr : w.result? a = some r) {outcome : RunOutcome}
    (ho : w.outcome? a = some outcome) :
    (∃ fault, outcome = .failed fault ∧ fault.isForeign = true ∧ w.history.deedsOf a = [] ∧
      r.LeftAsItStood) ∨ ∃ path, r.Took spec outcome path := by
  have hphase : w.affairs.phase a = .ended spec r outcome := phase_of_outcome? w a hs hr ho
  have hexplained := reach.sound.explained a
  have hretries := reach.retries a
  rw [hphase] at hexplained hretries
  exact hexplained.took hretries

end Intake

end FeedIntake
