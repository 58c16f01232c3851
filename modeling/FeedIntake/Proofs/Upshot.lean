import FeedIntake.Proofs.BoundedQueue
import FeedIntake.Proofs.WholeSnapshots

/-! # What comes of a run

What a run leaves behind, times aside, can be said before it begins, from its job, from the answer
to its fetch and from the snapshot of its source. It can be said all the while that the run goes on,
and stays the same: the turns of the run do what was expected of them, and those of others do not
matter as long as they are about other sources.
-/

namespace FeedIntake

open Affairs

/-! ## Times aside -/

namespace RunResult

def timeless (r : RunResult) : RunResult :=
  { r with started := Time.Instant.first.toDateTime, finished := none }

theorem timeless_examine (r : RunResult) (record : Record) (verdict : Verdict) :
    (r.examine record verdict).timeless = r.timeless.examine record verdict := by
  have hseen : (r.timeless.meet record.identity).seen = (r.meet record.identity).seen := by
    unfold meet
    rw [show r.timeless.seen = r.seen from rfl]
    split <;> rfl
  rw [examine_eq, examine_eq, hseen]
  rfl

theorem timeless_upon (r : RunResult) (fault : Fault) (now now' : Time.DateTime) :
    (r.timeless.upon fault now).1.timeless = (r.upon fault now').1.timeless ∧
      (r.timeless.upon fault now).2 = (r.upon fault now').2 := by
  unfold upon
  cases fault with
  | failure f =>
      dsimp only
      split <;> exact ⟨rfl, rfl⟩
  | outside kind message =>
      dsimp only
      split <;> exact ⟨rfl, rfl⟩

end RunResult

structure Upshot where
  /-- Its result, times aside. -/
  result : RunResult
  outcome : RunOutcome
  puts : List Record
  /-- The snapshot that the store then holds for its source. -/
  snapshot : Option Snapshot

def Upshot.after (u : Upshot) (records : List Record) : Upshot :=
  { u with puts := records ++ u.puts }

theorem Upshot.after_after (u : Upshot) (records more : List Record) :
    (u.after more).after records = u.after (records ++ more) := by
  simp [after]

namespace JobSpec

open Time (Instant)

def upshotOfEntries (spec : JobSpec) (store : Snapshots) (r : RunResult) : List Entry → Upshot
  | [] => {
      result := (r.conclude spec.perpetual Instant.first.toDateTime).timeless
      outcome := .done
      puts := []
      snapshot :=
        if spec.perpetual then some (Snapshots.setOf r.seen) else store.snapshot? spec.source }
  | e :: rest =>
      match e.toRecord spec.source with
      | .error fault => {
          result := (r.fail (processingError fault) Instant.first.toDateTime).timeless
          outcome := .failed (.failure (spec.processingFailure fault))
          puts := []
          snapshot := store.snapshot? spec.source }
      | .ok record =>
          let verdict := spec.judge store record
          let r := r.examine record verdict
          if verdict ≠ .admitted then spec.upshotOfEntries store r rest
          else (spec.upshotOfEntries store r.publish rest).after [record]

def upshot (spec : JobSpec) (store : Snapshots) (r : RunResult) :
    Except Fault (List Entry) → Upshot
  | .ok entries => spec.upshotOfEntries store (r.takeUp entries.length) entries
  | .error fault => {
      result := (r.upon fault Instant.first.toDateTime).1.timeless
      outcome := (r.upon fault Instant.first.toDateTime).2
      puts := []
      snapshot := store.snapshot? spec.source }

def prospect (spec : JobSpec) (store : Snapshots) (answer : Except Fault (List Entry)) : Upshot :=
  spec.upshot store (spec.begun Instant.first.toDateTime).timeless answer

variable {spec : JobSpec} {store store' : Snapshots}

theorem upshotOfEntries_congr (h : store'.snapshot? spec.source = store.snapshot? spec.source)
    (r : RunResult) (entries : List Entry) :
    spec.upshotOfEntries store' r entries = spec.upshotOfEntries store r entries := by
  induction entries generalizing r with
  | nil =>
      unfold upshotOfEntries
      rw [h]
  | cons e rest ih =>
      unfold upshotOfEntries
      cases e.toRecord spec.source with
      | error fault =>
          dsimp only
          rw [h]
      | ok record =>
          dsimp only
          rw [judge_congr h, ih, ih]

theorem upshot_congr (h : store'.snapshot? spec.source = store.snapshot? spec.source)
    (r : RunResult) (answer : Except Fault (List Entry)) :
    spec.upshot store' r answer = spec.upshot store r answer := by
  cases answer with
  | ok entries => exact upshotOfEntries_congr h _ entries
  | error fault =>
      unfold upshot
      rw [h]

end JobSpec

/-! ## What is to be expected -/

def Phase.upshot (spec : JobSpec) (answer : Except Fault (List Entry)) (store : Snapshots) :
    Phase → Upshot
  | idle | astray => spec.prospect store answer
  | asking _ r => spec.upshot store r.timeless answer
  | working _ r rest => spec.upshotOfEntries store r.timeless rest
  | offering _ r record rest => (spec.upshotOfEntries store r.publish.timeless rest).after [record]
  | ended _ r outcome => ⟨r.timeless, outcome, [], store.snapshot? spec.source⟩

theorem Phase.upshot_congr {spec : JobSpec} {store store' : Snapshots}
    (h : store'.snapshot? spec.source = store.snapshot? spec.source)
    (answer : Except Fault (List Entry)) (p : Phase) :
    p.upshot spec answer store' = p.upshot spec answer store := by
  cases p with
  | idle | astray | asking => exact JobSpec.upshot_congr h _ answer
  | working => exact JobSpec.upshotOfEntries_congr h _ _
  | offering => exact congrArg (Upshot.after · _) (JobSpec.upshotOfEntries_congr h _ _)
  | ended =>
      unfold upshot
      rw [h]

theorem Phase.upshot_of_failed {spec : JobSpec} {answer : Except Fault (List Entry)}
    {r r' : RunResult} {outcome : RunOutcome}
    (foreseen : Foreseen (some answer) False (.asking spec r) (.ended spec r' outcome))
    (store : Snapshots) : (ended spec r' outcome).upshot spec answer store =
      (asking spec r).upshot spec answer store := by
  rcases foreseen.of_asking with ⟨entries, -, hq⟩ | ⟨fault, now, hanswer, hq⟩
  · cases hq
  · obtain ⟨-, rfl, rfl⟩ := Phase.ended.inj hq
    cases hanswer
    obtain ⟨hresult, houtcome⟩ := r.timeless_upon fault Time.Instant.first.toDateTime now
    show Upshot.mk _ _ _ _ = Upshot.mk _ _ _ _
    rw [hresult, houtcome]

namespace Affairs

def upshot (s : Affairs) (a : ActivityId) (spec : JobSpec) (answer : Except Fault (List Entry)) :
    Upshot :=
  ((s.phase a).upshot spec answer s.store).after (s.history.recordsPutBy a)

section

variable {s t : Affairs} {a : ActivityId} {spec : JobSpec} {answer : Except Fault (List Entry)}

theorem upshot_congr (hphase : t.phase a = s.phase a)
    (hdeeds : t.history.deedsOf a = s.history.deedsOf a)
    (hsnapshot : t.store.snapshot? spec.source = s.store.snapshot? spec.source) :
    t.upshot a spec answer = s.upshot a spec answer := by
  rw [upshot, upshot, hphase, Phase.upshot_congr hsnapshot, History.recordsPutBy, hdeeds]
  rfl

theorem upshot_of_deed {p q : Phase} {deed : Deed} (hp : s.phase a = p)
    (hput : deed.recordPut? = none)
    (hsame : q.upshot spec answer t.store = p.upshot spec answer s.store)
    (hhistory : t.history = .did a spec deed :: s.history) (hq : t.phase a = q) :
    t.upshot a spec answer = s.upshot a spec answer := by
  have hputs : t.history.recordsPutBy a = s.history.recordsPutBy a := by
    rw [hhistory, History.recordsPutBy, History.deedsOf_did_self, List.filterMap_append]
    simp [hput, History.recordsPutBy]
  rw [upshot, upshot, hp, hq, hsame, hputs]

/-- A turn that could be foreseen does what was expected. -/
theorem Turn.upshot (turn : Turn a spec s t)
    (foreseen : (s.phase a).Foreseen (some answer) False (t.phase a)) :
    t.upshot a spec answer = s.upshot a spec answer := by
  cases turn with
  | begin now hp =>
      rw [Affairs.upshot, Affairs.upshot, hp, set_phase_self]
      rfl
  | fetch entries hp =>
      rw [hp, set_phase_self] at foreseen
      rcases foreseen.of_asking with ⟨fetched, hanswer, hq⟩ | ⟨fault, now, -, hq⟩
      · obtain ⟨-, -, rfl⟩ := Phase.working.inj hq
        cases hanswer
        refine upshot_of_deed hp rfl ?_ rfl (set_phase_self _ _ _)
        rfl
      · cases hq
  | reject hp he hv =>
      refine upshot_of_deed hp rfl ?_ rfl (set_phase_self _ _ _)
      simp only [Phase.upshot, JobSpec.upshotOfEntries, he, RunResult.timeless_examine]
      rw [if_pos hv]
      rfl
  | offer hp he hv =>
      refine upshot_of_deed hp rfl ?_ rfl (set_phase_self _ _ _)
      simp only [Phase.upshot, JobSpec.upshotOfEntries, he, hv]
      rw [if_neg (by simp), ← RunResult.timeless_examine]
      rfl
  | put hp =>
      rw [Affairs.upshot, Affairs.upshot, hp, set_phase_self, Phase.upshot, Phase.upshot,
        Upshot.after_after]
      congr 1
      rw [set_history, tell, History.recordsPutBy, History.deedsOf_did_self,
        List.filterMap_append]
      rfl
  | conclude now hp =>
      cases hperp : spec.perpetual with
      | false =>
          rw [Affairs.upshot, Affairs.upshot, hp, set_phase_self, commit, hperp]
          simp only [Phase.upshot, JobSpec.upshotOfEntries, hperp]
          rfl
      | true =>
          rename_i r
          have hput : (Deed.committed r.seen).recordPut? = none := rfl
          refine upshot_of_deed hp hput ?_ ?_ (set_phase_self _ _ _)
          · simp only [Phase.upshot, JobSpec.upshotOfEntries, hperp, commit, set_store, if_true]
            show Upshot.mk _ _ _ ((s.store.commit spec.source r.seen).snapshot? spec.source) = _
            rw [Snapshots.snapshot?_commit_self]
            rfl
          · simp only [commit, hperp, if_true]
            rfl
  | stop stop =>
      rw [set_phase_self] at foreseen
      rw [Affairs.upshot, Affairs.upshot, set_phase_self]
      refine congrArg (Upshot.after · _) ?_
      generalize s.phase a = p at stop foreseen
      cases stop with
      | noFeed | foreign | cancelledAsking => exact Phase.upshot_of_failed foreseen s.store
      | unreadable fault he now =>
          simp only [Phase.upshot, JobSpec.upshotOfEntries, he]
          rfl
      | putFailed fault hc now => cases foreseen with
        | disturbed _ h => exact h.elim
      | cancelledOffering now => cases foreseen with
        | disturbed _ h => exact h.elim

/-- A run fetches where it was asking and takes up what it fetched. -/
theorem Turn.fetched (turn : Turn a spec s t) {entries : List Entry}
    (hfetched : Deed.fetched entries ∈ t.history.deedsOf a) :
    Deed.fetched entries ∈ s.history.deedsOf a ∨
      ∃ r r', s.phase a = .asking spec r ∧ t.phase a = .working spec r' entries := by
  cases turn with
  | begin | stop => exact .inl hfetched
  | fetch taken hp =>
      rw [set_history, tell, History.deedsOf_did_self] at hfetched
      rcases List.mem_append.mp hfetched with hold | hnew
      · exact .inl hold
      · cases List.mem_singleton.mp hnew
        exact .inr ⟨_, _, hp, set_phase_self _ _ _⟩
  | reject | offer | put =>
      rw [set_history, tell, History.deedsOf_did_self] at hfetched
      rcases List.mem_append.mp hfetched with hold | hnew
      · exact .inl hold
      · cases List.mem_singleton.mp hnew
  | conclude now hp =>
      rw [set_history, commit] at hfetched
      split at hfetched
      · rw [tell, History.deedsOf_did_self] at hfetched
        rcases List.mem_append.mp hfetched with hold | hnew
        · exact .inl hold
        · cases List.mem_singleton.mp hnew
      · exact .inl hfetched

end

end Affairs

/-! ## Plans -/

/-- Who runs which job, and what comes of the fetch. -/
structure Plan where
  spec? : ActivityId → Option JobSpec
  answer? : ActivityId → Option (Except Fault (List Entry))

namespace Plan

/-- Runs take foreseen turns of their jobs, with records taken in between. -/
def Course (plan : Plan) : Affairs → Affairs → Prop :=
  Relation.ReflTransGen fun s t => (∃ a spec, plan.spec? a = some spec ∧
    Turn a spec s t ∧ (s.phase a).Foreseen (plan.answer? a) False (t.phase a)) ∨ Take s t

/-- A plan says all that another one says. -/
structure Extends (plan earlier : Plan) : Prop where
  spec : ∀ {a spec}, earlier.spec? a = some spec → plan.spec? a = some spec
  answer : ∀ {a answer}, earlier.answer? a = some answer → plan.answer? a = some answer

end Plan

theorem Phase.Foreseen.mono {answer answer' : Option (Except Fault (List Entry))} {trouble : Prop}
    {p q : Phase} (h : Foreseen answer trouble p q)
    (hle : ∀ x, answer = some x → answer' = some x) : Foreseen answer' trouble p q := by
  cases h with
  | begins => exact .begins _
  | fetches entries h => exact .fetches entries (hle _ h)
  | fails fault h now => exact .fails fault (hle _ h) now
  | works => exact .works _
  | puts => exact .puts
  | disturbed _ h => exact .disturbed _ h

namespace Plan

variable {plan earlier : Plan} {s t u : Affairs} {a : ActivityId}

theorem Extends.refl (plan : Plan) : plan.Extends plan := ⟨id, id⟩

theorem Extends.trans {between : Plan} (h : plan.Extends between) (h' : between.Extends earlier) :
    plan.Extends earlier := ⟨fun ha => h.spec (h'.spec ha), fun ha => h.answer (h'.answer ha)⟩

namespace Course

theorem mono (course : earlier.Course s t) (h : plan.Extends earlier) : plan.Course s t := by
  refine course.lift id fun _ _ step => ?_
  exact step.imp_left fun ⟨a, spec, hs, turn, foreseen⟩ =>
    ⟨a, spec, h.spec hs, turn, foreseen.mono fun _ => h.answer⟩

theorem of_turns {spec : JobSpec} (hs : plan.spec? a = some spec)
    (turns : ForeseenTurns (plan.answer? a) False a spec s t) : plan.Course s t :=
  turns.lift id fun _ _ step => .inl ⟨a, spec, hs, step.1, step.2⟩

theorem course (course : plan.Course s t) : Affairs.Course s t := by
  refine course.lift id fun _ _ step => ?_
  exact step.imp_left fun ⟨a, spec, _, turn, _⟩ => ⟨a, spec, turn⟩

theorem of_takes (takes : Takes s t) : plan.Course s t := takes.lift id fun _ _ take => .inr take

/-- What comes of a run is what was to be expected, if all others are about other sources. -/
theorem upshot {spec : JobSpec} {answer : Except Fault (List Entry)} (course : plan.Course s t)
    (hanswer : plan.answer? a = some answer) (hspec : plan.spec? a = some spec)
    (apart : ∀ b other, b ≠ a → plan.spec? b = some other → other.source ≠ spec.source)
    (hcap : s.store.capacity = none) : t.upshot a spec answer = s.upshot a spec answer := by
  suffices h : t.store.capacity = none ∧ t.upshot a spec answer = s.upshot a spec answer from h.2
  induction course with
  | refl => exact ⟨hcap, rfl⟩
  | tail _ step ih =>
      obtain ⟨hcap', hsame⟩ := ih
      rw [← hsame]
      rcases step with ⟨b, other, hs, turn, foreseen⟩ | take
      · by_cases hb : b = a
        · subst hb
          rw [hspec] at hs
          cases hs
          rw [hanswer] at foreseen
          refine ⟨?_, turn.upshot foreseen⟩
          rcases turn.effect with ⟨-, hstore, -⟩ | ⟨deed, -, hstore, -⟩
          · rw [hstore, hcap']
          · rw [hstore, Event.apply_capacity, hcap']
        · have turns : Turns b other _ _ := .single turn
          obtain ⟨hcap'', hsnapshot⟩ := turns.snapshot?_of_ne hcap' (apart b other hb hs)
          exact ⟨hcap'', upshot_congr (turn.phase_of_ne (Ne.symm hb))
            (turns.deedsOf_of_ne (Ne.symm hb)) hsnapshot⟩
      · have takes : Takes _ _ := .single take
        have hstore := takes.store_eq
        exact ⟨hstore ▸ hcap', upshot_congr (take.phase a) (takes.deedsOf a) (by rw [hstore])⟩

theorem told (course : plan.Course s t) (hstart : s.history.deedsOf a = [])
    {entries : List Entry} (hfetched : Deed.fetched entries ∈ t.history.deedsOf a) :
    plan.answer? a = some (.ok entries) := by
  induction course with
  | refl => simp [hstart] at hfetched
  | tail _ step ih =>
      rcases step with ⟨b, spec, -, turn, foreseen⟩ | take
      · by_cases hb : a = b
        · subst hb
          rcases turn.fetched hfetched with hold | ⟨r, r', hp, hq⟩
          · exact ih hold
          · rw [hp, hq] at foreseen
            rcases foreseen.of_asking with ⟨given, hanswer, heq⟩ | ⟨fault, now, -, heq⟩
            · cases heq
              exact hanswer
            · cases heq
        · have turns : Turns b spec _ _ := .single turn
          rw [turns.deedsOf_of_ne hb] at hfetched
          exact ih hfetched
      · have takes : Takes _ _ := .single take
        rw [takes.deedsOf a] at hfetched
        exact ih hfetched

end Course

end Plan

end FeedIntake
