import FeedIntake.Proofs.Succession

/-! # Runs one after another

Where all runs have ended another one may begin over a supplier of its own, whatever has become of
the web. Nobody else takes a turn then, and so what it leaves can be said before it begins, from
what the store held: its result, the records that it put, and the store afterwards.
-/

namespace FeedIntake

open Affairs
open Time (DateTime Instant)

open Intake

/-! ## Courses of one run -/

namespace Plan

/-- One run alone takes foreseen turns, with records taken in between. -/
def CourseOf (plan : Plan) (a : ActivityId) (spec : JobSpec) : Affairs → Affairs → Prop :=
  Relation.ReflTransGen fun s t =>
    (Turn a spec s t ∧ (s.phase a).Foreseen (plan.answer? a) False (t.phase a)) ∨ Take s t

variable {plan : Plan} {s t : Affairs} {a : ActivityId} {spec : JobSpec}

theorem Course.courseOf (course : plan.Course s t) (hspec : plan.spec? a = some spec)
    (others : ∀ b other, b ≠ a → plan.spec? b = some other →
      ∃ known r outcome, s.phase b = .ended known r outcome) : plan.CourseOf a spec s t := by
  induction course with
  | refl => exact .refl
  | tail before step ih =>
      refine .tail ih ?_
      rcases step with ⟨b, other, hs, turn, foreseen⟩ | take
      · by_cases hb : b = a
        · subst hb
          rw [hspec] at hs
          cases hs
          exact .inl ⟨turn, foreseen⟩
        · obtain ⟨known, r, outcome, hended⟩ := others b other hb hs
          have earlier : plan.Course s _ := before
          exact absurd rfl (turn.ne_of_ended (Course.phase_of_ended earlier.course hended))
      · exact .inr take

namespace CourseOf

theorem upshot {answer : Except Fault (List Entry)} (course : plan.CourseOf a spec s t)
    (hanswer : plan.answer? a = some answer) : t.upshot a spec answer = s.upshot a spec answer := by
  induction course with
  | refl => rfl
  | tail _ step ih =>
      rw [← ih]
      rcases step with ⟨turn, foreseen⟩ | take
      · rw [hanswer] at foreseen
        exact turn.upshot foreseen
      · have takes : Takes _ _ := .single take
        exact upshot_congr (take.phase a) (takes.deedsOf a) (by rw [takes.store_eq])

theorem store_eq (course : plan.CourseOf a spec s t) (hfresh : s.history.deedsOf a = []) :
    t.store = (t.history.commitsOf a).foldl (fun store ids => store.commit spec.source ids)
      s.store := by
  induction course with
  | refl =>
      rw [History.commitsOf, hfresh]
      rfl
  | tail _ step ih =>
      rcases step with ⟨turn, -⟩ | take
      · rcases turn.effect with ⟨hhistory, hstore, -⟩ | ⟨deed, hhistory, hstore, -⟩
        · rw [hstore, hhistory, ih]
        · rw [hstore, hhistory, ih, History.commitsOf, History.commitsOf,
            History.deedsOf_did_self, List.filterMap_append, List.foldl_append]
          cases deed <;> rfl
      · have takes : Takes _ _ := .single take
        rw [takes.store_eq, ih, History.commitsOf, History.commitsOf, takes.deedsOf a]

end CourseOf

end Plan

/-! ## What is committed in the end -/

/-- A perpetual run that succeeded has committed what it met, and nobody else has committed
anything. -/
theorem Phase.Explained.commits {spec : JobSpec} {r : RunResult} {outcome : RunOutcome}
    {deeds : List Deed} (h : Explained (.ended spec r outcome) deeds) :
    deeds.filterMap Deed.identitiesCommitted? =
      if r.success && spec.perpetual then [r.seen] else [] := by
  cases hsuccess : r.success with
  | true =>
      obtain ⟨known, r', entries, trail, now, -, hphase, rfl⟩ := h.of_success rfl hsuccess
      cases hphase
      rw [List.cons_append, List.filterMap_cons_none rfl, List.filterMap_append,
        Trail.filterMap_identitiesCommitted?_deeds]
      cases spec.perpetual <;> rfl
  | false =>
      rw [Bool.false_and, if_neg (by simp), List.filterMap_eq_nil_iff]
      intro deed hmem
      cases deed with
      | committed identities =>
          obtain ⟨before, after, rfl⟩ := List.append_of_mem hmem
          obtain ⟨_, _, _, _, now, progress, _, hphase, -⟩ := h.of_committed rfl
          cases hphase
          rw [progress.tally.success_conclude] at hsuccess
          cases hsuccess
      | _ => rfl

/-- The store when a run has come to its result, with nobody else about. -/
def JobSpec.storeAfter (spec : JobSpec) (store : Snapshots) (result : RunResult) : Snapshots :=
  if result.success && spec.perpetual then store.commit spec.source result.seen else store

/-! ## Runs in turn -/

structure Reading where
  spec : JobSpec
  answer : Except Fault (List Entry)

structure Leaving where
  result : RunResult
  records : List Record
  store : Snapshots

/-- What a run that nobody else meddles with leaves over a store. -/
structure JobSpec.Leaves (spec : JobSpec) (store : Snapshots)
    (answer : Except Fault (List Entry)) (leaving : Leaving) : Prop where
  result : leaving.result.timeless = (spec.prospect store answer).result
  records : leaving.records = (spec.prospect store answer).puts
  store : leaving.store = spec.storeAfter store leaving.result

namespace Intake

/-- A run begins over a supplier of its own, whatever has become of the web. -/
def nextRun (w : Intake) (web : List (String × Response)) (supplier : Supplier) (spec : JobSpec) :
    Intake :=
  (((w.resupplied web supplier).addJob spec w.suppliers.length).1.startRun w.jobs.length).1

def leavingOf (w : Intake) (a : ActivityId) (result : RunResult) : Leaving :=
  ⟨result, w.history.recordsPutBy a, w.store⟩

/-- One run after the other reads what it is to read. The next one begins when the last has ended,
at once or later, and nobody is cancelled. -/
inductive RunsInTurn : Intake → List Reading → List Leaving → Intake → Prop where
  | none (w : Intake) : RunsInTurn w [] [] w
  | next {w v u : Intake} {web : List (String × Response)} {supplier : Supplier}
      {reading : Reading} {outcome : RunOutcome} {result : RunResult} {readings : List Reading}
      {leavings : List Leaving}
      (hanswer : supplier.answerFor web reading.spec = reading.answer)
      (proceeds : Proceeds (w.nextRun web supplier reading.spec) v)
      (houtcome : v.outcome? w.activities.length = some outcome)
      (hresult : v.result? w.activities.length = some result)
      (later : RunsInTurn v readings leavings u) :
      RunsInTurn w (reading :: readings) (v.leavingOf w.activities.length result :: leavings) u

/-- All is calm and in order, there are no rounds, and whoever makes a run has ended. -/
structure Lull (w : Intake) : Prop where
  calm : Calm w
  order : Orderly (fun _ => False) w
  tidy : w.affairs.Tidy
  sound : ∃ store backlog, w.affairs.Sound store backlog
  rounds : w.rounds = []
  ended : ∀ b p, w.post? b = some p → p.role.job?.isSome = true →
    ∃ spec r outcome, w.affairs.phase b = .ended spec r outcome

theorem lull_start (now : DateTime) (capacity : Nat) (backlog : List Record) (store : Snapshots)
    (web : List (String × Response)) :
    Lull (start now (.holding capacity backlog) store web) where
  calm := calm_of_nobody rfl rfl rfl rfl
  order := orderly_start now store web rfl rfl
  tidy := tidy_start now _ store web
  sound := ⟨store, backlog, by rw [affairs_start]; exact sound_start store backlog⟩
  rounds := rfl
  ended := fun b p hp => by simp [post?, posts, start] at hp

theorem calm_addJob {w : Intake} (calm : Calm w) (spec : JobSpec) (supplier : SupplierId) :
    Calm (w.addJob spec supplier).1 := by
  have hjobs : (w.addJob spec supplier).1.jobSpecs = w.jobSpecs ++ [(spec, supplier)] :=
    List.map_append
  refine calm.of_uncalled (calm.toUncalled.keep rfl (fun _ _ h => .inl h) fun b => ?_) rfl
  have hstays : Stays b w (w.addJob spec supplier).1 := ⟨fun _ h => .inl h, rfl⟩
  refine hstays.calmAt (plan_extends rfl rfl (fun {j job} h => ?_) id) (calm.each b)
  rw [hjobs, List.getElem?_append_left (List.getElem?_eq_some_iff.mp h).choose, h]

section

variable {w v : Intake} {web : List (String × Response)} {supplier : Supplier} {spec : JobSpec}

theorem affairs_nextRun (htidy : w.affairs.Tidy) :
    (w.nextRun web supplier spec).affairs = w.affairs :=
  (affairs_add _ _).trans (affairs_addJob (w := w.resupplied web supplier) htidy _ _)

theorem role?_nextRun (b : ActivityId) : (w.nextRun web supplier spec).role? b =
    if b = w.activities.length then some (.run w.jobs.length) else w.role? b :=
  role?_add ((w.resupplied web supplier).addJob spec w.suppliers.length).1 _ b

theorem job_nextRun : (w.nextRun web supplier spec).jobSpecs[w.jobs.length]? =
    some (spec, w.suppliers.length) := by
  have hjobs : (w.nextRun web supplier spec).jobSpecs =
      w.jobSpecs ++ [(spec, w.suppliers.length)] := List.map_append
  have hlength : w.jobSpecs.length = w.jobs.length := List.length_map _
  rw [hjobs, ← hlength, List.getElem?_concat_length]

theorem specOf?_nextRun :
    (w.nextRun web supplier spec).specOf? w.activities.length = some spec := by
  rw [specOf?_eq_of_role, role?_nextRun, if_pos rfl, Option.bind_some, Role.job?, Option.bind_some,
    job_nextRun, Option.map_some]

theorem answer?_nextRun : (w.nextRun web supplier spec).answer? w.activities.length =
    some (supplier.answerFor web spec) := by
  have hsuppliers : (w.nextRun web supplier spec).suppliers = w.suppliers ++ [supplier] := rfl
  rw [answer?_eq_of_role, role?_nextRun, if_pos rfl, Option.bind_some, Role.job?, Option.bind_some,
    job_nextRun, Option.bind_some, hsuppliers, List.getElem?_concat_length, Option.map_some]
  rfl

theorem Lull.order_nextRun (lull : w.Lull) :
    Orderly (fun _ => False) (w.nextRun web supplier spec) :=
  (Step.startRun _ w.jobs.length).orderly ((Step.addJob _ spec w.suppliers.length).orderly
    ((Step.addSupplier _ supplier).orderly ((Step.web w web).orderly lull.order)))

theorem Lull.unfolds (lull : w.Lull) (proceeds : Proceeds (w.nextRun web supplier spec) v) :
    Unfolds (w.nextRun web supplier spec) v := by
  have hended (b : ActivityId) (p : Post) (hp : w.post? b = some p)
      (hrun : p.role.job?.isSome = true) : ∃ outcome, p.stage = .finished outcome := by
    obtain ⟨known, r, outcome, hphase⟩ := lull.ended b p hp hrun
    exact ⟨outcome, stage_of_phase_ended w b hphase hp⟩
  have hcalm := calm_startRun (calm_addJob (calm_resupplied lull.calm hended web supplier) spec
    w.suppliers.length) w.jobs.length
  refine Proceeds.unfolds proceeds hcalm lull.order_nextRun ?_
  rw [affairs_nextRun lull.tidy]
  exact lull.tidy

/-- Whoever makes a run while the next run goes on is the one that makes it, or has ended before. -/
theorem Lull.role_cases (lull : w.Lull) (unfolds : Unfolds (w.nextRun web supplier spec) v)
    {b : ActivityId} {role : Role} (hrole : v.role? b = some role)
    (hrun : role.job?.isSome = true) : b = w.activities.length ∨
      ∃ known r outcome, w.affairs.phase b = .ended known r outcome := by
  rcases unfolds.settled.crew hrole with hold | ⟨r, j, rfl⟩
  · rw [role?_nextRun] at hold
    split at hold
    · rename_i hb
      exact .inl hb
    · right
      rw [role?_eq, Option.map_eq_some_iff] at hold
      obtain ⟨p, hp, rfl⟩ := hold
      exact lull.ended b p hp hrun
  · -- There is no round that it could be a member of.
    have hlt := unfolds.calm.members b r j hrole
    rw [unfolds.settled.rounds] at hlt
    have hnone : (w.nextRun web supplier spec).rosters = [] := by
      rw [rosters, show (w.nextRun web supplier spec).rounds = w.rounds from rfl, lull.rounds]
      rfl
    rw [hnone] at hlt
    exact absurd hlt (Nat.not_lt_zero r)

theorem Lull.courseOf (lull : w.Lull) (proceeds : Proceeds (w.nextRun web supplier spec) v) :
    v.plan.CourseOf w.activities.length spec w.affairs v.affairs := by
  have unfolds := lull.unfolds proceeds
  have course := unfolds.course
  rw [affairs_nextRun lull.tidy] at course
  refine course.courseOf (unfolds.plan_extends.spec specOf?_nextRun) fun b other hb hother => ?_
  have hs : v.specOf? b = some other := hother
  rw [specOf?_eq_of_role] at hs
  obtain ⟨j, hj, -⟩ := Option.bind_eq_some_iff.mp hs
  obtain ⟨role, hrole, hjob⟩ := Option.bind_eq_some_iff.mp hj
  exact (lull.role_cases unfolds hrole (by rw [hjob]; rfl)).resolve_left hb

theorem Lull.phase_of_ended (lull : w.Lull) (proceeds : Proceeds (w.nextRun web supplier spec) v)
    {result : RunResult} {outcome : RunOutcome}
    (houtcome : v.outcome? w.activities.length = some outcome)
    (hresult : v.result? w.activities.length = some result) :
    v.affairs.phase w.activities.length = .ended spec result outcome :=
  phase_of_outcome? v _ ((lull.unfolds proceeds).plan_extends.spec specOf?_nextRun) hresult houtcome

theorem Lull.answer? (lull : w.Lull) (proceeds : Proceeds (w.nextRun web supplier spec) v) :
    v.plan.answer? w.activities.length = some (supplier.answerFor web spec) :=
  (lull.unfolds proceeds).plan_extends.answer answer?_nextRun

theorem result?_next (w : Intake) : w.result? w.activities.length = none := by
  rw [result?, activity?, List.getElem?_eq_none (Nat.le_refl _)]
  rfl

theorem Lull.deedsOf_next (lull : w.Lull) : w.history.deedsOf w.activities.length = [] := by
  obtain ⟨store, backlog, sound⟩ := lull.sound
  exact deedsOf_of_no_result sound w.result?_next

/-- What is to be expected of the next run is what has come of it when it has ended. -/
theorem Lull.upshot_eq (lull : w.Lull) (proceeds : Proceeds (w.nextRun web supplier spec) v)
    {result : RunResult} {outcome : RunOutcome}
    (houtcome : v.outcome? w.activities.length = some outcome)
    (hresult : v.result? w.activities.length = some result) :
    Upshot.mk result.timeless outcome (v.history.recordsPutBy w.activities.length)
        (v.store.snapshot? spec.source) =
      spec.prospect w.store (supplier.answerFor web spec) := by
  have hidle : w.affairs.phase w.activities.length = .idle :=
    (phase_idle_iff w _).mpr w.result?_next
  have hupshot := (lull.courseOf proceeds).upshot (lull.answer? proceeds)
  have hexpected : w.affairs.upshot w.activities.length spec (supplier.answerFor web spec) =
      spec.prospect w.store (supplier.answerFor web spec) := by
    rw [Affairs.upshot, hidle, History.recordsPutBy, show w.affairs.history = w.history from rfl,
      lull.deedsOf_next]
    rfl
  rw [hexpected, Affairs.upshot, lull.phase_of_ended proceeds houtcome hresult] at hupshot
  exact (congrArg (Upshot.mk _ _ · _) (List.append_nil _)).symm.trans hupshot

/-- **What a run leaves that nobody else meddles with can be said before it begins**, and all has
ended again when it has. -/
theorem Lull.next (lull : w.Lull) (proceeds : Proceeds (w.nextRun web supplier spec) v)
    {result : RunResult} {outcome : RunOutcome}
    (houtcome : v.outcome? w.activities.length = some outcome)
    (hresult : v.result? w.activities.length = some result) :
    v.Lull ∧ spec.Leaves w.store (supplier.answerFor web spec)
      (v.leavingOf w.activities.length result) := by
  have unfolds := lull.unfolds proceeds
  have hphase := lull.phase_of_ended proceeds houtcome hresult
  have course := unfolds.course
  rw [affairs_nextRun lull.tidy] at course
  obtain ⟨store, backlog, sound⟩ := lull.sound
  have sound' := course.course.sound sound
  have hupshot := lull.upshot_eq proceeds houtcome hresult
  have hexplained := sound'.explained w.activities.length
  rw [hphase] at hexplained
  constructor
  · exact {
      calm := unfolds.calm
      order := Reaches.orderly (Proceeds.reaches proceeds) lull.order_nextRun
      tidy := course.course.tidy lull.tidy
      sound := ⟨store, backlog, sound'⟩
      rounds := by
        have hlength := unfolds.settled.rounds
        rw [rosters, List.length_map, rosters, List.length_map,
          show (w.nextRun web supplier spec).rounds = w.rounds from rfl, lull.rounds] at hlength
        exact List.eq_nil_of_length_eq_zero hlength
      ended := by
        intro b p hp hrun
        have hrole : v.role? b = some p.role := by rw [role?_eq, hp, Option.map_some]
        rcases lull.role_cases unfolds hrole hrun with rfl | ⟨known, r, ended, hended⟩
        · exact ⟨_, _, _, hphase⟩
        · exact ⟨_, _, _, Course.phase_of_ended course.course hended⟩ }
  · exact {
      result := congrArg Upshot.result hupshot
      records := congrArg Upshot.puts hupshot
      store := by
        have hstore : v.store = _ := (lull.courseOf proceeds).store_eq lull.deedsOf_next
        show v.store = spec.storeAfter w.store result
        rw [hstore, History.commitsOf, hexplained.commits, JobSpec.storeAfter]
        cases result.success && spec.perpetual <;> rfl }

/-- Two series of runs read the same, one by one. What they leave is related run by run if any two
runs over related stores leave what is related, and the stores with it. -/
theorem RunsInTurn.forall₂ {Kept : Snapshots → Snapshots → Prop}
    {Related : Leaving → Leaving → Prop}
    (hstep : ∀ {spec : JobSpec} {answer : Except Fault (List Entry)} {store store' : Snapshots}
      {leaving leaving' : Leaving}, Kept store store' → spec.Leaves store answer leaving →
        spec.Leaves store' answer leaving' →
          Kept leaving.store leaving'.store ∧ Related leaving leaving')
    {w w' v v' : Intake} {readings : List Reading} {leavings leavings' : List Leaving}
    (runs : RunsInTurn w readings leavings v) (lull : w.Lull) (lull' : w'.Lull)
    (h : Kept w.store w'.store) (runs' : RunsInTurn w' readings leavings' v') :
    List.Forall₂ Related leavings leavings' := by
  -- the induction is on the runs of the first series
  induction runs generalizing w' leavings' with
  | none =>
      cases runs'
      exact .nil
  | next hanswer proceeds houtcome hresult later ih =>
      cases runs' with
      | next hanswer' proceeds' houtcome' hresult' later' =>
          obtain ⟨lull, leaves⟩ := lull.next proceeds houtcome hresult
          obtain ⟨lull', leaves'⟩ := lull'.next proceeds' houtcome' hresult'
          rw [hanswer] at leaves
          rw [hanswer'] at leaves'
          obtain ⟨hkept, hrelated⟩ := hstep h leaves leaves'
          exact .cons hrelated (ih lull lull' hkept later')

end

end Intake

end FeedIntake
