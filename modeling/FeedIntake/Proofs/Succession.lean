import FeedIntake.Proofs.Apart

/-! # One round after another

When all runs of a round have come through nobody is left who waits for anything. So another round
may begin as if nothing had been before it, over other suppliers and another web. Whoever runs a job
then has either ended in the first round, or is a member of the second one and has done nothing
before.
-/

namespace FeedIntake

open Affairs
open Time (DateTime Instant)

open Intake

/-! ## What has been stays -/

namespace Affairs

variable {s t : Affairs} {a : ActivityId}

theorem Course.history_suffix (course : Course s t) : s.history <:+ t.history := by
  induction course with
  | refl => exact List.suffix_rfl
  | tail _ step ih =>
      refine ih.trans ?_
      rcases step with ⟨b, spec, turn⟩ | take
      · rcases turn.effect with ⟨hhistory, -⟩ | ⟨deed, hhistory, -⟩
        · exact hhistory ▸ List.suffix_rfl
        · exact hhistory ▸ List.suffix_cons _ _
      · cases take
        exact List.suffix_cons _ _

theorem Course.deedsOf_of_ended (course : Course s t) {spec : JobSpec} {r : RunResult}
    {outcome : RunOutcome} (h : s.phase a = .ended spec r outcome) :
    t.history.deedsOf a = s.history.deedsOf a := by
  induction course with
  | refl => rfl
  | tail steps step ih =>
      rw [← ih]
      rcases step with ⟨b, job, turn⟩ | take
      · have turns : Turns b job _ _ := .single turn
        exact turns.deedsOf_of_ne (turn.ne_of_ended (Course.phase_of_ended steps h))
      · have takes : Takes _ _ := .single take
        exact takes.deedsOf a

end Affairs

theorem Phase.result?_of_spec? {p : Phase} {spec : JobSpec} (h : p.spec? = some spec) :
    ∃ r, p.result? = some r := by
  cases p with
  | idle | astray => cases h
  | _ => exact ⟨_, rfl⟩

theorem Intake.specOf?_of_phase {w : Intake} {a : ActivityId} {spec : JobSpec}
    (h : (w.affairs.phase a).spec? = some spec) : w.specOf? a = some spec := by
  obtain ⟨r, hr⟩ := Phase.result?_of_spec? h
  obtain ⟨hs, -⟩ := View.of_phase h hr
  rwa [view_spec?] at hs

theorem Affairs.Sound.exists_spec {store : Snapshots} {records : List Record} {w : Intake}
    (h : w.affairs.Sound store records) {a : ActivityId} (hdeeds : w.history.deedsOf a ≠ []) :
    ∃ spec, w.specOf? a = some spec := by
  obtain ⟨deed, hdeed⟩ := List.exists_mem_of_ne_nil _ hdeeds
  obtain ⟨spec, hmem⟩ := History.mem_deedsOf.mp hdeed
  exact ⟨spec, specOf?_of_phase (h.owned hmem)⟩

/-! ## Rounds that have come through -/

namespace Intake

def Completed (w : Intake) (r : RoundId) : Prop :=
  w.roundOutcome? r = some .done ∧
    ∀ round, w.rounds[r]? = some round → ∀ result ∈ round.results, result.success = true

/-- A member of a round has come through with a source. -/
structure CameThrough (w : Intake) (r : RoundId) (spec : RoundSpec) (supplier : Supplier)
    (source : String) (m : ActivityId) (result : RunResult) (since : Instant) : Prop where
  threshold : thresholdOf spec.since = .ok since
  role : ∃ j, w.role? m = some (.member r j)
  job : w.specOf? m = some (spec.jobFor since source)
  answer : w.answer? m = some (supplier.answerFor w.web (spec.jobFor since source))
  ended : ∃ outcome, w.affairs.phase m = .ended (spec.jobFor since source) result outcome
  success : result.success = true

/-- All members of a round have come through. -/
structure Accomplished (w : Intake) (r : RoundId) (spec : RoundSpec) (supplier : Supplier)
    (round : Round) : Prop where
  recorded : w.rounds[r]? = some round
  closed : w.Closed r round.roster .done
  length_eq : round.results.length = spec.sources.length
  each : ∀ {i : Nat} {source : String}, spec.sources[i]? = some source → ∃ m result since,
    round.members[i]? = some m ∧ round.results[i]? = some result ∧
      w.CameThrough r spec supplier source m result since
  all : ∀ {m j}, w.role? m = some (.member r j) →
    ∃ (i : Nat) (source : String), spec.sources[i]? = some source ∧ round.members[i]? = some m

section

variable {w : Intake} {r : RoundId} {spec : RoundSpec} {supplier : Supplier}

theorem Hosts.accomplished (hosts : w.Hosts r spec) (completed : w.Completed r)
    (hsupplier : w.suppliers[spec.supplier]? = some supplier) :
    ∃ round, w.Accomplished r spec supplier round := by
  obtain ⟨roster, closed⟩ := hosts.closed completed.1
  obtain ⟨-, since, hsince, staffed, hresults⟩ := hosts.done closed
  have hkept := closed
  obtain ⟨p, hroster, -⟩ := hkept
  obtain ⟨round, hround, rfl⟩ := exists_round hroster
  refine ⟨round, hround, closed, hresults.length_eq.symm.trans staffed.length_eq, ?_, ?_⟩
  · intro i source hsource
    obtain ⟨m, result, outcome, hmember, hresult, hphase⟩ := staffed.ended_at hresults hsource
    obtain ⟨j, hrole, -⟩ := staffed.job_at hmember hsource
    exact ⟨m, result, since, hmember, hresult, {
      threshold := hsince (List.ne_nil_of_mem (List.mem_of_getElem? hsource))
      role := ⟨j, hrole⟩
      job := staffed.specOf?_at hmember hsource
      answer := staffed.answer?_at hmember hsource hsupplier
      ended := ⟨outcome, hphase⟩
      success := completed.2 round hround _ (List.mem_of_getElem? hresult) }⟩
  · intro m j hrole
    obtain ⟨i, hi⟩ := List.getElem?_of_mem (staffed.all m j hrole)
    have hlt : i < spec.sources.length :=
      staffed.length_eq ▸ (List.getElem?_eq_some_iff.mp hi).choose
    exact ⟨i, _, List.getElem?_eq_getElem hlt, hi⟩

variable {round : Round}

theorem Accomplished.of_member (h : w.Accomplished r spec supplier round) {m : ActivityId}
    {j : JobId} (hm : w.role? m = some (.member r j)) : ∃ source result since,
      source ∈ spec.sources ∧ w.CameThrough r spec supplier source m result since := by
  obtain ⟨i, source, hsource, hmember⟩ := h.all hm
  obtain ⟨m', result, since, hmember', -, through⟩ := h.each hsource
  rw [hmember] at hmember'
  cases hmember'
  exact ⟨source, result, since, List.mem_of_getElem? hsource, through⟩

theorem CameThrough.deeds_ne_nil {source : String} {m : ActivityId} {result : RunResult}
    {since : Instant} (h : w.CameThrough r spec supplier source m result since)
    {store : Snapshots} {records : List Record} (sound : w.affairs.Sound store records) :
    w.history.deedsOf m ≠ [] := by
  obtain ⟨outcome, hphase⟩ := h.ended
  obtain ⟨_, _, _, _, _, -, -, hdeeds⟩ :=
    (sound.explained m).of_success (by rw [hphase]; rfl) h.success
  exact fun hnone => List.cons_ne_nil _ _ (hdeeds.symm.trans hnone)

theorem completed_of_all {w : Intake} {r : RoundId} (hdone : w.roundOutcome? r = some .done)
    (hall : (w.rounds[r]?).all (fun round => round.results.all (·.success)) = true) :
    w.Completed r := by
  refine ⟨hdone, fun round hround result hresult => ?_⟩
  rw [hround] at hall
  exact List.all_eq_true.mp hall result hresult

end

/-! ## The next round -/

def resupplied (w : Intake) (web : List (String × Response)) (supplier : Supplier) : Intake :=
  (({ w with web } : Intake).addSupplier supplier).1

def nextRound (w : Intake) (web : List (String × Response)) (supplier : Supplier)
    (spec : RoundSpec) : Intake :=
  ((w.resupplied web supplier).startRound { spec with supplier := w.suppliers.length }).1

section

variable {w v : Intake}

theorem affairs_nextRound (w : Intake) (web : List (String × Response)) (supplier : Supplier)
    (spec : RoundSpec) : (w.nextRound web supplier spec).affairs = w.affairs :=
  affairs_startRound _ _

/-- Where all runs have ended nobody waits for what a supplier has promised. -/
theorem calm_resupplied (calm : Calm w)
    (hended : ∀ b p, w.post? b = some p → p.role.job?.isSome = true →
      ∃ outcome, p.stage = .finished outcome)
    (web : List (String × Response)) (supplier : Supplier) :
    Calm (w.resupplied web supplier) where
  refusal := calm.refusal
  each := fun b => ⟨(calm.each b).calls, fun p hp => by
    have known := (calm.each b).post p hp
    refine Post.isCalm_of_isOwners known.going (known.role.imp_right (·.1)) ?_
    rcases known.role with hrun | ⟨-, hstage⟩
    · obtain ⟨outcome, hfinished⟩ := hended b p hp hrun
      rw [hfinished]
      rfl
    · exact hstage⟩
  going := calm.going
  owners := calm.owners
  members := calm.members

theorem untouched_resupplied (r : RoundId) (w : Intake) (web : List (String × Response))
    (supplier : Supplier) : Untouched r w (w.resupplied web supplier) :=
  .of_roles rfl rfl (fun _ => rfl) fun _ _ => ⟨fun _ h => .inl h, rfl⟩

end

section

variable {now : DateTime} {capacity : Nat} {backlog : List Record} {store : Snapshots}
  {web web' : List (String × Response)} {supplier supplier' : Supplier} {spec spec' : RoundSpec}
  {w v : Intake}

theorem accomplished_ofRound
    (proceeds : Proceeds (ofRound now (.holding capacity backlog) store web supplier spec) w)
    (completed : w.Completed 0) :
    ∃ round, w.Accomplished 0 { spec with supplier := 0 } supplier round := by
  obtain ⟨unfolds, hosts⟩ := unfolds_ofRound proceeds
  exact hosts.accomplished completed (by rw [unfolds.settled.suppliers]; rfl)

theorem sound_of_ofRound
    (proceeds : Proceeds (ofRound now (.holding capacity backlog) store web supplier spec) w) :
    w.affairs.Sound store backlog ∧ w.affairs.Tidy := by
  have course := (unfolds_ofRound proceeds).1.course.course
  rw [affairs_ofRound] at course
  exact ⟨course.sound (sound_start store backlog), course.tidy fun _ => by simp⟩

/-- When a round has come through all runs have ended. -/
theorem finished_of_ofRound
    (proceeds : Proceeds (ofRound now (.holding capacity backlog) store web supplier spec) w)
    (completed : w.Completed 0) (b : ActivityId) (p : Post) (hp : w.post? b = some p)
    (hrun : p.role.job?.isSome = true) : ∃ outcome, p.stage = .finished outcome := by
  obtain ⟨round, accomplished⟩ := accomplished_ofRound proceeds completed
  obtain ⟨unfolds, -⟩ := unfolds_ofRound proceeds
  have hrole : w.role? b = some p.role := by rw [role?_eq, hp, Option.map_some]
  cases hmember : p.role with
  | run j =>
      rw [hmember] at hrole
      exact absurd hrole ((roundsOnly_ofRound now (.holding capacity backlog) store web supplier
        spec).settled unfolds.settled b j)
  | member r j =>
      rw [hmember] at hrole
      have hlt := unfolds.calm.members b r j hrole
      rw [unfolds.settled.rounds] at hlt
      obtain rfl : r = 0 := Nat.lt_one_iff.mp hlt
      obtain ⟨source, result, since, -, through⟩ := accomplished.of_member hrole
      obtain ⟨outcome, hphase⟩ := through.ended
      exact ⟨outcome, stage_of_phase_ended w _ hphase hp⟩
  | round | collector | taker =>
      rw [hmember] at hrun
      cases hrun

/-- The next round runs to its specification, and what the first one has come to stays. -/
theorem unfolds_nextRound
    (proceeds : Proceeds (ofRound now (.holding capacity backlog) store web supplier spec) w)
    (completed : w.Completed 0) (next : Proceeds (w.nextRound web' supplier' spec') v) :
    Unfolds (w.nextRound web' supplier' spec') v ∧
      v.Hosts 0 { spec with supplier := 0 } ∧ v.Hosts 1 { spec' with supplier := 1 } ∧
      ∀ roster, w.Closed 0 roster .done → v.Closed 0 roster .done := by
  obtain ⟨unfolds, hosts⟩ := unfolds_ofRound proceeds
  have order := Reaches.orderly (Proceeds.reaches proceeds)
    (orderly_ofRound now rfl rfl store web supplier spec)
  have hcalm := calm_resupplied unfolds.calm (finished_of_ofRound proceeds completed) web' supplier'
  have huntouched := untouched_resupplied 0 w web' supplier'
  have hrounds : w.rounds.length = 1 := (List.length_map _).symm.trans unfolds.settled.rounds
  have hsuppliers : w.suppliers.length = 1 := by rw [unfolds.settled.suppliers]; rfl
  have unfolds' := Proceeds.unfolds next (calm_startRound hcalm _)
    ((Step.startRound _ _).orderly ((Step.addSupplier _ supplier').orderly
      ((Step.web w web').orderly order))) (by
        rw [affairs_nextRound]
        exact (sound_of_ofRound proceeds).2)
  have hnext := hosts_startRound hcalm.toUncalled { spec' with supplier := w.suppliers.length }
  rw [show (w.resupplied web' supplier').rounds.length = 1 from hrounds, hsuppliers] at hnext
  have hnext' := unfolds'.hosts 1 { spec' with supplier := 1 }
  unfold nextRound at hnext' unfolds' ⊢
  rw [hsuppliers] at hnext' unfolds' ⊢
  refine ⟨unfolds', unfolds'.hosts 0 _ (Hosts.startRound (hosts.keep huntouched ?_) _),
    hnext' hnext, fun roster closed => unfolds'.closed 0 roster _
      (Closed.startRound (closed.keep huntouched) _)⟩
  exact fun m result h => h

/-- Whoever runs a job after both rounds did so in the first one, where it has already ended, or it
is a member of the second one. -/
theorem newcomers
    (proceeds : Proceeds (ofRound now (.holding capacity backlog) store web supplier spec) w)
    (completed : w.Completed 0) (next : Proceeds (w.nextRound web' supplier' spec') v)
    {a : ActivityId} {job : JobSpec} (hjob : v.specOf? a = some job) :
    w.history.deedsOf a = [] ↔ ∃ j, v.role? a = some (.member 1 j) := by
  obtain ⟨sound, -⟩ := sound_of_ofRound proceeds
  obtain ⟨round, accomplished⟩ := accomplished_ofRound proceeds completed
  obtain ⟨unfolds, hosts, -, hclosed⟩ := unfolds_nextRound proceeds completed next
  obtain ⟨-, since, -, staffed, -⟩ := hosts.done (hclosed _ accomplished.closed)
  have hold {i : Nat} (hmember : round.members[i]? = some a) :
      (∃ j, v.role? a = some (.member 0 j)) ∧ w.history.deedsOf a ≠ [] := by
    have hlt : i < spec.sources.length :=
      staffed.length_eq ▸ (List.getElem?_eq_some_iff.mp hmember).choose
    have hsource : spec.sources[i]? = some spec.sources[i] := List.getElem?_eq_getElem hlt
    obtain ⟨j, hrole, -⟩ := staffed.job_at hmember hsource
    obtain ⟨m, result, since, hmember', -, through⟩ := accomplished.each hsource
    rw [hmember] at hmember'
    cases hmember'
    exact ⟨⟨j, hrole⟩, through.deeds_ne_nil sound⟩
  constructor
  · intro hdeeds
    have settled := (unfolds_ofRound proceeds).1.settled
    have hrounds : w.RoundsOnly := (roundsOnly_ofRound now (.holding capacity backlog) store web
      supplier spec).settled settled
    have hrounds' : (w.nextRound web' supplier' spec').RoundsOnly :=
      RoundsOnly.startRound (w := w.resupplied web' supplier') hrounds _
    obtain ⟨r, j, hrole⟩ := (hrounds'.settled unfolds.settled).exists_member hjob
    have hlt := unfolds.calm.members a r j hrole
    rw [unfolds.settled.rounds, nextRound, rosters_startRound, List.length_append] at hlt
    have hlt' : r < w.rosters.length + 1 := hlt
    rw [settled.rounds] at hlt'
    rcases Nat.lt_or_ge r 1 with hfirst | hsecond
    · obtain rfl : r = 0 := Nat.lt_one_iff.mp hfirst
      obtain ⟨i, hmember⟩ := List.getElem?_of_mem (staffed.all a j hrole)
      exact absurd hdeeds (hold hmember).2
    · obtain rfl : r = 1 := Nat.le_antisymm (Nat.le_of_lt_succ hlt') hsecond
      exact ⟨j, hrole⟩
  · rintro ⟨j, hrole⟩
    by_contra hdeeds
    obtain ⟨known, hknown⟩ := sound.exists_spec hdeeds
    obtain ⟨i, hrole'⟩ := exists_member_of_ofRound proceeds hknown
    obtain ⟨k, source, -, hmember⟩ := accomplished.all hrole'
    obtain ⟨⟨j', hrole''⟩, -⟩ := hold hmember
    rw [hrole] at hrole''
    cases hrole''

theorem accomplished_nextRound
    (proceeds : Proceeds (ofRound now (.holding capacity backlog) store web supplier spec) w)
    (completed : w.Completed 0) (next : Proceeds (w.nextRound web' supplier' spec') v)
    (completed' : v.Completed 1) :
    ∃ round, v.Accomplished 1 { spec' with supplier := 1 } supplier' round := by
  obtain ⟨unfolds, -, hosts, -⟩ := unfolds_nextRound proceeds completed next
  have hsuppliers : v.suppliers = w.suppliers ++ [supplier'] := unfolds.settled.suppliers
  refine hosts.accomplished completed' ?_
  rw [hsuppliers, (unfolds_ofRound proceeds).1.settled.suppliers]
  rfl

theorem course_nextRound
    (proceeds : Proceeds (ofRound now (.holding capacity backlog) store web supplier spec) w)
    (completed : w.Completed 0) (next : Proceeds (w.nextRound web' supplier' spec') v) :
    v.plan.Course w.affairs v.affairs :=
  affairs_nextRound w web' supplier' spec' ▸ (unfolds_nextRound proceeds completed next).1.course

end

end Intake

end FeedIntake
