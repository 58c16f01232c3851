import FeedIntake.Proofs.Calm
import Mathlib.Data.List.Forall2

/-! # Owners of rounds

The owner of a round sets up one member for every source, waits for all of them and gathers what
came of each. Nobody else does anything to its round, and it does nothing to the rounds of others.
-/

namespace FeedIntake

open Affairs
open Time (Instant)

def RoundSpec.jobFor (spec : RoundSpec) (since : Instant) (source : String) : JobSpec :=
  ⟨source, since, spec.timeoutMs, spec.perpetual⟩

def RoundSpec.jobs (spec : RoundSpec) (since : Instant) : List (JobSpec × SupplierId) :=
  spec.sources.map fun source => (spec.jobFor since source, spec.supplier)

def Intake.staff (w : Intake) (r : RoundId) (spec : RoundSpec) (since : Instant) : Intake :=
  spec.sources.foldl (fun w source => w.addMember r (spec.jobFor since source) spec.supplier) w

theorem Intake.staff_eq (w : Intake) (r : RoundId) (spec : RoundSpec) (since : Instant) :
    w.staff r spec since = { w with
      jobs := w.jobs ++ spec.sources.map fun source =>
        ⟨spec.jobFor since source, spec.supplier, .idle, none⟩
      activities := w.activities ++ (List.range spec.sources.length).map fun i =>
        .ofRole (.member r (w.jobs.length + i))
      ready := w.ready ++ (List.range spec.sources.length).map fun i =>
        .move (w.activities.length + i) false
      rounds := w.rounds.modify r fun x => { x with
        members := x.members ++
          (List.range spec.sources.length).map (w.activities.length + ·) } } := by
  unfold staff
  generalize spec.sources = sources
  induction sources generalizing w with
  | nil =>
      have hsame : (w.rounds.modify r fun x => { x with members := x.members }) = w.rounds :=
        List.modify_id r w.rounds
      simp only [List.foldl_nil, List.length_nil, List.range_zero, List.map_nil, List.append_nil]
      rw [hsame]
  | cons source rest ih =>
      rw [List.foldl_cons, ih, List.length_cons, List.range_succ_eq_map]
      simp [addMember, addJob, add, call, onRound, List.modify_modify_eq, Function.comp_def,
        Nat.add_assoc, Nat.add_comm 1]

open Intake

/-! ## What an owner does -/

/-- Why the owner of a round gives it up, and with what outcome: it cannot begin, or one of its
members was cancelled. -/
inductive Intake.Hinders (w : Intake) (r : RoundId) : Stage → RunOutcome → Prop where
  | limit {round : Round} (hr : w.rounds[r]? = some round) (hsources : round.spec.sources ≠ [])
      (h : round.spec.limit < 0) :
      Hinders w r .fresh (.failed (.outside .value "Semaphore initial value must be >= 0"))
  | threshold {round : Round} {fault : Fault} (hr : w.rounds[r]? = some round)
      (hsources : round.spec.sources ≠ []) (hlimit : 0 ≤ round.spec.limit)
      (h : thresholdOf round.spec.since = .error fault) : Hinders w r .fresh (.failed fault)
  | cancelled {round : Round} (hr : w.rounds[r]? = some round)
      (h : (w.accounts round.members).2 = none) : Hinders w r .gathering .cancelled

theorem Intake.Hinders.ne_done {w : Intake} {r : RoundId} {stage : Stage} {outcome : RunOutcome}
    (h : w.Hinders r stage outcome) : outcome ≠ .done := by
  cases h <;> simp

/-- What the owner of a round does when it moves, from the stage where it is. -/
inductive OwnerMove (a : ActivityId) (r : RoundId) (w : Intake) : Stage → Intake → Prop where
  | rest (stage : Stage) : OwnerMove a r w stage w
  | breaks {stage : Stage} {outcome : RunOutcome} (entries : List LogEntry)
      (h : w.Hinders r stage outcome) :
      OwnerMove a r w stage ((w.log entries).enter a (.finished outcome))
  /-- There is no source to read. -/
  | skips {round : Round} (hr : w.rounds[r]? = some round) (hempty : round.spec.sources = []) :
      OwnerMove a r w .fresh
        ((w.onRound r fun x => { x with results := [] }).enter a (.finished .done))
  | begins {round : Round} {since : Instant} (entries : List LogEntry)
      (hr : w.rounds[r]? = some round) (hsources : round.spec.sources ≠ [])
      (hlimit : 0 ≤ round.spec.limit) (hsince : thresholdOf round.spec.since = .ok since) :
      OwnerMove a r w .fresh ((((w.log entries).onRound r fun x =>
        { x with permits := .ofCount round.spec.limit.toNat }).staff r round.spec since).suspend a
          .gathering)
  | gathers {round : Round} {results : List RunResult} (entries : List LogEntry)
      (hr : w.rounds[r]? = some round)
      (hresults : (w.accounts round.members).2 = some results) :
      OwnerMove a r w .gathering
        (((w.log entries).onRound r fun x => { x with results }).enter a (.finished .done))

namespace Intake

section

variable {w : Intake} {a : ActivityId} {r : RoundId}

theorem endOwner_of_round (hrole : w.role? a = some (.round r)) (outcome : RunOutcome) :
    w.endOwner a outcome = w.enter a (.finished outcome) := by
  have hrole' : (w.enter a (.finished outcome)).role? a = some (.round r) :=
    (role?_onActivity w a a (by exact fun _ => rfl)).trans hrole
  unfold endOwner close
  rw [hrole]
  dsimp only
  rw [hrole']

theorem endRound_of_round (hrole : w.role? a = some (.round r)) (r' : RoundId)
    (results : List RunResult) : w.endRound a r' results =
      (w.onRound r' fun x => { x with results }).enter a (.finished .done) := by
  have hrole' : (w.onRound r' fun x => { x with results }).role? a = some (.round r) := hrole
  unfold endRound
  dsimp only
  rw [hrole']
  exact endOwner_of_round hrole' .done

theorem act_owner (hrole : w.role? a = some (.round r)) {stage : Stage}
    (hstage : stage.isOwners = true) :
    OwnerMove a r w stage (w.act a (.round r) false false stage) := by
  unfold act
  cases stage with
  | fresh =>
      dsimp only
      rw [if_neg (by simp), begin]
      unfold beginRound
      split
      · exact .rest _
      · rename_i round hr
        dsimp only
        split
        · rename_i hempty
          rw [endRound_of_round hrole]
          exact .skips hr (List.isEmpty_iff.mp hempty)
        · rename_i hfull
          have hsources : round.spec.sources ≠ [] := fun h => hfull (List.isEmpty_iff.mpr h)
          split
          · rename_i hlimit
            rw [endOwner_of_round (w := w.log _) hrole]
            exact .breaks _ (.limit hr hsources hlimit)
          · rename_i hlimit
            have hlimit' : 0 ≤ round.spec.limit := Int.not_lt.mp hlimit
            split
            · rename_i fault hsince
              rw [endOwner_of_round (w := w.log _) hrole]
              exact .breaks _ (.threshold hr hsources hlimit' hsince)
            · rename_i since hsince
              exact .begins _ hr hsources hlimit' hsince
  | gathering =>
      dsimp only
      rw [if_neg (by simp), Role.ownRound?]
      dsimp only
      unfold gather
      split
      · exact .rest _
      · rename_i round hr
        dsimp only
        split
        · rename_i hresults
          rw [endOwner_of_round (w := w.log _) hrole]
          exact .breaks _ (.cancelled hr hresults)
        · rename_i results hresults
          have hlogs (entries more : List LogEntry) :
              (w.log entries).log more = w.log (entries ++ more) := by
            simp [log, List.append_assoc]
          rw [endRound_of_round (w := (w.log _).log _) hrole, hlogs]
          exact .gathers _ hr hresults
  | finished outcome => exact .rest _
  | _ => cases hstage

end

end Intake

/-! ## New activities -/

namespace Intake

section

variable (w : Intake) (role : Role)

theorem nobody_next : w.post? w.activities.length = none := by
  rw [post?_eq, activity?, List.getElem?_eq_none (Nat.le_refl _), Option.map_none]

theorem post?_add (b : ActivityId) : (w.add role).1.post? b =
    if b = w.activities.length then some ⟨role, .fresh, false, false⟩ else w.post? b := by
  split
  · rename_i hb
    rw [hb]
    exact post?_add_self w role
  · rename_i hb
    exact post?_add_of_ne w hb role

theorem role?_add (b : ActivityId) : (w.add role).1.role? b =
    if b = w.activities.length then some role else w.role? b := by
  rw [role?_eq, post?_add, role?_eq]
  split <;> rfl

theorem calls_add (b : ActivityId) : (w.add role).1.calls b =
    w.calls b ++ (Call.calledOff? b (.move w.activities.length false)).toList :=
  calls_call { w with activities := _ } b _

variable {w}

theorem ne_next {b : ActivityId} {p : Post} (hp : w.post? b = some p) :
    b ≠ w.activities.length := by
  rintro rfl
  rw [nobody_next] at hp
  cases hp

theorem ne_next_of_role {b : ActivityId} {known : Role} (h : w.role? b = some known) :
    b ≠ w.activities.length := by
  obtain ⟨p, hp, -⟩ := Option.map_eq_some_iff.mp ((role?_eq w b).symm.trans h)
  exact ne_next hp

theorem post_of_add {b : ActivityId} {p : Post} (hp : w.post? b = some p) :
    (w.add role).1.post? b = some p := by
  rw [post?_add, if_neg (ne_next hp), hp]

theorem role_of_add {b : ActivityId} {known : Role} (h : w.role? b = some known) :
    (w.add role).1.role? b = some known := by
  rw [role?_add, if_neg (ne_next_of_role h), h]

theorem add_extends : (w.add role).1.plan.Extends w.plan :=
  plan_extends rfl rfl id (role_of_add role)

/-- Everybody stays calm when somebody new comes to make a run or to own a round. -/
theorem calmAt_add (each : ∀ b, w.CalmAt b)
    (hrole : role.job?.isSome = true ∨ ∃ r, role = .round r) (b : ActivityId) :
    (w.add role).1.CalmAt b := by
  by_cases hb : b = w.activities.length
  · refine ⟨fun calledOff hmem => ?_, fun p hp => ?_⟩
    · rw [calls_add, Call.calledOff?, if_pos hb.symm] at hmem
      rcases List.mem_append.mp hmem with hold | hnew
      · exact (each b).calls calledOff hold
      · simpa using hnew
    · rw [post?_add, if_pos hb] at hp
      cases hp
      exact ⟨rfl, hrole.imp_right fun h => ⟨h, rfl⟩, (fun _ h => by cases h),
        fun _ _ h => by cases h⟩
  · refine Stays.calmAt ⟨fun calledOff hmem => ?_, ?_⟩ (add_extends role) (each b)
    · rw [calls_add, Call.calledOff?, if_neg (Ne.symm hb)] at hmem
      exact .inl (by simpa using hmem)
    · rw [post?_add, if_neg hb]

end

section

variable (w : Intake) (r : RoundId) (spec : JobSpec) (supplier : SupplierId)

theorem role?_addMember (b : ActivityId) : (w.addMember r spec supplier).role? b =
    if b = w.activities.length then some (.member r w.jobs.length) else w.role? b :=
  role?_add (w.addJob spec supplier).1 _ b

theorem post_of_addMember {b : ActivityId} {p : Post} (hp : w.post? b = some p) :
    (w.addMember r spec supplier).post? b = some p :=
  post_of_add (w := (w.addJob spec supplier).1) _ hp

theorem role_of_addMember {b : ActivityId} {role : Role} (h : w.role? b = some role) :
    (w.addMember r spec supplier).role? b = some role :=
  role_of_add (w := (w.addJob spec supplier).1) _ h

theorem jobSpecs_addMember :
    (w.addMember r spec supplier).jobSpecs = w.jobSpecs ++ [(spec, supplier)] := by
  show (w.jobs ++ [_]).map _ = _
  rw [List.map_append]
  rfl

theorem rosters_addMember : (w.addMember r spec supplier).rosters = w.rosters.modify r fun x =>
    { x with members := x.members ++ [w.activities.length] } :=
  List.map_modify (by exact fun _ => rfl) w.rounds r

theorem job_of_addMember {j : JobId} {job : JobSpec × SupplierId}
    (h : w.jobSpecs[j]? = some job) : (w.addMember r spec supplier).jobSpecs[j]? = some job := by
  rw [jobSpecs_addMember, List.getElem?_append_left (List.getElem?_eq_some_iff.mp h).choose, h]

theorem addMember_extends : (w.addMember r spec supplier).plan.Extends w.plan :=
  plan_extends rfl rfl (job_of_addMember w r spec supplier) (role_of_addMember w r spec supplier)

end

end Intake

theorem Uncalled.addMember {w : Intake} (uncalled : Uncalled w) {r : RoundId}
    (hr : r < w.rosters.length) (spec : JobSpec) (supplier : SupplierId) :
    Uncalled (w.addMember r spec supplier) := by
  refine uncalled.keep ?_ (fun b role hrole => ?_) fun b => ?_
  · rw [rosters_addMember]
    exact List.map_modify_of_unseen (by exact fun _ => rfl) w.rosters r
  · rw [role?_addMember] at hrole
    split at hrole
    · cases hrole
      refine .inr ⟨fun _ h => (by cases h), fun r' j h => ?_⟩
      cases h
      exact hr
    · exact .inl hrole
  · have hjob (b : ActivityId) : (w.addJob spec supplier).1.CalmAt b := by
      have hstays : Stays b w (w.addJob spec supplier).1 := ⟨fun _ h => .inl h, rfl⟩
      exact hstays.calmAt (plan_extends rfl rfl (job_of_addMember w r spec supplier) id)
        (uncalled.each b)
    have hmember := calmAt_add (.member r w.jobs.length) hjob (.inl rfl) b
    exact ⟨hmember.calls, hmember.post⟩

/-! ## What is settled -/

/-- No suppliers and no rounds are added, and those who come are members of rounds. The queue fails
puts with the fault with which it did, if it fails any. -/
structure Settled (w w' : Intake) : Prop where
  suppliers : w'.suppliers = w.suppliers
  web : w'.web = w.web
  refuses : w'.queue.refuses = w.queue.refuses
  rounds : w'.rosters.length = w.rosters.length
  crew : ∀ {b role}, w'.role? b = some role → w.role? b = some role ∨ ∃ r j, role = .member r j

namespace Settled

variable {w u w' : Intake}

theorem trans (h : Settled w u) (h' : Settled u w') : Settled w w' where
  suppliers := h'.suppliers.trans h.suppliers
  web := h'.web.trans h.web
  refuses := h'.refuses.trans h.refuses
  rounds := h'.rounds.trans h.rounds
  crew := fun hb => (h'.crew hb).elim h.crew .inr

theorem of_outline (houtline : w'.outline = w.outline) (hroles : ∀ b, w'.role? b = w.role? b) :
    Settled w w' where
  suppliers := congrArg Outline.suppliers houtline
  web := congrArg Outline.web houtline
  refuses := congrArg Outline.refuses houtline
  rounds := congrArg List.length (congrArg Outline.rosters houtline)
  crew := fun {b _} hb => .inl ((hroles b).symm.trans hb)

theorem log (w : Intake) (entries : List LogEntry) : Settled w (w.log entries) :=
  .of_outline rfl fun _ => rfl

theorem onRound (w : Intake) (r : RoundId) (f : Round → Round) : Settled w (w.onRound r f) where
  suppliers := rfl
  web := rfl
  refuses := rfl
  rounds := by
    rw [rosters, rosters, List.length_map, List.length_map, Intake.onRound, List.length_modify]
  crew := .inl

theorem onActivity (w : Intake) (a : ActivityId) {f : Activity → Activity}
    (hf : ∀ x, (f x).role = x.role) : Settled w (w.onActivity a f) :=
  .of_outline rfl fun b => role?_onActivity w a b hf

theorem addMember (w : Intake) (r : RoundId) (spec : JobSpec) (supplier : SupplierId) :
    Settled w (w.addMember r spec supplier) where
  suppliers := rfl
  web := rfl
  refuses := rfl
  rounds := by rw [rosters_addMember, List.length_modify]
  crew := fun hb => by
    rw [role?_addMember] at hb
    split at hb
    · cases hb
      exact .inr ⟨r, w.jobs.length, rfl⟩
    · exact .inl hb

end Settled

/-! ## Rounds left alone -/

/-- A round is left as it is, and so is its owner. -/
structure Untouched (r : RoundId) (w w' : Intake) : Prop where
  roster : w'.rosters[r]? = w.rosters[r]?
  roles : ∀ {b role}, w.role? b = some role → w'.role? b = some role
  members : ∀ {m j}, w'.role? m = some (.member r j) → w.role? m = some (.member r j)
  jobs : ∀ {j : JobId} {job}, w.jobSpecs[j]? = some job → w'.jobSpecs[j]? = some job
  owner : ∀ {b p}, w.post? b = some p → p.role = .round r →
    ∃ p', w'.post? b = some p' ∧ p'.role = p.role ∧ p'.stage = p.stage

namespace Untouched

variable {r : RoundId} {w u w' : Intake} {a : ActivityId}

theorem refl (r : RoundId) (w : Intake) : Untouched r w w :=
  ⟨rfl, id, id, id, fun hp _ => ⟨_, hp, rfl, rfl⟩⟩

theorem trans (h : Untouched r w u) (h' : Untouched r u w') : Untouched r w w' where
  roster := h'.roster.trans h.roster
  roles := fun hb => h'.roles (h.roles hb)
  members := fun hm => h.members (h'.members hm)
  jobs := fun hj => h'.jobs (h.jobs hj)
  owner := fun hp hrole => by
    obtain ⟨p₁, hp₁, hrole₁, hstage₁⟩ := h.owner hp hrole
    obtain ⟨p', hp', hrole', hstage'⟩ := h'.owner hp₁ (hrole₁.trans hrole)
    exact ⟨p', hp', hrole'.trans hrole₁, hstage'.trans hstage₁⟩

theorem of_roles (hroster : w'.rosters[r]? = w.rosters[r]?) (hjobs : w'.jobSpecs = w.jobSpecs)
    (hroles : ∀ b, w'.role? b = w.role? b)
    (howner : ∀ b, w.role? b = some (.round r) → Stays b w w') : Untouched r w w' := by
  refine ⟨hroster, (hroles _).trans, (hroles _).symm.trans, fun h => hjobs ▸ h, ?_⟩
  intro b p hp hround
  exact (howner b (by rw [role?_eq, hp, Option.map_some, hround])).exists_post_after hp

/-- All stay where they are but one that does not own the round. -/
theorem but (houtline : w'.outline = w.outline) (hrole : w'.role? a = w.role? a)
    (hothers : ∀ b, b ≠ a → Stays b w w') (ha : w.role? a ≠ some (.round r)) :
    Untouched r w w' := by
  have hrosters : w'.rosters = w.rosters := congrArg Outline.rosters houtline
  refine of_roles (by rw [hrosters]) (congrArg Outline.jobs houtline) (fun b => ?_) fun b hb =>
    hothers b fun heq => ha (heq ▸ hb)
  by_cases hb : b = a
  · rw [hb, hrole]
  · exact (hothers b hb).role?

theorem of_stays (houtline : w'.outline = w.outline) (hall : ∀ b, Stays b w w') :
    Untouched r w w' := by
  have hrosters : w'.rosters = w.rosters := congrArg Outline.rosters houtline
  exact of_roles (by rw [hrosters]) (congrArg Outline.jobs houtline) (fun b => (hall b).role?)
    fun b _ => hall b

theorem addMember (w : Intake) {r' : RoundId} (h : r' ≠ r) (spec : JobSpec)
    (supplier : SupplierId) : Untouched r w (w.addMember r' spec supplier) where
  roster := by
    rw [rosters_addMember, List.getElem?_modify]
    cases w.rosters[r]? <;> simp [h]
  roles := role_of_addMember w r' spec supplier
  members := fun {m j} hm => by
    rw [role?_addMember] at hm
    split at hm
    · cases hm
      exact absurd rfl h
    · exact hm
  jobs := job_of_addMember w r' spec supplier
  owner := fun {b p} hp _ => ⟨p, post_of_addMember w r' spec supplier hp, rfl, rfl⟩

end Untouched

/-! ## What a round has come to -/

/-- The members of a round run these jobs, and there are no others. -/
structure Staffed (w : Intake) (r : RoundId) (members : List ActivityId)
    (jobs : List (JobSpec × SupplierId)) : Prop where
  each : List.Forall₂ (fun m job => ∃ j, w.role? m = some (.member r j) ∧
    w.jobSpecs[j]? = some job) members jobs
  all : ∀ m j, w.role? m = some (.member r j) → m ∈ members
  nodup : members.Nodup

/-- A member has ended with this result. -/
def Intake.EndedWith (w : Intake) (m : ActivityId) (result : RunResult) : Prop :=
  ∃ spec outcome, w.affairs.phase m = .ended spec result outcome

/-- What a round has come to when its owner is at a stage. -/
inductive RoundStage (w : Intake) (r : RoundId) (roster : Roster) : Stage → Prop where
  | fresh (hmembers : roster.members = []) (staffed : Staffed w r [] []) :
      RoundStage w r roster .fresh
  | gathering {since : Instant} (hsince : thresholdOf roster.spec.since = .ok since)
      (staffed : Staffed w r roster.members (roster.spec.jobs since)) :
      RoundStage w r roster .gathering
  | skipped (hempty : roster.spec.sources = []) (hmembers : roster.members = [])
      (hresults : roster.results = []) (staffed : Staffed w r [] []) :
      RoundStage w r roster (.finished .done)
  | done {since : Instant} (hsince : thresholdOf roster.spec.since = .ok since)
      (staffed : Staffed w r roster.members (roster.spec.jobs since))
      (hresults : List.Forall₂ w.EndedWith roster.members roster.results) :
      RoundStage w r roster (.finished .done)
  | broken (outcome : RunOutcome) (h : outcome ≠ .done) : RoundStage w r roster (.finished outcome)

def Intake.Hosts (w : Intake) (r : RoundId) (spec : RoundSpec) : Prop :=
  ∃ roster p, w.rosters[r]? = some roster ∧ roster.spec = spec ∧
    w.post? roster.owner = some p ∧ p.role = .round r ∧ RoundStage w r roster p.stage

namespace Staffed

variable {w w' : Intake} {r : RoundId} {members : List ActivityId}
  {jobs : List (JobSpec × SupplierId)}

theorem keep (h : Staffed w r members jobs)
    (hroles : ∀ {b role}, w.role? b = some role → w'.role? b = some role)
    (hmembers : ∀ {m j}, w'.role? m = some (.member r j) → w.role? m = some (.member r j))
    (hjobs : ∀ {j : JobId} {job}, w.jobSpecs[j]? = some job → w'.jobSpecs[j]? = some job) :
    Staffed w' r members jobs where
  each := List.Forall₂.imp (fun _ _ ⟨j, hrole, hjob⟩ => ⟨j, hroles hrole, hjobs hjob⟩) h.each
  all := fun m j hm => h.all m j (hmembers hm)
  nodup := h.nodup

theorem exists_role (h : Staffed w r members jobs) {m : ActivityId} (hm : m ∈ members) :
    ∃ j, w.role? m = some (.member r j) := by
  obtain ⟨i, hi, rfl⟩ := List.getElem_of_mem hm
  obtain ⟨j, hrole, -⟩ := h.each.get hi (h.each.length_eq ▸ hi)
  exact ⟨j, hrole⟩

theorem addMember (h : Staffed w r members jobs) (spec : JobSpec) (supplier : SupplierId) :
    Staffed (w.addMember r spec supplier) r (members ++ [w.activities.length])
      (jobs ++ [(spec, supplier)]) where
  each := by
    refine List.rel_append ?_ (.cons ⟨w.jobs.length, ?_, ?_⟩ .nil)
    · exact List.Forall₂.imp (fun _ _ ⟨j, hrole, hjob⟩ =>
        ⟨j, role_of_addMember w r spec supplier hrole,
          job_of_addMember w r spec supplier hjob⟩) h.each
    · rw [role?_addMember, if_pos rfl]
    · have hlength : w.jobSpecs.length = w.jobs.length := List.length_map _
      rw [jobSpecs_addMember, ← hlength, List.getElem?_concat_length]
  all := fun m j hm => by
    rw [role?_addMember] at hm
    split at hm
    · rename_i hlast
      simp [hlast]
    · exact List.mem_append_left _ (h.all m j hm)
  nodup := by
    refine List.nodup_append.mpr ⟨h.nodup, List.pairwise_singleton _ _, fun m hm next hnext => ?_⟩
    -- A member has a role, and nobody has one yet at the next place.
    obtain ⟨j, hrole⟩ := h.exists_role hm
    rw [List.mem_singleton.mp hnext]
    exact ne_next_of_role hrole

end Staffed

/-- The induction is on the sources for which there is no member yet. -/
theorem staffed_staff {w : Intake} {r : RoundId} {roster : Roster}
    (hr : w.rosters[r]? = some roster) (h : Staffed w r roster.members []) (spec : RoundSpec)
    (since : Instant) :
    ∃ members, (w.staff r spec since).rosters[r]? = some { roster with members } ∧
      Staffed (w.staff r spec since) r members (spec.jobs since) := by
  rw [← List.nil_append (spec.jobs since)]
  unfold staff RoundSpec.jobs
  generalize ([] : List (JobSpec × SupplierId)) = jobs at *
  generalize spec.sources = sources
  induction sources generalizing w roster jobs with
  | nil => exact ⟨roster.members, hr, by rw [List.map_nil, List.append_nil]; exact h⟩
  | cons source sources ih =>
      have hr' : (w.addMember r (spec.jobFor since source) spec.supplier).rosters[r]? =
          some { roster with members := roster.members ++ [w.activities.length] } := by
        rw [rosters_addMember, List.getElem?_modify, hr]
        simp
      obtain ⟨members, hmembers, staffed⟩ :=
        ih hr' _ (h.addMember (spec.jobFor since source) spec.supplier)
      refine ⟨members, hmembers, ?_⟩
      rw [List.append_assoc] at staffed
      exact staffed

theorem RoundStage.keep {w w' : Intake} {r : RoundId} {roster : Roster} {stage : Stage}
    (h : RoundStage w r roster stage) (untouched : Untouched r w w')
    (hended : ∀ m result, w.EndedWith m result → w'.EndedWith m result) :
    RoundStage w' r roster stage := by
  have keeps {members : List ActivityId} {jobs : List (JobSpec × SupplierId)}
      (staffed : Staffed w r members jobs) : Staffed w' r members jobs :=
    staffed.keep untouched.roles untouched.members untouched.jobs
  cases h with
  | fresh hmembers staffed => exact .fresh hmembers (keeps staffed)
  | gathering hsince staffed => exact .gathering hsince (keeps staffed)
  | skipped hempty hmembers hresults staffed =>
      exact .skipped hempty hmembers hresults (keeps staffed)
  | done hsince staffed hresults =>
      exact .done hsince (keeps staffed) (List.Forall₂.imp (fun _ _ => hended _ _) hresults)
  | broken outcome h => exact .broken outcome h

theorem Intake.Hosts.keep {w w' : Intake} {r : RoundId} {spec : RoundSpec} (hosts : w.Hosts r spec)
    (untouched : Untouched r w w')
    (hended : ∀ m result, w.EndedWith m result → w'.EndedWith m result) : w'.Hosts r spec := by
  obtain ⟨roster, p, hr, hspec, hp, hrole, stage⟩ := hosts
  obtain ⟨p', hp', hrole', hstage'⟩ := untouched.owner hp hrole
  refine ⟨roster, p', untouched.roster.trans hr, hspec, hp', hrole'.trans hrole, ?_⟩
  rw [hstage']
  exact stage.keep untouched hended

/-- The owner of a round has ended, and this is what has become of the round. -/
def Intake.Closed (w : Intake) (r : RoundId) (roster : Roster) (outcome : RunOutcome) : Prop :=
  ∃ p, w.rosters[r]? = some roster ∧ w.post? roster.owner = some p ∧ p.role = .round r ∧
    p.stage = .finished outcome

theorem Intake.Closed.keep {w w' : Intake} {r : RoundId} {roster : Roster} {outcome : RunOutcome}
    (closed : w.Closed r roster outcome) (untouched : Untouched r w w') :
    w'.Closed r roster outcome := by
  obtain ⟨p, hr, hp, hrole, hstage⟩ := closed
  obtain ⟨p', hp', hrole', hstage'⟩ := untouched.owner hp hrole
  exact ⟨p', untouched.roster.trans hr, hp', hrole'.trans hrole, hstage'.trans hstage⟩

theorem Affairs.Turn.ne_of_ended {s t : Affairs} {a b : ActivityId} {job spec : JobSpec}
    (turn : Turn b job s t) {r : RunResult} {outcome : RunOutcome}
    (h : s.phase a = .ended spec r outcome) : a ≠ b := by
  rintro rfl
  cases turn with
  | stop stop =>
      rw [h] at stop
      cases stop
  | begin _ hp | fetch _ hp | reject hp | offer hp | put hp | conclude _ hp =>
      rw [h] at hp
      cases hp

theorem Affairs.Course.phase_of_ended {s t : Affairs} (course : Course s t) {a : ActivityId}
    {spec : JobSpec} {r : RunResult} {outcome : RunOutcome}
    (h : s.phase a = .ended spec r outcome) : t.phase a = .ended spec r outcome := by
  induction course with
  | refl => exact h
  | tail _ step ih =>
      rcases step with ⟨b, job, turn⟩ | take
      · rw [turn.phase_of_ne (turn.ne_of_ended ih), ih]
      · rw [take.phase, ih]

/-! ## Moves of owners -/

namespace Intake

section

variable {w : Intake} {a : ActivityId}

theorem enter_stays {b : ActivityId} (hb : b ≠ a) (stage : Stage) : Stays b w (w.enter a stage) :=
  ⟨fun _ h => .inl h, by rw [enter, post?_onActivity_of_ne w a b hb]⟩

theorem suspend_stays {b : ActivityId} (hb : b ≠ a) (stage : Stage) :
    Stays b w (w.suspend a stage) :=
  ⟨fun _ h => .inl h, by rw [suspend, post?_onActivity_of_ne w a b hb]⟩

/-- The result of somebody who has ended, as the owner of its round finds it. -/
theorem endedWith_of_account {m : ActivityId} {result : RunResult} {entries : List LogEntry}
    (h : w.account m = some (result, entries)) {spec : JobSpec} (hs : w.specOf? m = some spec) :
    w.EndedWith m result := by
  obtain ⟨x, hx, haccount⟩ := Option.bind_eq_some_iff.mp h
  have hends {outcome : RunOutcome} (hstage : x.stage = .finished outcome)
      (hresult : x.result = some result) : w.EndedWith m result := by
    refine ⟨spec, outcome, phase_of_outcome? w m hs ?_ ?_⟩
    · rw [result?, hx, Option.bind_some, hresult]
    · rw [outcome?, hx, Option.bind_some, hstage]
  split at haccount
  · rename_i hstage hresult
    cases haccount
    exact hends hstage hresult
  · rename_i hstage hresult
    cases haccount
    exact hends hstage hresult
  · cases haccount

theorem ended_of_accounts {members : List ActivityId} {results : List RunResult}
    (h : (w.accounts members).2 = some results)
    (hspecs : ∀ m ∈ members, ∃ spec, w.specOf? m = some spec) :
    List.Forall₂ w.EndedWith members results := by
  induction members generalizing results with
  | nil =>
      cases h
      exact .nil
  | cons m rest ih =>
      unfold accounts at h
      split at h
      · cases h
      · rename_i result entries haccount
        dsimp only at h
        obtain ⟨others, hothers, rfl⟩ := Option.map_eq_some_iff.mp h
        obtain ⟨spec, hs⟩ := hspecs m List.mem_cons_self
        exact .cons (endedWith_of_account haccount hs)
          (ih hothers fun m hm => hspecs m (List.mem_cons_of_mem _ hm))

end

end Intake

theorem Staffed.exists_spec {w : Intake} {r : RoundId} {members : List ActivityId}
    {jobs : List (JobSpec × SupplierId)} (h : Staffed w r members jobs) {m : ActivityId}
    (hm : m ∈ members) : ∃ spec, w.specOf? m = some spec := by
  obtain ⟨i, hi⟩ := List.getElem?_of_mem hm
  have hlt := (List.getElem?_eq_some_iff.mp hi).choose
  have hlt' : i < jobs.length := h.each.length_eq ▸ hlt
  obtain ⟨j, hrole, hjob⟩ := h.each.get hlt hlt'
  rw [List.get_eq_getElem, (List.getElem?_eq_some_iff.mp hi).choose_spec] at hrole
  exact ⟨_, specOf?_of_member hrole hjob⟩

/-- An owner comes to a stage where owners can be. -/
theorem Uncalled.place {w w' : Intake} {a : ActivityId} (uncalled : Uncalled w)
    (houtline : w'.outline = w.outline) (hothers : ∀ b, b ≠ a → Stays b w w')
    (hcalls : w'.calls a = w.calls a) {p q : Post} (hp : w.post? a = some p)
    (hq : w'.post? a = some q) {r : RoundId} (hround : p.role = .round r)
    (hrole : q.role = p.role) (hstopping : q.stopping = p.stopping)
    (hstage : q.stage.isOwners = true) : Uncalled w' := by
  have hroles : w'.role? a = w.role? a := by
    rw [role?_eq, role?_eq, hp, hq, Option.map_some, Option.map_some, hrole]
  refine uncalled.but houtline hroles hothers ⟨hcalls ▸ (uncalled.each a).calls, fun q' hq' => ?_⟩
  rw [hq] at hq'
  cases hq'
  exact Post.isCalm_of_isOwners (hstopping.trans ((uncalled.each a).post p hp).going)
    (.inr ⟨r, hrole.trans hround⟩) hstage

theorem Uncalled.enter {w : Intake} {a : ActivityId} (uncalled : Uncalled w) {p : Post}
    (hp : w.post? a = some p) {r : RoundId} (hround : p.role = .round r) {stage : Stage}
    (hstage : stage.isOwners = true) : Uncalled (w.enter a stage) :=
  uncalled.place rfl (fun _ hb => enter_stays hb stage) rfl hp (post?_enter hp stage) hround rfl rfl
    hstage

theorem Uncalled.suspend {w : Intake} {a : ActivityId} (uncalled : Uncalled w) {p : Post}
    (hp : w.post? a = some p) {r : RoundId} (hround : p.role = .round r) {stage : Stage}
    (hstage : stage.isOwners = true) : Uncalled (w.suspend a stage) :=
  uncalled.place rfl (fun _ hb => suspend_stays hb stage) rfl hp (post?_suspend hp stage) hround rfl
    rfl hstage

theorem Uncalled.onRound {w : Intake} (uncalled : Uncalled w) (r : RoundId) {f : Round → Round}
    (h : ∀ x, (f x).roster.frame = x.roster.frame) : Uncalled (w.onRound r f) := by
  refine uncalled.keep ?_ (fun _ _ hrole => .inl hrole) fun b => ⟨(uncalled.each b).calls,
    (uncalled.each b).post⟩
  show ((w.rounds.modify r f).map Round.roster).map Roster.frame =
    (w.rounds.map Round.roster).map Roster.frame
  rw [List.map_map, List.map_map]
  exact List.map_modify_of_unseen h w.rounds r

theorem Uncalled.log {w : Intake} (uncalled : Uncalled w) (entries : List LogEntry) :
    Uncalled (w.log entries) :=
  uncalled.of_stays rfl fun _ => ⟨fun _ h => .inl h, rfl⟩

namespace Untouched

variable {w : Intake} {a : ActivityId} {r r' : RoundId}

theorem log (r : RoundId) (w : Intake) (entries : List LogEntry) : Untouched r w (w.log entries) :=
  .of_stays rfl fun _ => ⟨fun _ h => .inl h, rfl⟩

theorem onRound (w : Intake) (hne : r' ≠ r) (f : Round → Round) :
    Untouched r' w (w.onRound r f) := by
  refine .of_roles ?_ rfl (fun _ => rfl) fun _ _ => ⟨fun _ h => .inl h, rfl⟩
  rw [rosters, rosters, Intake.onRound, List.getElem?_map, List.getElem?_map, List.getElem?_modify]
  cases w.rounds[r']? <;> simp [Ne.symm hne]

theorem enter (ha : w.role? a ≠ some (.round r)) (stage : Stage) :
    Untouched r w (w.enter a stage) :=
  .but rfl (role?_onActivity w a a fun _ => rfl) (fun _ hb => enter_stays hb stage) ha

theorem suspend (ha : w.role? a ≠ some (.round r)) (stage : Stage) :
    Untouched r w (w.suspend a stage) :=
  .but rfl (role?_onActivity w a a fun _ => rfl) (fun _ hb => suspend_stays hb stage) ha

end Untouched

/-! ## Staffing -/

section

variable {w : Intake} {a : ActivityId} {r : RoundId} {p : Post}

theorem lt_rosters {round : Round} (hr : w.rounds[r]? = some round) : r < w.rosters.length := by
  rw [rosters, List.length_map]
  exact (List.getElem?_eq_some_iff.mp hr).choose

/-- What new members leave as it was. -/
structure Manned (r : RoundId) (w w' : Intake) : Prop where
  post : ∀ {a p}, w.post? a = some p → w'.post? a = some p
  plan_extends : w'.plan.Extends w.plan
  uncalled : Uncalled w → Uncalled w'
  untouched : ∀ {r'}, r' ≠ r → Untouched r' w w'
  settled : Settled w w'

theorem manned_addMember (w : Intake) (hr : r < w.rosters.length) (spec : JobSpec)
    (supplier : SupplierId) : Manned r w (w.addMember r spec supplier) where
  post := fun hp => post_of_addMember w r spec supplier hp
  plan_extends := addMember_extends w r spec supplier
  uncalled := fun uncalled => uncalled.addMember hr spec supplier
  untouched := fun h => .addMember w (Ne.symm h) spec supplier
  settled := .addMember w r spec supplier

theorem Manned.trans {u w' : Intake} (h : Manned r w u) (h' : Manned r u w') : Manned r w w' where
  post := fun hp => h'.post (h.post hp)
  plan_extends := h'.plan_extends.trans h.plan_extends
  uncalled := fun uncalled => h'.uncalled (h.uncalled uncalled)
  untouched := fun hne => (h.untouched hne).trans (h'.untouched hne)
  settled := h.settled.trans h'.settled

theorem manned_staff (w : Intake) (hr : r < w.rosters.length) (spec : RoundSpec) (since : Instant) :
    Manned r w (w.staff r spec since) := by
  unfold staff
  generalize spec.sources = sources
  induction sources generalizing w with
  | nil =>
      exact ⟨id, .refl _, id, fun {r'} _ => .refl r' w, .of_outline rfl fun _ => rfl⟩
  | cons source sources ih =>
      have hr' : r < (w.addMember r (spec.jobFor since source) spec.supplier).rosters.length := by
        rw [rosters_addMember, List.length_modify]
        exact hr
      exact (manned_addMember w hr _ spec.supplier).trans (ih _ hr')

theorem manned_begin {round : Round} (hr : w.rounds[r]? = some round) (entries : List LogEntry)
    (permits : Permits) (spec : RoundSpec) (since : Instant) :
    Manned r w (((w.log entries).onRound r fun x => { x with permits }).staff r spec since) := by
  have hrosters : ((w.log entries).onRound r fun x => { x with permits }).rosters = w.rosters :=
    List.map_modify_of_unseen (by exact fun _ => rfl) w.rounds r
  have hprepared : Manned r w ((w.log entries).onRound r fun x => { x with permits }) := {
    post := id
    plan_extends := plan_extends rfl rfl id id
    uncalled := fun uncalled => (uncalled.log entries).onRound r (by exact fun _ => rfl)
    untouched := fun {r'} hne => (Untouched.log r' w entries).trans (.onRound _ hne _)
    settled := (Settled.log w entries).trans (.onRound _ r _) }
  exact hprepared.trans (manned_staff _ (hrosters ▸ lt_rosters hr) spec since)

end

namespace OwnerMove

variable {w w' : Intake} {a : ActivityId} {r : RoundId} {p : Post}

theorem uncalled {stage : Stage} (move : OwnerMove a r w stage w') (uncalled : Uncalled w)
    (hp : w.post? a = some p) (hround : p.role = .round r) : Uncalled w' := by
  cases move with
  | rest => exact uncalled
  | breaks entries h => exact (uncalled.log entries).enter hp hround rfl
  | skips hr hempty => exact (uncalled.onRound r (by exact fun _ => rfl)).enter hp hround rfl
  | begins entries hr _ _ hsince =>
      have manned := manned_begin hr entries
      exact ((manned _ _ _).uncalled uncalled).suspend ((manned _ _ _).post hp) hround rfl
  | gathers entries hr hresults =>
      exact ((uncalled.log entries).onRound r (by exact fun _ => rfl)).enter hp hround rfl

theorem plan_extends {stage : Stage} (move : OwnerMove a r w stage w') :
    w'.plan.Extends w.plan := by
  have honActivity (v : Intake) {f : Activity → Activity} (h : ∀ x, (f x).role = x.role) :
      (v.onActivity a f).plan.Extends v.plan :=
    plan_extends_of_outline rfl fun b => role?_onActivity v a b h
  cases move with
  | rest => exact .refl _
  | breaks entries h => exact honActivity (w.log entries) (by exact fun _ => rfl)
  | skips hr hempty => exact honActivity (w.onRound r _) (by exact fun _ => rfl)
  | begins entries hr _ _ hsince =>
      exact (honActivity _ (by exact fun _ => rfl)).trans
        (manned_begin hr entries _ _ _).plan_extends
  | gathers entries hr hresults =>
      exact honActivity ((w.log entries).onRound r _) (by exact fun _ => rfl)

theorem eq_of_finished {outcome : RunOutcome} (move : OwnerMove a r w (.finished outcome) w') :
    w' = w := by
  cases move with
  | rest => rfl
  | breaks _ h => cases h

theorem settled {stage : Stage} (move : OwnerMove a r w stage w') : Settled w w' := by
  cases move with
  | rest => exact .of_outline rfl fun _ => rfl
  | breaks entries h =>
      exact (Settled.log w entries).trans (.onActivity _ a fun _ => rfl)
  | skips hr hempty => exact (Settled.onRound w r _).trans (.onActivity _ a fun _ => rfl)
  | begins entries hr _ _ hsince =>
      exact (manned_begin hr entries _ _ _).settled.trans (.onActivity _ a fun _ => rfl)
  | gathers entries hr hresults =>
      exact ((Settled.log w entries).trans (.onRound _ r _)).trans (.onActivity _ a fun _ => rfl)

theorem untouched {stage : Stage} (move : OwnerMove a r w stage w') (hp : w.post? a = some p)
    (hround : p.role = .round r) {r' : RoundId} (hne : r' ≠ r) : Untouched r' w w' := by
  have hother {v : Intake} (hv : v.post? a = some p) : v.role? a ≠ some (.round r') := by
    rw [role?_eq, hv, Option.map_some, hround]
    exact fun heq => hne (Role.round.inj (Option.some.inj heq)).symm
  cases move with
  | rest => exact .refl r' w
  | breaks entries h =>
      exact (Untouched.log r' w entries).trans (.enter (hother (v := w.log entries) hp) _)
  | skips hr hempty =>
      exact (Untouched.onRound w hne _).trans (.enter (hother (v := w.onRound r _) hp) _)
  | begins entries hr _ _ hsince =>
      have manned := manned_begin hr entries
      exact ((manned _ _ _).untouched hne).trans (.suspend (hother ((manned _ _ _).post hp)) _)
  | gathers entries hr hresults =>
      exact ((Untouched.log r' w entries).trans (.onRound _ hne _)).trans
        (.enter (hother (v := (w.log entries).onRound r _) hp) _)

theorem hosts {stage : Stage} (move : OwnerMove a r w stage w') {spec : RoundSpec}
    (hp : w.post? a = some p) (hstage : p.stage = stage)
    (howner : ∀ roster, w.rosters[r]? = some roster → roster.owner = a) (hosts : w.Hosts r spec)
    (hended : ∀ m result, w.EndedWith m result → w'.EndedWith m result) : w'.Hosts r spec := by
  obtain ⟨roster, q, hroster, hspec, hq, hround, hhosts⟩ := hosts
  cases howner roster hroster
  rw [hp] at hq
  cases hq
  rw [hstage] at hhosts
  have hroundOf {round : Round} (hr : w.rounds[r]? = some round) : round.roster = roster := by
    rw [rosters, List.getElem?_map, hr, Option.map_some] at hroster
    exact Option.some.inj hroster
  have hrosterOf {f : Round → Round} {g : Roster → Roster}
      (h : ∀ x, (f x).roster = g x.roster) (v : Intake) (hv : v.rosters = w.rosters) :
      (v.onRound r f).rosters[r]? = some (g roster) := by
    have hmap : (v.onRound r f).rosters = v.rosters.modify r g := List.map_modify h v.rounds r
    rw [hmap, List.getElem?_modify, hv, hroster]
    simp
  have hkeep {v : Intake} {members : List ActivityId} {jobs : List (JobSpec × SupplierId)}
      {f : Activity → Activity} (hf : ∀ x, (f x).role = x.role)
      (staffed : Staffed v r members jobs) :
      Staffed (v.onActivity roster.owner f) r members jobs :=
    staffed.keep ((role?_onActivity v _ _ hf).trans) ((role?_onActivity v _ _ hf).symm.trans) id
  cases move with
  | rest => exact ⟨roster, p, hroster, hspec, hp, hround, hstage ▸ hhosts⟩
  | breaks entries h =>
      exact ⟨roster, _, hroster, hspec, post?_enter (w := w.log entries) hp _, hround,
        .broken _ h.ne_done⟩
  | skips hr hempty =>
      cases hhosts with
      | fresh hmembers staffed =>
          refine ⟨_, _, hrosterOf (g := fun x => { x with results := [] }) (by exact fun _ => rfl) w
            rfl, hspec, post?_enter (w := w.onRound r _) hp _, hround, .skipped ?_ hmembers rfl
            (hkeep (v := w.onRound r _) (by exact fun _ => rfl) (staffed.keep id id id))⟩
          rw [← hroundOf hr] at hspec ⊢
          exact hempty
  | @begins round since entries hr _ _ hsince =>
      cases hhosts with
      | fresh hmembers staffed =>
          generalize Permits.ofCount round.spec.limit.toNat = permits
          have hprepared : Staffed ((w.log entries).onRound r fun x => { x with permits }) r
              roster.members [] := hmembers ▸ staffed.keep id id id
          obtain ⟨members, hmade, hfull⟩ := staffed_staff (hrosterOf (g := id)
            (by exact fun _ => rfl) (w.log entries) rfl) hprepared roster.spec since
          have manned := manned_begin hr entries permits
          have hsame : round.spec = roster.spec := congrArg Roster.spec (hroundOf hr)
          rw [hsame] at hsince ⊢
          exact ⟨_, _, hmade, hspec, post?_suspend ((manned _ _).post hp) _, hround,
            .gathering hsince (hkeep (by exact fun _ => rfl) hfull)⟩
  | @gathers round results entries hr hresults =>
      cases hhosts with
      | gathering hsince staffed =>
          have hmembers : round.members = roster.members := congrArg Roster.members (hroundOf hr)
          have hends := ended_of_accounts hresults fun m hm => staffed.exists_spec (hmembers ▸ hm)
          rw [hmembers] at hends
          refine ⟨_, _, hrosterOf (g := fun x => { x with results }) (by exact fun _ => rfl)
            (w.log entries) rfl, hspec, post?_enter (w := (w.log entries).onRound r _) hp _, hround,
            .done hsince ?_ (List.Forall₂.imp (fun _ _ => hended _ _) hends)⟩
          exact hkeep (v := (w.log entries).onRound r _) (by exact fun _ => rfl)
            (staffed.keep id id id)

end OwnerMove

end FeedIntake
