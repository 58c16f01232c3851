import FeedIntake.Proofs.Apart
import FeedIntake.Proofs.Lending

/-! # The conduct of a round

A round that nobody interferes with has lent its permits to its members, and its owner knows of each
end or is about to. It waits until all members have ended, whatever came of them, and ends itself
then. It is cancelled only where the fetch of a member or the queue raises a cancellation, and it
fails only where it could not begin.
-/

namespace FeedIntake

open Intake
open Time (DateTime Instant)

/-- Why a round that has sources cannot begin to read them. -/
inductive RoundSpec.Declines (spec : RoundSpec) : Fault → Prop where
  | limit (h : spec.limit < 0) :
      Declines spec (.outside .value "Semaphore initial value must be >= 0")
  | threshold {fault : Fault} (hlimit : 0 ≤ spec.limit)
      (h : thresholdOf spec.since = .error fault) : Declines spec fault

theorem Staffed.mem_of_post {w : Intake} {r : RoundId} {members : List ActivityId}
    {jobs : List (JobSpec × SupplierId)} (h : Staffed w r members jobs) {m : ActivityId} {p : Post}
    (hp : w.post? m = some p) (hmember : p.role.isMemberOf r = true) : m ∈ members := by
  obtain ⟨j, hj⟩ := Role.isMemberOf_iff.mp hmember
  exact h.all m j (by rw [role?_eq, hp, Option.map_some, hj])

theorem Staffed.exists_post {w : Intake} {r : RoundId} {members : List ActivityId}
    {jobs : List (JobSpec × SupplierId)} (h : Staffed w r members jobs) {m : ActivityId}
    (hm : m ∈ members) : ∃ p, w.post? m = some p ∧ p.role.isMemberOf r = true := by
  obtain ⟨j, hrole⟩ := h.exists_role hm
  obtain ⟨p, hp, hpr⟩ := Option.map_eq_some_iff.mp ((role?_eq w m).symm.trans hrole)
  exact ⟨p, hp, Role.isMemberOf_iff.mpr ⟨j, hpr⟩⟩

/-- Midnight of the first day an hour east of UTC, when the calendar had not begun in UTC. -/
def beforeTime : DateTime :=
  { Instant.first.toDateTime with offset := some ⟨3600000000, by decide⟩ }

namespace Intake

/-- How things stand with a round when its owner is at a stage. -/
inductive Footing (w : Intake) (round : Round) (limit : Nat) : Stage → Prop where
  | fresh (members : round.members = []) : Footing w round limit .fresh
  | declined {fault : Fault} (sources : round.spec.sources ≠ []) (members : round.members = [])
      (h : round.spec.Declines fault) : Footing w round limit (.finished (.failed fault))
  | skipped (sources : round.spec.sources = []) (members : round.members = []) :
      Footing w round limit (.finished .done)
  | gathering {since : Instant} (hlimit : 0 ≤ round.spec.limit)
      (hsince : thresholdOf round.spec.since = .ok since)
      (staffed : Staffed w 0 round.members (round.spec.jobs since))
      (lent : limit = round.spec.limit.toNat) : Footing w round limit .gathering
  | closed {since : Instant} {outcome : RunOutcome} (hlimit : 0 ≤ round.spec.limit)
      (hsince : thresholdOf round.spec.since = .ok since)
      (staffed : Staffed w 0 round.members (round.spec.jobs since))
      (lent : limit = round.spec.limit.toNat)
      (all : round.members.length ≤ w.headcount 0 Stage.hasEnded)
      (h : outcome = .done ∨ outcome = .cancelled ∧ ∃ m r?, w.MayEnd m .cancelled r?) :
      Footing w round limit (.finished outcome)

/-- What the owner of a round may be due for: to begin, once, or to go on when all have ended. -/
def Due (w : Intake) (round : Round) : Stage → Prop
  | .fresh => (w.calls round.owner).length ≤ 1
  | .gathering => w.calls round.owner ≠ [] → round.ended = round.members.length
  | _ => True

structure Fares (w : Intake) (m : ActivityId) (stage : Stage) : Prop where
  begun : stage.hasBegun = true → (w.result? m).isSome = true
  outcome : ∀ o, stage = .finished o → w.MayEnd m o (w.result? m)

/-- A round is the only one, and goes on as it is to. So many permits there are in all. -/
structure Conducts (w : Intake) (round : Round) (limit : Nat) : Prop where
  rounds : w.rounds = [round]
  crew : ∀ b p, w.post? b = some p → p.role = .round 0 ∨ p.role.isMemberOf 0 = true
  owner : ∃ p, w.post? round.owner = some p ∧ p.role = .round 0 ∧
    w.Footing round limit p.stage ∧ w.Due round p.stage
  unseated : w.seats round.owner = 0
  supplied : (w.suppliers[round.spec.supplier]?).isSome = true
  lends : w.Lends 0 round.permits limit
  staff : w.headcount 0 (fun _ => true) = round.members.length
  /-- An end is noted, or about to be. -/
  notes : round.ended + w.ready.count (.note 0) = w.headcount 0 Stage.hasEnded
  members : ∀ b p, w.post? b = some p → p.role.isMemberOf 0 = true → w.Fares b p.stage

section

variable {w w' : Intake} {a b : ActivityId} {round : Round} {limit : Nat} {stage : Stage}

theorem MayEnd.mono {outcome : RunOutcome} {r? : Option RunResult} (h : w.MayEnd b outcome r?)
    (hextends : w'.plan.Extends w.plan) (hrefuses : w'.queue.refuses = w.queue.refuses) :
    w'.MayEnd b outcome r? := by
  cases h with
  | done => exact .done r?
  | working spec fault failed => exact .working spec fault failed
  | asking h heq => exact .asking (hextends.answer h) heq
  | putting h hc => exact .putting (hrefuses.trans h) hc

theorem Fares.mono (h : w.Fares b stage) (hextends : w'.plan.Extends w.plan)
    (hrefuses : w'.queue.refuses = w.queue.refuses) (hresult : w'.result? b = w.result? b) :
    w'.Fares b stage where
  begun := fun h' => hresult ▸ h.begun h'
  outcome := fun o h' => hresult ▸ (h.outcome o h').mono hextends hrefuses

theorem fares_of_not_begun (h : stage.hasBegun = false) : w.Fares b stage where
  begun := fun h' => by
    rw [h] at h'
    cases h'
  outcome := fun o h' => by
    rw [h'] at h
    cases h

theorem Footing.keep (footing : w.Footing round limit stage) (permits : Permits) (ended : Nat)
    (results : List RunResult) (hroles : ∀ b, w'.role? b = w.role? b)
    (hjobs : w'.jobSpecs = w.jobSpecs) (hextends : w'.plan.Extends w.plan)
    (hrefuses : w'.queue.refuses = w.queue.refuses)
    (hended : w.headcount 0 Stage.hasEnded ≤ w'.headcount 0 Stage.hasEnded) :
    w'.Footing { round with permits, ended, results } limit stage := by
  have hstaffed {since : Instant} (staffed : Staffed w 0 round.members (round.spec.jobs since)) :
      Staffed w' 0 round.members (round.spec.jobs since) :=
    staffed.keep (hroles _).trans (hroles _).symm.trans fun h => hjobs ▸ h
  cases footing with
  | fresh members => exact .fresh members
  | declined sources members h => exact .declined sources members h
  | skipped sources members => exact .skipped sources members
  | gathering hlimit hsince staffed lent => exact .gathering hlimit hsince (hstaffed staffed) lent
  | closed hlimit hsince staffed lent all h =>
      exact .closed hlimit hsince (hstaffed staffed) lent (Nat.le_trans all hended)
        (h.imp_right fun ⟨houtcome, m, r?, hm⟩ => ⟨houtcome, m, r?, hm.mono hextends hrefuses⟩)

theorem Footing.keep_of_outline (footing : w.Footing round limit stage) (permits : Permits)
    (ended : Nat) (houtline : w'.outline = w.outline) (hroles : ∀ b, w'.role? b = w.role? b)
    (hended : w.headcount 0 Stage.hasEnded ≤ w'.headcount 0 Stage.hasEnded) :
    w'.Footing { round with permits, ended } limit stage :=
  footing.keep permits ended round.results hroles (congrArg Outline.jobs houtline)
    (plan_extends_of_outline houtline hroles) (congrArg Outline.refuses houtline) hended

theorem Due.keep (due : w.Due round stage) (permits : Permits)
    (hcalls : (w'.calls round.owner).length ≤ (w.calls round.owner).length) :
    w'.Due { round with permits } stage := by
  cases stage with
  | fresh => exact Nat.le_trans hcalls due
  | gathering =>
      refine fun hne => due fun hnone => hne ?_
      rw [hnone] at hcalls
      exact List.eq_nil_of_length_eq_zero (Nat.le_zero.mp hcalls)
  | _ => trivial

/-- The owner that is told of an end is due to go on if that was the last. Had it been due before,
there would be no end to be told of. -/
theorem Due.note (due : w.Due round stage) (footing : w.Footing round limit stage)
    (hopen : round.ended < round.members.length)
    (hcalls : (w'.calls round.owner).length = (w.calls round.owner).length ∨
      round.ended + 1 = round.members.length) :
    w'.Due { round with ended := round.ended + 1 } stage := by
  rcases hcalls with hsame | hlast
  · have hkept : w'.Due round stage := due.keep round.permits (Nat.le_of_eq hsame)
    cases stage with
    | fresh => exact hkept
    | gathering => exact fun hne => absurd (hkept hne) (Nat.ne_of_lt hopen)
    | _ => trivial
  · cases stage with
    | fresh =>
        cases footing with
        | fresh members => simp [members] at hlast
    | gathering => exact fun _ => hlast
    | _ => trivial

theorem Fares.arrive {p q : Post} (fares : w.Fares a p.stage)
    (arrives : Arrives a 0 (w.MayEnd a) w w' p q)
    (hself : (w.result? a).isSome = true → (w'.result? a).isSome = true)
    (hextends : w'.plan.Extends w.plan) (hrefuses : w'.queue.refuses = w.queue.refuses) :
    w'.Fares a q.stage where
  begun := fun h => (arrives.begun h).elim (fun hbefore => hself (fares.begun hbefore)) id
  outcome := fun o h => by
    refine MayEnd.mono ?_ hextends hrefuses
    rcases arrives.outcome o h with ⟨hbefore, hsame⟩ | hmay
    · exact hsame ▸ fares.outcome o hbefore
    · exact hmay

theorem exists_unaccounted {members : List ActivityId} (h : (w.accounts members).2 = none) :
    ∃ m ∈ members, w.account m = none := by
  induction members with
  | nil => cases h
  | cons m rest ih =>
      unfold accounts at h
      split at h
      · exact ⟨m, List.mem_cons_self, ‹_›⟩
      · dsimp only at h
        rw [Option.map_eq_none_iff] at h
        obtain ⟨other, hmem, hnone⟩ := ih h
        exact ⟨other, List.mem_cons_of_mem _ hmem, hnone⟩

structure Noted (round : Round) (w w' : Intake) : Prop where
  rounds : w'.rounds = [{ round with ended := round.ended + 1 }]
  others : ∀ b, b ≠ round.owner → w'.post? b = w.post? b
  calls : w'.calls round.owner = w.calls round.owner ∨ round.ended + 1 = round.members.length
  seats : ∀ b, w'.seats b = w.seats b
  notes : w'.ready.count (.note 0) = w.ready.count (.note 0)

theorem noted (hrounds : w.rounds = [round]) : Noted round w (w.note 0) := by
  have hnoted : w.note 0 = if round.ended + 1 = round.members.length then
      (({ w with rounds := [{ round with ended := round.ended + 1 }] } : Intake).onActivity
        round.owner fun x => { x with waiting := false }).call (.move round.owner round.stopping)
      else { w with rounds := [{ round with ended := round.ended + 1 }] } := by
    unfold note
    simp [onRound, hrounds]
  have hseats (b : ActivityId) :
      ({ w with rounds := [{ round with ended := round.ended + 1 }] } : Intake).seats b =
        w.seats b := by
    rw [seats_eq, seats_eq, hrounds]
    rfl
  rw [hnoted]
  split
  · rename_i hlast
    refine ⟨rfl, fun b hb => post?_onActivity_of_ne _ _ b hb _, .inr hlast, hseats, ?_⟩
    show (w.ready ++ [Call.move _ _]).count _ = _
    simp
  · exact ⟨rfl, fun _ _ => rfl, .inl rfl, hseats, rfl⟩

namespace Conducts

/-! ## Who stays where it is -/

theorem crew_of_stays (conducts : w.Conducts round limit) (stays : Stays b w w') {p' : Post}
    (hp' : w'.post? b = some p') : p'.role = .round 0 ∨ p'.role.isMemberOf 0 = true := by
  obtain ⟨p, hp, hrole, -⟩ := stays.exists_post hp'
  rw [hrole]
  exact conducts.crew b p hp

theorem fares_of_stays (conducts : w.Conducts round limit) (stays : Stays b w w')
    (hextends : w'.plan.Extends w.plan) (hrefuses : w'.queue.refuses = w.queue.refuses)
    (hresult : w'.result? b = w.result? b) {p' : Post} (hp' : w'.post? b = some p')
    (hmember : p'.role.isMemberOf 0 = true) : w'.Fares b p'.stage := by
  obtain ⟨p, hp, hrole, hstage, -⟩ := stays.exists_post hp'
  rw [hstage]
  exact (conducts.members b p hp (hrole ▸ hmember)).mono hextends hrefuses hresult

theorem owner_of_stays (conducts : w.Conducts round limit) (permits : Permits) (ended : Nat)
    (stays : Stays round.owner w w') (houtline : w'.outline = w.outline)
    (hroles : ∀ b, w'.role? b = w.role? b)
    (hended : w.headcount 0 Stage.hasEnded ≤ w'.headcount 0 Stage.hasEnded)
    (hdue : ∀ {stage}, w.Footing round limit stage → w.Due round stage →
      w'.Due { round with permits, ended } stage) :
    ∃ p, w'.post? round.owner = some p ∧ p.role = .round 0 ∧
      w'.Footing { round with permits, ended } limit p.stage ∧
      w'.Due { round with permits, ended } p.stage := by
  obtain ⟨p, hp, hrole, footing, due⟩ := conducts.owner
  obtain ⟨p', hp', hrole', hstage⟩ := stays.exists_post_after hp
  refine ⟨p', hp', hrole'.trans hrole, ?_⟩
  rw [hstage]
  exact ⟨footing.keep_of_outline permits ended houtline hroles hended, hdue footing due⟩

theorem supplied_of_outline (conducts : w.Conducts round limit)
    (houtline : w'.outline = w.outline) :
    (w'.suppliers[round.spec.supplier]?).isSome = true := by
  rw [show w'.suppliers = w.suppliers from congrArg Outline.suppliers houtline]
  exact conducts.supplied

theorem rounds_of_outline (conducts : w.Conducts round limit) (houtline : w'.outline = w.outline)
    {x : Round} (hr : w'.rounds[0]? = some x) : w'.rounds = [x] := by
  have hlength := congrArg List.length (congrArg Outline.rosters houtline)
  simp only [outline, rosters, List.length_map, conducts.rounds] at hlength
  obtain ⟨y, hy⟩ := List.length_eq_one_iff.mp hlength
  rw [hy] at hr ⊢
  cases hr
  rfl

theorem keep (conducts : w.Conducts round limit) (hrounds : w'.rounds = w.rounds)
    (houtline : w'.outline = w.outline) (hall : ∀ b, Stays b w w')
    (lends : w'.Lends 0 round.permits limit)
    (hcalls : (w'.calls round.owner).length ≤ (w.calls round.owner).length)
    (hseats : w'.seats round.owner = 0)
    (hnotes : w'.ready.count (.note 0) = w.ready.count (.note 0))
    (hresults : ∀ b, w'.result? b = w.result? b) : w'.Conducts round limit where
  rounds := hrounds.trans conducts.rounds
  crew := fun b _ hp' => conducts.crew_of_stays (hall b) hp'
  owner := conducts.owner_of_stays round.permits round.ended (hall round.owner) houtline
    (fun b => (hall b).role?) (Nat.le_of_eq (headcount_of_stays hall _).symm)
    fun _ due => due.keep round.permits hcalls
  unseated := hseats
  supplied := conducts.supplied_of_outline houtline
  lends := lends
  staff := (headcount_of_stays hall _).trans conducts.staff
  notes := by rw [hnotes, headcount_of_stays hall, conducts.notes]
  members := fun b _ hp' => conducts.fares_of_stays (hall b)
    (plan_extends_of_outline houtline fun b => (hall b).role?)
    (congrArg Outline.refuses houtline) (hresults b) hp'

theorem of_beside (conducts : w.Conducts round limit) (order : ∀ b, w.InOrder b)
    (hrounds : w'.rounds = w.rounds) (houtline : w'.outline = w.outline)
    (hall : ∀ b, Beside b w w') (hnotes : w'.ready.count (.note 0) = w.ready.count (.note 0))
    (hresults : ∀ b, w'.result? b = w.result? b) : w'.Conducts round limit := by
  obtain ⟨hcalls, hseats, -⟩ := (hall round.owner).of_unseated conducts.unseated
  have hr : w'.rounds[0]? = some round := by
    rw [hrounds, conducts.rounds]
    rfl
  exact conducts.keep hrounds houtline (fun b => .of_beside (hall b))
    (conducts.lends.of_beside order hall hr rfl) (Nat.le_of_eq (by rw [hcalls])) hseats hnotes
    hresults

theorem attend (conducts : w.Conducts round limit) (uncalled : Uncalled w)
    {before after : List Call} {calledOff : Bool}
    (hready : w.ready = before ++ .move a calledOff :: after) {p : Post}
    (hp : w.post? a = some p) : (w.attend a (before ++ after)).Conducts round limit := by
  obtain ⟨hpost, hstays⟩ := uncalled.attend hready hp
  have hposts : (w.attend a (before ++ after)).posts = w.posts := List.ext_getElem? fun b => by
    show (w.attend a (before ++ after)).post? b = w.post? b
    by_cases hb : b = a
    · rw [hb, hpost, hp]
    · exact post?_onActivity_of_ne _ a b hb _
  have hlength := length_calls_of_ready hready round.owner
  have hresult := result?_of_ledger (ledger_attend w a (before ++ after))
  refine conducts.keep rfl rfl hstays (conducts.lends.of_posts hposts) ?_ conducts.unseated
    (count_note_attend w hready 0) fun b => congrFun hresult b
  show (calls { w with ready := before ++ after } round.owner).length ≤ _
  omega

theorem ended_lt (conducts : w.Conducts round limit) (h : Call.note 0 ∈ w.ready) :
    round.ended < round.members.length := by
  have hcount := List.count_pos_iff.mpr h
  have hnotes := conducts.notes
  have hstaff := conducts.staff
  have hle := headcount_le (w := w) (r := 0) (f := Stage.hasEnded) (g := fun _ => true)
    fun _ _ => rfl
  omega

theorem note (conducts : w.Conducts round limit) (uncalled : Uncalled w) {before after : List Call}
    (hready : w.ready = before ++ .note 0 :: after) :
    (({ w with ready := before ++ after } : Intake).note 0).Conducts
      { round with ended := round.ended + 1 } limit := by
  have hstays := Uncalled.forget_stays hready
  have hforgot : Uncalled { w with ready := before ++ after } := uncalled.of_stays rfl hstays
  have hall (b : ActivityId) := (hstays b).trans (note_stays hforgot 0 b)
  have hroles (b : ActivityId) := (hall b).role?
  have houtline := outline_note { w with ready := before ++ after } 0
  have hresult := result?_of_ledger (ledger_note { w with ready := before ++ after } 0)
  have noted := noted (w := { w with ready := before ++ after }) conducts.rounds
  have hcounts (f : Stage → Bool) := headcount_of_stays (r := 0) hall f
  have hcalls : ((({ w with ready := before ++ after } : Intake).note 0).calls
      round.owner).length = (w.calls round.owner).length ∨
        round.ended + 1 = round.members.length :=
    noted.calls.imp_left fun hsame => by
      rw [hsame, length_calls_of_ready hready round.owner]
      rfl
  obtain ⟨p, hp, hrole, -⟩ := conducts.owner
  obtain ⟨q, hq, hrole', goes⟩ := conducts.owner_of_stays round.permits (round.ended + 1)
    (hall round.owner) houtline hroles (Nat.le_of_eq (hcounts _).symm) fun footing due =>
      due.note footing (conducts.ended_lt (by simp [hready])) hcalls
  exact {
    rounds := noted.rounds
    crew := fun b _ hp' => conducts.crew_of_stays (hall b) hp'
    owner := ⟨q, hq, hrole', goes⟩
    unseated := (noted.seats _).trans conducts.unseated
    supplied := conducts.supplied_of_outline houtline
    lends := conducts.lends.of_stranger noted.others hp hq (by rw [hrole]; rfl)
      (by rw [hrole']; rfl)
    staff := (hcounts _).trans conducts.staff
    notes := by
      rw [hcounts, noted.notes, ← conducts.notes, hready]
      simp [List.count_append, Nat.add_assoc, Nat.add_comm 1]
    members := fun b _ hp' => conducts.fares_of_stays (hall b)
      (plan_extends_of_outline houtline hroles) (congrArg Outline.refuses houtline)
      (congrFun hresult b) hp' }

theorem shift (conducts : w.Conducts round limit) (order : ∀ b, w.InOrder b)
    (hseats : w.seats a = 0) {p : Post} (hp : w.post? a = some p)
    (hmember : p.role.isMemberOf 0 = true) (hwaiting : p.waiting = false)
    (houtline : w'.outline = w.outline) (hothers : ∀ b, b ≠ a → Beside b w w')
    (hresults : ∀ b, b ≠ a → w'.result? b = w.result? b)
    (hself : (w.result? a).isSome = true → (w'.result? a).isSome = true)
    (shift : Shift a 0 (w.MayEnd a) w p.stage w') :
    ∃ permits, w'.Conducts { round with permits } limit := by
  have hr : w.rounds[0]? = some round := by rw [conducts.rounds]; rfl
  obtain ⟨permits, hr', lends⟩ :=
    conducts.lends.shift order hseats hr hp hmember hwaiting rfl shift
  obtain ⟨q, arrives⟩ := shift.arrives hseats hp hmember rfl
  have hstays (b : ActivityId) (hb : b ≠ a) : Stays b w w' := .of_beside (hothers b hb)
  have hroles := arrives.role? hstays hp
  have hextends : w'.plan.Extends w.plan := plan_extends_of_outline houtline hroles
  have hrefuses : w'.queue.refuses = w.queue.refuses := congrArg Outline.refuses houtline
  have hcount := arrives.headcount hstays hp hmember
  have howner : round.owner ≠ a := by
    intro heq
    obtain ⟨o, ho, horole, -⟩ := conducts.owner
    rw [heq, hp] at ho
    cases ho
    rw [horole] at hmember
    cases hmember
  obtain ⟨hcalls, hunseated, -⟩ := (hothers _ howner).of_unseated conducts.unseated
  exact ⟨permits, {
    rounds := conducts.rounds_of_outline houtline hr'
    crew := fun b p' hp' => by
      by_cases hb : b = a
      · rw [hb, arrives.post] at hp'
        cases hp'
        exact .inr (arrives.role ▸ hmember)
      · exact conducts.crew_of_stays (hstays b hb) hp'
    owner := conducts.owner_of_stays permits round.ended (hstays _ howner) houtline hroles
      (arrives.headcount_hasEnded_le hstays hp hmember)
      fun _ due => due.keep permits (Nat.le_of_eq (by rw [hcalls]))
    unseated := hunseated
    supplied := conducts.supplied_of_outline houtline
    lends := lends
    staff := (hcount fun _ => true).trans (congrArg (· + 1) conducts.staff) |> Nat.add_right_cancel
    notes := by
      have hended := hcount Stage.hasEnded
      have hnotes := arrives.notes
      have hbefore := conducts.notes
      show round.ended + _ = _
      omega
    members := fun b p' hp' hmember' => by
      by_cases hb : b = a
      · subst hb
        rw [arrives.post] at hp'
        cases hp'
        exact (conducts.members b p hp hmember).arrive arrives hself hextends hrefuses
      · exact conducts.fares_of_stays (hstays b hb) hextends hrefuses (hresults b hb) hp'
          hmember' }⟩

/-! ## Moves of the owner -/

/-- The owner ends. -/
theorem ends (conducts : w.Conducts round limit) (logs : List LogEntry) (results : List RunResult)
    {outcome : RunOutcome} (footing : w.Footing round limit (.finished outcome)) :
    (({ w with logs, rounds := [{ round with results }] } : Intake).enter round.owner
      (.finished outcome)).Conducts { round with results } limit := by
  obtain ⟨p, hp, hrole, -⟩ := conducts.owner
  have hq := post?_enter (w := { w with logs, rounds := [{ round with results }] }) hp
    (.finished outcome)
  have hothers (b : ActivityId) (hb : b ≠ round.owner) :
      (({ w with logs, rounds := [{ round with results }] } : Intake).enter round.owner
        (.finished outcome)).post? b = w.post? b := post?_onActivity_of_ne _ _ b hb _
  have hroles (b : ActivityId) : (({ w with logs, rounds := [{ round with results }] } :
      Intake).enter round.owner (.finished outcome)).role? b = w.role? b :=
    role?_onActivity _ _ b (by exact fun _ => rfl)
  have hextends : (({ w with logs, rounds := [{ round with results }] } : Intake).enter round.owner
      (.finished outcome)).plan.Extends w.plan := plan_extends rfl rfl id (hroles _).trans
  have hstranger : p.role.isMemberOf 0 = false := by rw [hrole]; rfl
  have hcounts (f : Stage → Bool) :=
    headcount_of_stranger hothers hp hq hstranger (by exact hstranger) f
  have hresult := result?_of_ledger (ledger_enter
    { w with logs, rounds := [{ round with results }] } round.owner (.finished outcome))
  exact {
    rounds := rfl
    crew := fun b p' hp' => by
      by_cases hb : b = round.owner
      · rw [hb, hq] at hp'
        cases hp'
        exact .inl hrole
      · exact conducts.crew b p' ((hothers b hb).symm.trans hp')
    owner := ⟨_, hq, hrole, footing.keep round.permits round.ended results hroles rfl hextends rfl
      (Nat.le_of_eq (hcounts _).symm), trivial⟩
    unseated := by
      have hseats := conducts.unseated
      rw [seats_eq, conducts.rounds] at hseats
      rw [enter, seats_onActivity, seats_eq]
      exact hseats
    supplied := conducts.supplied
    lends := conducts.lends.of_stranger hothers hp hq hstranger hstranger
    staff := (hcounts _).trans conducts.staff
    notes := conducts.notes.trans (hcounts _).symm
    members := fun b p' hp' hmember => by
      by_cases hb : b = round.owner
      · rw [hb, hq] at hp'
        cases hp'
        rw [show p.role.isMemberOf 0 = true from hmember] at hstranger
        cases hstranger
      · exact (conducts.members b p' ((hothers b hb).symm.trans hp') hmember).mono hextends rfl
          (congrFun hresult b) }

theorem unmanned (conducts : w.Conducts round limit) (members : round.members = []) {p : Post}
    (hp : w.post? b = some p) : p.role.isMemberOf 0 = false := by
  have hstaff := conducts.staff
  rw [members, List.length_nil, headcount, List.countP_eq_zero] at hstaff
  have hcounts := hstaff p (List.mem_of_getElem? hp)
  rwa [Post.counts, Bool.and_true, Bool.not_eq_true] at hcounts

theorem nobody (conducts : w.Conducts round limit) (members : round.members = [])
    (f : Stage → Bool) : w.headcount 0 f = 0 :=
  headcount_eq_zero fun b p hp hmember => by
    rw [conducts.unmanned members hp] at hmember
    cases hmember

theorem staffed_nobody (conducts : w.Conducts round limit) (members : round.members = []) :
    Staffed w 0 [] [] where
  each := .nil
  all := fun m j hm => by
    obtain ⟨p, hp, hrole⟩ := Option.map_eq_some_iff.mp ((role?_eq w m).symm.trans hm)
    have hnone := conducts.unmanned members hp
    rw [hrole] at hnone
    cases hnone
  nodup := .nil

end Conducts

structure Musters (round : Round) (since : Instant) (w v : Intake) : Prop where
  rounds : v.rounds = [{ round with
    permits := .ofCount round.spec.limit.toNat
    members := (List.range round.spec.sources.length).map (w.activities.length + ·) }]
  posts : v.posts = w.posts ++ (List.range round.spec.sources.length).map fun i =>
    ⟨.member 0 (w.jobs.length + i), .fresh, false, false⟩
  ready : v.ready = w.ready ++ (List.range round.spec.sources.length).map fun i =>
    .move (w.activities.length + i) false
  queue : v.queue = w.queue
  gateLine : v.gateLine = w.gateLine
  suppliers : v.suppliers = w.suppliers
  staffed : Staffed v 0 ((List.range round.spec.sources.length).map (w.activities.length + ·))
    (round.spec.jobs since)

namespace Musters

variable {v : Intake} {since : Instant} (musters : Musters round since w v)

include musters

theorem headcount (f : Stage → Bool) : v.headcount 0 f =
    w.headcount 0 f + if f .fresh then round.spec.sources.length else 0 := by
  rw [Intake.headcount, musters.posts, List.countP_append, List.countP_map]
  cases hfresh : f .fresh <;> simp [Function.comp_def, Post.counts, Role.isMemberOf, hfresh,
    Intake.headcount]

theorem post?_of_some {p : Post} (hp : w.post? b = some p) : v.post? b = some p := by
  rw [post?, musters.posts, List.getElem?_append_left (List.getElem?_eq_some_iff.mp hp).choose]
  exact hp

theorem old_or_fresh {q : Post} (hq : v.post? b = some q) :
    (∃ c, w.post? c = some q) ∨ q.role.isMemberOf 0 = true ∧ q.stage = .fresh := by
  have hmem : q ∈ v.posts := List.mem_of_getElem? hq
  rw [musters.posts] at hmem
  rcases List.mem_append.mp hmem with hold | hnew
  · exact .inl (List.getElem?_of_mem hold)
  · obtain ⟨i, -, rfl⟩ := List.mem_map.mp hnew
    exact .inr ⟨rfl, rfl⟩

theorem calls_of_post {p : Post} (hp : w.post? b = some p) : v.calls b = w.calls b := by
  have hlt : b < w.posts.length := (List.getElem?_eq_some_iff.mp hp).choose
  rw [show w.posts.length = w.activities.length from List.length_map _] at hlt
  rw [calls, musters.ready, List.filterMap_append, ← calls, List.append_right_eq_self,
    List.filterMap_eq_nil_iff]
  intro c hc
  obtain ⟨i, -, rfl⟩ := List.mem_map.mp hc
  have hne : w.activities.length + i ≠ b :=
    Nat.ne_of_gt (Nat.lt_of_lt_of_le hlt (Nat.le_add_right _ i))
  rw [Call.calledOff?, if_neg hne]

theorem unseated (hrounds : w.rounds = [round]) (hseats : w.seats b = 0) : v.seats b = 0 := by
  rw [seats_eq, hrounds] at hseats
  rw [seats_eq, musters.queue, musters.gateLine, musters.rounds]
  show _ + (_ + (_ + 0)) = 0
  omega

theorem count_note : v.ready.count (.note 0) = w.ready.count (.note 0) := by
  rw [musters.ready, List.count_append, Nat.add_eq_left, List.count_eq_zero]
  simp

end Musters

namespace Conducts

theorem musters (conducts : w.Conducts round limit) (members : round.members = [])
    (entries : List LogEntry) (since : Instant) :
    Musters round since w (((w.log entries).onRound 0 fun x =>
      { x with permits := .ofCount round.spec.limit.toNat }).staff 0 round.spec since) := by
  have hroster : ((w.log entries).onRound 0 fun x =>
      { x with permits := .ofCount round.spec.limit.toNat }).rosters[0]? = some round.roster := by
    simp [rosters, onRound, log, conducts.rounds, Round.roster]
  have hnobody : Staffed ((w.log entries).onRound 0 fun x =>
      { x with permits := .ofCount round.spec.limit.toNat }) 0 round.roster.members [] := by
    rw [show round.roster.members = [] from members]
    exact (conducts.staffed_nobody members).keep id id id
  obtain ⟨members', hroster', staffed⟩ := staffed_staff hroster hnobody round.spec since
  have heq := staff_eq ((w.log entries).onRound 0 fun x =>
    { x with permits := .ofCount round.spec.limit.toNat }) 0 round.spec since
  have hrounds : (((w.log entries).onRound 0 fun x =>
      { x with permits := .ofCount round.spec.limit.toNat }).staff 0 round.spec since).rounds =
        [{ round with
          permits := .ofCount round.spec.limit.toNat
          members := (List.range round.spec.sources.length).map (w.activities.length + ·) }] := by
    rw [heq]
    simp [onRound, log, conducts.rounds, members]
  rw [rosters, hrounds] at hroster'
  have hmembers := congrArg Roster.members (Option.some.inj hroster')
  rw [show members' = _ from hmembers.symm] at staffed
  refine ⟨hrounds, ?_, ?_, ?_, ?_, ?_, staffed⟩
  · rw [heq, posts]
    simp [onRound, log, posts, Activity.ofRole, Activity.post, Function.comp_def]
  all_goals
    rw [heq]
    rfl

theorem begins {v : Intake} (conducts : w.Conducts round limit) (members : round.members = [])
    (hcalls : w.calls round.owner = []) {since : Instant} (hlimit : 0 ≤ round.spec.limit)
    (hsince : thresholdOf round.spec.since = .ok since) (musters : Musters round since w v) :
    (v.suspend round.owner .gathering).Conducts { round with
      permits := .ofCount round.spec.limit.toNat
      members := (List.range round.spec.sources.length).map (w.activities.length + ·) }
        round.spec.limit.toNat := by
  obtain ⟨p, hp, hrole, -⟩ := conducts.owner
  have hpost := musters.post?_of_some hp
  have hq := post?_suspend hpost .gathering
  have hothers (b : ActivityId) (hb : b ≠ round.owner) :
      (v.suspend round.owner .gathering).post? b = v.post? b := post?_onActivity_of_ne v _ b hb _
  have hstranger : p.role.isMemberOf 0 = false := conducts.unmanned members hp
  have hcast (b : ActivityId) (q : Post)
      (hq' : (v.suspend round.owner .gathering).post? b = some q) :
      q.role = .round 0 ∨ q.role.isMemberOf 0 = true ∧ q.stage = .fresh := by
    by_cases hb : b = round.owner
    · rw [hb, hq] at hq'
      cases hq'
      exact .inl hrole
    · refine (musters.old_or_fresh ((hothers b hb).symm.trans hq')).imp_left fun ⟨c, hc⟩ => ?_
      exact (conducts.crew c q hc).resolve_right (by rw [conducts.unmanned members hc]; simp)
  have hfresh (b : ActivityId) (q : Post)
      (hq' : (v.suspend round.owner .gathering).post? b = some q)
      (hmember : q.role.isMemberOf 0 = true) : q.stage = .fresh := by
    rcases hcast b q hq' with hround | ⟨-, hfresh⟩
    · rw [hround] at hmember
      cases hmember
    · exact hfresh
  have hnobody (f : Stage → Bool) : w.headcount 0 f = 0 := conducts.nobody members f
  have hcounts (f : Stage → Bool) : (v.suspend round.owner .gathering).headcount 0 f =
      if f .fresh then round.spec.sources.length else 0 := by
    rw [headcount_of_stranger hothers hpost hq hstranger (by exact hstranger), musters.headcount,
      hnobody, Nat.zero_add]
  have hroles (b : ActivityId) : (v.suspend round.owner .gathering).role? b = v.role? b :=
    role?_onActivity v _ b (by exact fun _ => rfl)
  exact {
    rounds := musters.rounds
    crew := fun b q hq' => (hcast b q hq').imp_right (·.1)
    owner := by
      refine ⟨_, hq, hrole, .gathering hlimit hsince ?_ rfl, fun hne => absurd ?_ hne⟩
      · exact musters.staffed.keep (hroles _).trans (hroles _).symm.trans id
      · exact (musters.calls_of_post hp).trans hcalls
    unseated := musters.unseated conducts.rounds conducts.unseated
    supplied := by
      rw [show (v.suspend round.owner .gathering).suppliers = w.suppliers from musters.suppliers]
      exact conducts.supplied
    lends := .of_fresh hfresh _
    staff := by
      rw [hcounts, List.length_map, List.length_range]
      rfl
    notes := by
      have hnotes := conducts.notes
      rw [hnobody, ← musters.count_note] at hnotes
      rw [hcounts]
      exact hnotes
    members := fun b q hq' hmember => fares_of_not_begun (by rw [hfresh b q hq' hmember]; rfl) }

theorem all_ended (conducts : w.Conducts round limit)
    (all : round.members.length ≤ w.headcount 0 Stage.hasEnded) {p : Post}
    (hp : w.post? b = some p) (hmember : p.role.isMemberOf 0 = true) : p.stage.hasEnded = true :=
  stage_of_headcount_eq (g := fun _ => true) (conducts.staff ▸ all) (fun _ _ => rfl) hp hmember rfl

theorem exists_cancelled (conducts : w.Conducts round limit) {since : Instant}
    (staffed : Staffed w 0 round.members (round.spec.jobs since))
    (all : round.members.length ≤ w.headcount 0 Stage.hasEnded)
    (h : (w.accounts round.members).2 = none) : ∃ m r?, w.MayEnd m .cancelled r? := by
  obtain ⟨m, hm, hnone⟩ := exists_unaccounted h
  obtain ⟨p, hp, hmember⟩ := staffed.exists_post hm
  have fares := conducts.members m p hp hmember
  have hended := conducts.all_ended all hp hmember
  obtain ⟨outcome, hfinished⟩ := Stage.hasEnded_iff.mp hended
  have hresult := fares.begun (by rw [Stage.hasBegun, hended, Bool.or_true])
  refine ⟨m, _, fares.outcome .cancelled ?_⟩
  rw [post?_eq, Option.map_eq_some_iff] at hp
  obtain ⟨x, hx, rfl⟩ := hp
  obtain ⟨result, hresult⟩ := Option.isSome_iff_exists.mp hresult
  rw [result?, hx, Option.bind_some] at hresult
  have hstage : x.stage = .finished outcome := hfinished
  rw [account, hx, Option.bind_some, hstage, hresult] at hnone
  cases outcome with
  | cancelled => exact hfinished
  | done | failed => cases hnone

theorem owner_acts (conducts : w.Conducts round limit) {p : Post}
    (hp : w.post? round.owner = some p) (hcalls : p.stage = .fresh → w.calls round.owner = [])
    (hlast : p.stage = .gathering → round.ended = round.members.length)
    (move : OwnerMove round.owner 0 w p.stage w') :
    ∃ round' limit', w'.Conducts round' limit' := by
  obtain ⟨q, hq, -, footing, -⟩ := conducts.owner
  rw [hp] at hq
  cases hq
  have hrounds := conducts.rounds
  have hround {x : Round} (hr : w.rounds[0]? = some x) : x = round := by
    rw [hrounds] at hr
    exact (Option.some.inj hr).symm
  have hall (hat : p.stage = .gathering) : round.members.length ≤ w.headcount 0 Stage.hasEnded := by
    have hended := hlast hat
    have hnotes := conducts.notes
    omega
  have hlog (entries : List LogEntry) : w.log entries =
      { w with
        logs := w.logs ++ entries
        rounds := [{ round with results := round.results }] } := by
    rw [log, ← hrounds]
  generalize p.stage = stage at *
  cases move with
  | rest => exact ⟨round, limit, conducts⟩
  | breaks entries hinders =>
      refine ⟨round, limit, ?_⟩
      rw [hlog]
      refine conducts.ends _ round.results ?_
      cases hinders with
      | limit hr hsources hlimit =>
          cases hround hr
          cases footing with
          | fresh members => exact .declined hsources members (.limit hlimit)
      | threshold hr hsources hlimit hsince =>
          cases hround hr
          cases footing with
          | fresh members => exact .declined hsources members (.threshold hlimit hsince)
      | cancelled hr hnone =>
          cases hround hr
          cases footing with
          | gathering hlimit hsince staffed lent =>
              exact .closed hlimit hsince staffed lent (hall rfl)
                (.inr ⟨rfl, conducts.exists_cancelled staffed (hall rfl) hnone⟩)
  | skips hr hempty =>
      cases hround hr
      cases footing with
      | fresh members =>
          refine ⟨{ round with results := [] }, limit, ?_⟩
          have hsame : (w.onRound 0 fun x => { x with results := [] }) =
              { w with logs := w.logs, rounds := [{ round with results := [] }] } := by
            rw [onRound, hrounds]
            rfl
          rw [hsame]
          exact conducts.ends w.logs [] (.skipped hempty members)
  | begins entries hr hsources hlimit hsince =>
      cases hround hr
      cases footing with
      | fresh members =>
          exact ⟨_, _, conducts.begins members (hcalls rfl) hlimit hsince
            (conducts.musters members entries _)⟩
  | @gathers _ results entries hr hresults =>
      cases hround hr
      cases footing with
      | gathering hlimit hsince staffed lent =>
          refine ⟨{ round with results }, limit, ?_⟩
          have hsame : ((w.log entries).onRound 0 fun x => { x with results }) =
              { w with logs := w.logs ++ entries, rounds := [{ round with results }] } := by
            rw [onRound, log, hrounds]
            rfl
          rw [hsame]
          exact conducts.ends _ results
            (.closed hlimit hsince staffed lent (hall rfl) (.inl rfl))

theorem owner_moves (conducts : w.Conducts round limit) (uncalled : Uncalled w)
    {before after : List Call} {calledOff : Bool}
    (hready : w.ready = before ++ .move round.owner calledOff :: after) :
    ∃ round' limit', (({ w with ready := before ++ after } : Intake).move round.owner
      calledOff).Conducts round' limit' := by
  obtain ⟨p, hp, hrole, footing, due⟩ := conducts.owner
  have hlength := length_calls_of_ready hready round.owner
  rw [Call.calledOff?, if_pos rfl, Option.toList_some, List.length_singleton] at hlength
  have move := Intake.owner_moves uncalled hready hp hrole
  have attended := conducts.attend uncalled hready hp
  obtain ⟨hpost, -⟩ := uncalled.attend hready hp
  refine attended.owner_acts hpost (fun hat => ?_) (fun hat => ?_) move
  · rw [hat] at due
    have hdue : (w.calls round.owner).length ≤ 1 := due
    exact List.eq_nil_of_length_eq_zero
      (show (calls { w with ready := before ++ after } round.owner).length = 0 by omega)
  · rw [hat] at due
    refine due fun hnone => ?_
    rw [hnone, List.length_nil] at hlength
    omega

/-! ## Moves of members -/

theorem exists_staffed (conducts : w.Conducts round limit) {p : Post} (hp : w.post? b = some p)
    (hmember : p.role.isMemberOf 0 = true) :
    ∃ since, Staffed w 0 round.members (round.spec.jobs since) := by
  have hmanned (members : round.members = []) : ∃ since,
      Staffed w 0 round.members (round.spec.jobs since) := by
    have hnone := conducts.unmanned members hp
    rw [hmember] at hnone
    cases hnone
  obtain ⟨p, -, -, footing, -⟩ := conducts.owner
  generalize p.stage = stage at footing
  cases footing with
  | fresh members => exact hmanned members
  | declined _ members _ => exact hmanned members
  | skipped _ members => exact hmanned members
  | gathering _ _ staffed _ => exact ⟨_, staffed⟩
  | closed _ _ staffed _ _ _ => exact ⟨_, staffed⟩

theorem exists_job (conducts : w.Conducts round limit) {p : Post} (hp : w.post? b = some p)
    (hmember : p.role.isMemberOf 0 = true) :
    ∃ j since, ∃ source ∈ round.spec.sources, w.role? b = some (.member 0 j) ∧
      w.jobSpecs[j]? = some (round.spec.jobFor since source, round.spec.supplier) := by
  obtain ⟨since, staffed⟩ := conducts.exists_staffed hp hmember
  obtain ⟨i, hi⟩ := List.getElem?_of_mem (staffed.mem_of_post hp hmember)
  have hlt : i < round.spec.sources.length :=
    staffed.length_eq ▸ (List.getElem?_eq_some_iff.mp hi).choose
  obtain ⟨k, hrole, hjob⟩ := staffed.job_at hi (List.getElem?_eq_getElem hlt)
  exact ⟨k, since, _, List.getElem_mem hlt, hrole, hjob⟩

theorem exists_answer (conducts : w.Conducts round limit) {p : Post} (hp : w.post? b = some p)
    (hmember : p.role.isMemberOf 0 = true) {supplier : Supplier}
    (hsupplier : w.suppliers[round.spec.supplier]? = some supplier) :
    ∃ since, ∃ source ∈ round.spec.sources,
      w.answer? b = some (supplier.answerFor w.web (round.spec.jobFor since source)) := by
  obtain ⟨j, since, source, hmem, hrole, hjob⟩ := conducts.exists_job hp hmember
  refine ⟨since, source, hmem, ?_⟩
  rw [answer?_eq_of_role, hrole, Option.bind_some, Role.job?, Option.bind_some, hjob,
    Option.bind_some, hsupplier, Option.map_some]

theorem answers (conducts : w.Conducts round limit) {p : Post} (hp : w.post? b = some p)
    (hmember : p.role.isMemberOf 0 = true) : (w.answer? b).isSome = true := by
  obtain ⟨supplier, hsupplier⟩ := Option.isSome_iff_exists.mp conducts.supplied
  obtain ⟨since, source, -, hanswer⟩ := conducts.exists_answer hp hmember hsupplier
  rw [hanswer]
  rfl

theorem exists_member (conducts : w.Conducts round limit) {job : JobSpec}
    (hspec : w.specOf? b = some job) :
    ∃ p, w.post? b = some p ∧ p.role.isMemberOf 0 = true := by
  rw [specOf?_eq_of_role, role?_eq] at hspec
  obtain ⟨j, hj, -⟩ := Option.bind_eq_some_iff.mp hspec
  obtain ⟨role, hrole, hjob⟩ := Option.bind_eq_some_iff.mp hj
  obtain ⟨p, hp, rfl⟩ := Option.map_eq_some_iff.mp hrole
  refine ⟨p, hp, (conducts.crew b p hp).resolve_left fun hround => ?_⟩
  rw [hround] at hjob
  cases hjob

theorem exists_member_of_result (conducts : w.Conducts round limit) (htidy : w.affairs.Tidy)
    (hb : (w.result? b).isSome = true) : ∃ p, w.post? b = some p ∧ p.role.isMemberOf 0 = true := by
  obtain ⟨result, hresult⟩ := Option.isSome_iff_exists.mp hb
  obtain ⟨job, hspec⟩ := exists_specOf? htidy hresult
  exact conducts.exists_member hspec

/-- A round that has an outcome has come to it. -/
theorem footing_of_outcome (conducts : w.Conducts round limit) {outcome : RunOutcome}
    (houtcome : w.roundOutcome? 0 = some outcome) :
    w.Footing round limit (.finished outcome) := by
  rw [roundOutcome?, conducts.rounds, List.getElem?_cons_zero, Option.bind_some] at houtcome
  obtain ⟨p, hp, hfinished⟩ := (outcome?_eq_some_iff w _).mp houtcome
  obtain ⟨owner, howner, -, footing, -⟩ := conducts.owner
  rw [hp] at howner
  cases howner
  exact hfinished ▸ footing

theorem member_shifts {S : ActivityId → Prop} (conducts : w.Conducts round limit)
    (uncalled : Uncalled w) (order : Orderly S w) {before after : List Call} {calledOff : Bool}
    (hready : w.ready = before ++ .move a calledOff :: after) {p : Post}
    (hp : w.post? a = some p) (hmember : p.role.isMemberOf 0 = true) :
    Shift a 0 ((w.attend a (before ++ after)).MayEnd a) (w.attend a (before ++ after)) p.stage
      (({ w with ready := before ++ after } : Intake).move a calledOff) := by
  obtain ⟨j, hj⟩ := Role.isMemberOf_iff.mp hmember
  have hrun : p.role.job?.isSome = true := by
    rw [hj]
    rfl
  obtain ⟨hpost, hstays⟩ := uncalled.attend hready hp
  have hattends : Uncalled (w.attend a (before ++ after)) := uncalled.of_stays rfl hstays
  have hrole : (w.attend a (before ++ after)).role? a = some (.member 0 j) := by
    rw [role?_eq, hpost, Option.map_some, hj]
  have hshift := act_shift hrole ((conducts.attend uncalled hready hp).answers hpost hmember)
    ((hattends.each a).post p hpost) ((order.inOrder a).run p hp hrun).stage
  have hgoing := ((uncalled.each a).post p hp).going
  obtain ⟨x, hx, rfl⟩ := Option.map_eq_some_iff.mp ((post?_eq w a).symm.trans hp)
  have hstopping : x.stopping = false := hgoing
  have hxrole : x.role = .member 0 j := hj
  rw [move_eq_act hx, uncalled.not_calledOff hready, hstopping, hxrole]
  exact hshift

theorem member_moves {S : ActivityId → Prop} (conducts : w.Conducts round limit)
    (uncalled : Uncalled w) (order : Orderly S w) {before after : List Call} {calledOff : Bool}
    (hready : w.ready = before ++ .move a calledOff :: after) {p : Post}
    (hp : w.post? a = some p) (hmember : p.role.isMemberOf 0 = true) :
    ∃ permits, (({ w with ready := before ++ after } : Intake).move a calledOff).Conducts
      { round with permits } limit := by
  obtain ⟨j, hj⟩ := Role.isMemberOf_iff.mp hmember
  have hrun : p.role.job?.isSome = true := by
    rw [hj]
    rfl
  obtain ⟨hwaiting, -, u, motions, halt⟩ := order.move_pursuit hready hp hrun
  obtain ⟨hpost, -⟩ := uncalled.attend hready hp
  have order' := order.attend hready hp
  have hresult := result?_of_ledger (ledger_attend w a (before ++ after))
  refine (conducts.attend uncalled hready hp).shift order'.inOrder
    (order'.unseated hpost hrun hwaiting) hpost hmember hwaiting
    (halt.outline.trans motions.outline) (fun b hb => (motions.beside b).trans (halt.beside hb))
    (fun b hb => ?_) (fun h => ?_) (conducts.member_shifts uncalled order hready hp hmember)
  · rw [hresult]
    exact result?_move_of_ne hb (before ++ after) calledOff
  · rw [hresult] at h
    exact (CalmStep.happen before (.move a calledOff) after hready).step.result?_mono h

end Conducts

end

/-! ## Steps -/

section

variable {S : ActivityId → Prop} {w w' : Intake} {round : Round} {limit : Nat}

theorem Conducts.of_calls (conducts : w.Conducts round limit) {before after : List Call} {c : Call}
    (hready : w.ready = before ++ c :: after) (hc : c ≠ .note 0) :
    ({ w with ready := before ++ after } : Intake).Conducts round limit := by
  have hlength := length_calls_of_ready hready round.owner
  refine conducts.keep rfl rfl (Uncalled.forget_stays hready) (conducts.lends.of_posts rfl)
    (by omega) conducts.unseated ?_ fun _ => rfl
  show (before ++ after).count _ = _
  rw [hready, List.count_append, List.count_append, List.count_cons_of_ne hc]

theorem Conducts.openGate (conducts : w.Conducts round limit) (order : Orderly S w)
    (source : String) : (w.openGate source).Conducts round limit := by
  have hnotes : (w.openGate source).ready.count (.note 0) = w.ready.count (.note 0) :=
    openGate_induction (P := fun v => v.ready.count (.note 0) = w.ready.count (.note 0)) source
      (fun _ _ => rfl) fun v b hv => (count_note_wake v b 0).trans hv
  exact conducts.of_beside order.inOrder (rounds_openGate w source) (outline_openGate w source)
    (openGate_beside w source) hnotes (congrFun (result?_of_ledger (ledger_openGate w source)))

theorem Conducts.takeOne (conducts : w.Conducts round limit) (order : Orderly S w)
    {record : Record} (htake : w.takeOne = some (record, w')) : w'.Conducts round limit := by
  have houtline := outline_takeOne htake
  obtain ⟨⟨first, queue, putter⟩, hpop, heq⟩ := Option.map_eq_some_iff.mp htake
  cases heq
  exact conducts.of_beside order.inOrder (rounds_wakeAny _ _) houtline
    (fun b => pop_beside (w := w.tell (.taken first)) hpop b) (count_note_wakeAny _ _ 0)
    (congrFun (result?_of_ledger (ledger_withQueue _ _)))

/-- **Whatever happens if nobody interferes, a round goes on as it is to.** -/
theorem CalmStep.conducts (step : CalmStep w w') (conducts : w.Conducts round limit)
    (uncalled : Uncalled w) (order : Orderly S w) :
    ∃ round' limit', w'.Conducts round' limit' := by
  cases step with
  | happen before c after hready =>
      cases c with
      | move a calledOff =>
          cases hp : w.post? a with
          | none =>
              rw [post?_eq, Option.map_eq_none_iff] at hp
              rw [Intake.happen, move_of_nobody hp]
              exact ⟨round, limit, conducts.of_calls hready (by simp)⟩
          | some p =>
              rcases conducts.crew a p hp with hround | hmember
              · obtain ⟨roster, hroster, rfl⟩ := uncalled.owners a 0 (by
                  rw [role?_eq, hp, Option.map_some, hround])
                rw [rosters, conducts.rounds] at hroster
                cases hroster
                exact conducts.owner_moves uncalled hready
              · obtain ⟨permits, kept⟩ := conducts.member_moves uncalled order hready hp hmember
                exact ⟨_, _, kept⟩
      | note r =>
          cases r with
          | zero => exact ⟨_, _, conducts.note uncalled hready⟩
          | succ r =>
              have hnone : w.rounds[r + 1]? = none := by
                rw [conducts.rounds]
                rfl
              refine ⟨round, limit, ?_⟩
              rw [Intake.happen, Intake.note,
                onRound_none (w := { w with ready := before ++ after }) hnone]
              dsimp only
              rw [hnone]
              exact conducts.of_calls hready (by simp)
  | clock now =>
      exact ⟨round, limit, conducts.keep rfl rfl (fun _ => ⟨fun _ => .inl, rfl⟩)
        (conducts.lends.of_posts rfl) (Nat.le_refl _) conducts.unseated rfl fun _ => rfl⟩
  | openGate source => exact ⟨round, limit, conducts.openGate order source⟩
  | takeOne htake => exact ⟨round, limit, conducts.takeOne order htake⟩

theorem Proceeds.conducts (proceeds : Proceeds w w') (conducts : w.Conducts round limit)
    (uncalled : Uncalled w) (order : Orderly S w) (htidy : w.affairs.Tidy) :
    ∃ round' limit', w'.Conducts round' limit' := by
  induction proceeds with
  | refl => exact ⟨round, limit, conducts⟩
  | tail steps step ih =>
      obtain ⟨_, _, kept⟩ := ih
      exact step.conducts kept (Proceeds.goes steps uncalled order htidy).uncalled
        (Reaches.orderly (Proceeds.reaches steps) order)

/-! ## Beginnings -/

theorem conducts_startRound (hnobody : w.activities = []) (hready : w.ready = [])
    (hrounds : w.rounds = []) (hseated : w.seated = []) (spec : RoundSpec)
    (hsupplied : (w.suppliers[spec.supplier]?).isSome = true) :
    (w.startRound spec).1.Conducts (.new spec 0) 0 := by
  have hstarted : (w.startRound spec).1 = { w with
      activities := [.ofRole (.round 0)]
      ready := [.move 0 false]
      rounds := [.new spec 0] } := by
    simp [startRound, add, call, hnobody, hready, hrounds]
  rw [hstarted]
  have hpost {b : ActivityId} {p : Post}
      (hp : ([(Activity.ofRole (.round 0)).post] : List Post)[b]? = some p) :
      p = (Activity.ofRole (.round 0)).post := List.mem_singleton.mp (List.mem_of_getElem? hp)
  have hstranger {b : ActivityId} {p : Post}
      (hp : ([(Activity.ofRole (.round 0)).post] : List Post)[b]? = some p)
      (hmember : p.role.isMemberOf 0 = true) : False := by
    rw [hpost hp] at hmember
    cases hmember
  exact {
    rounds := rfl
    crew := fun b p hp => .inl (by rw [hpost hp]; rfl)
    owner := ⟨_, rfl, rfl, .fresh rfl, Nat.le_refl 1⟩
    unseated := by
      rw [seated, hrounds] at hseated
      exact congrArg (List.count 0) hseated
    supplied := hsupplied
    lends := .of_fresh (fun b p hp hmember => (hstranger hp hmember).elim) 0
    staff := rfl
    notes := rfl
    members := fun b p hp hmember => (hstranger hp hmember).elim }

end

/-- A round alone goes on as it is to, from its beginning. -/
theorem conducts_of_ofRound {now : DateTime} {queue : RecordQueue} {store : Snapshots}
    {web : List (String × Response)} {supplier : Supplier} {spec : RoundSpec}
    (hputters : queue.putters = []) (hgetters : queue.getters = []) {w : Intake}
    (proceeds : Proceeds (ofRound now queue store web supplier spec) w) :
    ∃ round limit, w.Conducts round limit ∧ round.spec = { spec with supplier := 0 } := by
  have hseated : ((start now queue store web).addSupplier supplier).1.seated = [] := by
    simp [seated, addSupplier, start, hputters, hgetters]
  obtain ⟨round, limit, conducts⟩ := Proceeds.conducts proceeds
    (conducts_startRound rfl rfl rfl hseated { spec with supplier := 0 } rfl)
    (uncalled_startRound (uncalled_of_nobody rfl rfl rfl) _)
    (orderly_ofRound now hputters hgetters store web supplier spec)
    (tidy_ofRound now queue store web supplier spec)
  refine ⟨round, limit, conducts, ?_⟩
  obtain ⟨-, roster, p, hr, hspec, -⟩ := goes_ofRound hputters hgetters proceeds
  rw [rosters, conducts.rounds] at hr
  cases hr
  exact hspec

end Intake

end FeedIntake
