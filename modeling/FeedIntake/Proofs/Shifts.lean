import FeedIntake.Proofs.Asking
import FeedIntake.Proofs.Ledger
import FeedIntake.Proofs.Stations

/-! # Shifts

The shift of a member of a round begins when it has a permit and ends with its run. Until then it
has not begun or stands in line, and in between it waits at a gate, for the network or for room.
What a member does when it moves is one of a few things, by the stage where it is. How many members
of a round are at which stage changes by its own moves only.
-/

namespace FeedIntake

def Stage.isInside : Stage → Bool
  | atGate _ | onNetwork _ _ | atQueue _ _ => true
  | _ => false

def Stage.hasEnded : Stage → Bool
  | finished _ => true
  | _ => false

def Stage.hasBegun (stage : Stage) : Bool := stage.isInside || stage.hasEnded

theorem Stage.hasEnded_iff {stage : Stage} :
    stage.hasEnded = true ↔ ∃ outcome, stage = .finished outcome := by
  cases stage <;> simp [hasEnded]

def Role.isMemberOf (r : RoundId) : Role → Bool
  | member r' _ => r' == r
  | _ => false

theorem Role.isMemberOf_iff {r : RoundId} {role : Role} :
    role.isMemberOf r = true ↔ ∃ j, role = .member r j := by
  cases role <;> simp [isMemberOf]

open Intake

/-! ## Headcounts -/

def Post.counts (r : RoundId) (f : Stage → Bool) (p : Post) : Bool :=
  p.role.isMemberOf r && f p.stage

theorem Post.counts_awake (r : RoundId) (f : Stage → Bool) (p : Post) :
    p.awake.counts r f = p.counts r f := rfl

theorem Post.counts_of_member {r : RoundId} {p : Post} (h : p.role.isMemberOf r = true)
    (f : Stage → Bool) : p.counts r f = f p.stage := by
  rw [Post.counts, h, Bool.true_and]

theorem List.countP_set_add {α : Type} {l : List α} {i : Nat} {x : α} (h : l[i]? = some x) (y : α)
    (f : α → Bool) :
    (l.set i y).countP f + (f x).toNat = l.countP f + (f y).toNat := by
  induction l generalizing i with
  | nil => simp at h
  | cons z l ih =>
      cases i with
      | zero =>
          obtain rfl : z = x := by simpa using h
          simp only [List.set_cons_zero, List.countP_cons]
          cases f z <;> cases f y <;> rfl
      | succ i =>
          have hrest := ih (i := i) (by simpa using h)
          simp only [List.set_cons_succ, List.countP_cons]
          omega

namespace Intake

def headcount (w : Intake) (r : RoundId) (f : Stage → Bool) : Nat := w.posts.countP (·.counts r f)

section

variable {w w' : Intake} {a : ActivityId} {r : RoundId}

theorem headcount_awake (w : Intake) (r : RoundId) (f : Stage → Bool) :
    w.headcount r f = (w.posts.map Post.awake).countP (·.counts r f) := by
  rw [headcount, List.countP_map]
  rfl

theorem headcount_of_stays (hall : ∀ b, Stays b w w') (f : Stage → Bool) :
    w'.headcount r f = w.headcount r f := by
  have hposts : w'.posts.map Post.awake = w.posts.map Post.awake := List.ext_getElem? fun b => by
    rw [List.getElem?_map, List.getElem?_map]
    exact (hall b).post
  rw [headcount_awake, hposts, ← headcount_awake]

/-- Where one alone has moved it is counted where it is now. -/
theorem headcount_but (hothers : ∀ b, b ≠ a → Stays b w w') {p q : Post}
    (hp : w.post? a = some p) (hq : w'.post? a = some q) (f : Stage → Bool) :
    w'.headcount r f + (p.counts r f).toNat = w.headcount r f + (q.counts r f).toNat := by
  have hposts : w'.posts.map Post.awake = (w.posts.map Post.awake).set a q.awake := by
    refine List.ext_getElem? fun b => ?_
    rw [List.getElem?_map, List.getElem?_set, List.length_map, List.getElem?_map]
    by_cases hb : a = b
    · have hlt : b < w.posts.length := hb ▸ (List.getElem?_eq_some_iff.mp hp).choose
      rw [if_pos hb, if_pos (hb ▸ hlt), ← hb, show w'.posts[a]? = some q from hq, Option.map_some]
    · rw [if_neg hb]
      exact (hothers b (Ne.symm hb)).post
  have hat : (w.posts.map Post.awake)[a]? = some p.awake := by
    rw [List.getElem?_map, show w.posts[a]? = some p from hp, Option.map_some]
  rw [headcount_awake, headcount_awake, hposts]
  exact List.countP_set_add hat q.awake _

theorem headcount_but_member (hothers : ∀ b, b ≠ a → Stays b w w') {p q : Post}
    (hp : w.post? a = some p) (hq : w'.post? a = some q) (hrole : q.role = p.role)
    (hmember : p.role.isMemberOf r = true) (f : Stage → Bool) :
    w'.headcount r f + (f p.stage).toNat = w.headcount r f + (f q.stage).toNat := by
  have hcount := headcount_but hothers hp hq (r := r) f
  rwa [Post.counts_of_member hmember, Post.counts_of_member (hrole ▸ hmember)] at hcount

theorem headcount_of_stranger (hothers : ∀ b, b ≠ a → w'.post? b = w.post? b) {p q : Post}
    (hp : w.post? a = some p) (hq : w'.post? a = some q) (hrole : p.role.isMemberOf r = false)
    (hrole' : q.role.isMemberOf r = false) (f : Stage → Bool) :
    w'.headcount r f = w.headcount r f := by
  have hstays (b : ActivityId) (hb : b ≠ a) : Stays b { w with ready := w'.ready } w' :=
    ⟨fun _ => .inl, by rw [hothers b hb]; rfl⟩
  have hcount := headcount_but (w := { w with ready := w'.ready }) hstays hp hq (r := r) f
  rw [Post.counts, Post.counts, hrole, hrole', Bool.false_and, Bool.toNat_false, Nat.add_zero,
    Bool.false_and, Bool.toNat_false, Nat.add_zero] at hcount
  exact hcount

theorem headcount_of_posts (h : w'.posts = w.posts) (f : Stage → Bool) :
    w'.headcount r f = w.headcount r f := by rw [headcount, h, headcount]

theorem headcount_eq_zero {f : Stage → Bool} (h : ∀ b p, w.post? b = some p →
    p.role.isMemberOf r = true → f p.stage = false) : w.headcount r f = 0 := by
  refine List.countP_eq_zero.mpr fun p hmem hcounts => ?_
  obtain ⟨b, hp⟩ := List.getElem?_of_mem hmem
  obtain ⟨hmember, hf⟩ := Bool.and_eq_true_iff.mp hcounts
  rw [h b p hp hmember] at hf
  cases hf

theorem headcount_le {f g : Stage → Bool} (h : ∀ stage, f stage = true → g stage = true) :
    w.headcount r f ≤ w.headcount r g := by
  refine List.countP_mono_left fun p _ hp => ?_
  simp only [Post.counts, Bool.and_eq_true] at hp ⊢
  exact ⟨hp.1, h _ hp.2⟩

/-- If as many are at some stages as at some more, all are at the former. -/
theorem stage_of_headcount_eq {f g : Stage → Bool} (hle : w.headcount r g ≤ w.headcount r f)
    (h : ∀ stage, f stage = true → g stage = true) {b : ActivityId} {p : Post}
    (hp : w.post? b = some p) (hrole : p.role.isMemberOf r = true) (hg : g p.stage = true) :
    f p.stage = true := by
  by_contra hf
  have hlt : (w.posts.filter (·.counts r g)).countP (·.counts r f) <
      (w.posts.filter (·.counts r g)).length := by
    refine Nat.lt_of_le_of_ne List.countP_le_length fun heq => hf ?_
    have hmem : p ∈ w.posts.filter (·.counts r g) :=
      List.mem_filter.mpr ⟨List.mem_of_getElem? hp, by simp [Post.counts, hrole, hg]⟩
    have hcounts := List.countP_eq_length.mp heq p hmem
    simp only [Post.counts, Bool.and_eq_true] at hcounts
    exact hcounts.2
  rw [List.countP_filter, ← List.countP_eq_length_filter] at hlt
  have hsame : w.posts.countP (fun p => p.counts r f && p.counts r g) = w.headcount r f := by
    refine List.countP_congr fun q _ => ?_
    simp only [Post.counts, Bool.and_eq_true]
    exact ⟨fun hq => hq.1, fun hq => ⟨hq, hq.1, h _ hq.2⟩⟩
  rw [hsame] at hlt
  exact absurd hle (Nat.not_le.mpr hlt)

/-! ## Moves of members -/

/-- How a run may end, and with what result. It raises what its fetch raised, or a failure of its
work that its result tells of, and is cancelled at most where its fetch or the queue raises a
cancellation. -/
inductive MayEnd (w : Intake) (a : ActivityId) : RunOutcome → Option RunResult → Prop where
  | done (r? : Option RunResult) : MayEnd w a .done r?
  | working (spec : JobSpec) (fault : Fault) {r? : Option RunResult}
      (failed : ∀ r, r? = some r → r.failed = true) :
      MayEnd w a (.failed (.failure (spec.processingFailure fault))) r?
  | asking {fault : Fault} {outcome : RunOutcome} {r? : Option RunResult}
      (h : w.answer? a = some (.error fault)) (heq : outcome = fault.outcome) :
      MayEnd w a outcome r?
  | putting {fault : Fault} {r? : Option RunResult} (h : w.queue.refuses = some fault)
      (hc : fault.isCancellation = true) : MayEnd w a .cancelled r?

theorem grants_mayEnd (w : Intake) (a : ActivityId) : w.Grants (w.MayEnd a) where
  done := .done
  working := fun spec fault _ failed => .working spec fault failed
  putting := fun _ _ => .putting

end

end Intake

/-- What a member of a round does when it moves from a stage and nobody has called it off. -/
inductive Shift (a : ActivityId) (r : RoundId) (may : RunOutcome → Option RunResult → Prop)
    (w : Intake) : Stage → Intake → Prop where
  | rest (stage : Stage) : Shift a r may w stage w
  | joins {round : Round} (hr : w.rounds[r]? = some round) (taken : round.permits.isTaken = true) :
      Shift a r may w .fresh
        ((w.onRound r fun x => { x with permits := x.permits.join a }).suspend a .inLine)
  | begins {round : Round} {w' : Intake} (hr : w.rounds[r]? = some round)
      (free : round.permits.isTaken = false) (hresult : (w'.result? a).isSome = true)
      (stint : Stint a may (w.onRound r fun x => { x with permits := x.permits.take }) w')
      (asks : Asks a w w') : Shift a r may w .fresh w'
  | leaves {round : Round} {w' : Intake} (hr : w.rounds[r]? = some round)
      (hresult : (w'.result? a).isSome = true)
      (stint : Stint a may (w.withPermits r (round.permits.moveOn a)) w') (asks : Asks a w w') :
      Shift a r may w .inLine w'
  | works {stage : Stage} {w' : Intake} (inside : stage.isInside = true)
      (stint : Stint a may w w') (silent : w'.asked = w.asked) : Shift a r may w stage w'

namespace Intake

section

variable {w : Intake} {a : ActivityId} {r : RoundId} {j : JobId}

theorem goOn_shift {stage : Stage} (inside : stage.isInside = true)
    {may : RunOutcome → Option RunResult → Prop} {f : JobSpec → RunResult → Intake}
    (h : ∀ spec x, w.specOf? a = some spec → Stint a may w (f spec x))
    (silent : ∀ spec x, (f spec x).asked = w.asked) : Shift a r may w stage (w.goOn a f) := by
  rcases goOn_cases w a f with heq | ⟨spec, x, hs, -, heq⟩
  · rw [heq]
    exact .rest stage
  · rw [heq]
    rw [view_spec?] at hs
    exact .works inside (h spec x hs) (silent spec x)

/-- What is asked after a motion is asked. -/
theorem Asks.after {u w' : Intake} (motion : Motion a w u) (hasked : u.asked = w.asked)
    (asks : Asks a u w') : Asks a w w' := by
  obtain ⟨j, spec, s, supplier, hj, hjob, hsupplier, heq⟩ := asks
  have hjobs : u.jobSpecs = w.jobSpecs := congrArg Outline.jobs motion.outline
  have hsuppliers : u.suppliers = w.suppliers := congrArg Outline.suppliers motion.outline
  obtain ⟨hfetches, hrequests⟩ := Prod.mk.inj hasked
  refine ⟨j, spec, s, supplier, ?_, hjobs ▸ hjob, hsuppliers ▸ hsupplier, ?_⟩
  · rw [jobOf?, ← (motion.beside a).role?]
    exact hj
  · rw [heq, hfetches, hrequests]

theorem beginMember_shift (hj : w.jobOf? a = some j) (hanswers : (w.answer? a).isSome = true) :
    Shift a r (w.MayEnd a) w .fresh (w.beginMember a r j) := by
  unfold beginMember
  cases hr : w.rounds[r]? with
  | none => exact .rest _
  | some round =>
      dsimp only
      split
      · rename_i htaken
        exact .joins hr htaken
      · rename_i hfree
        exact .begins hr (by simpa using hfree)
          (result?_beginRun (w := w.onRound r _) hj hanswers)
          (beginRun_stint (by exact (grants_mayEnd w a).congr rfl) hj hanswers
            fun fault r? h => .asking h rfl)
          (beginRun_asks (w := w.onRound r _) hj hanswers)

theorem leaveLine_shift (hj : w.jobOf? a = some j) (hanswers : (w.answer? a).isSome = true) :
    Shift a r (w.MayEnd a) w .inLine (w.leaveLine a r j false false) := by
  unfold leaveLine
  cases hr : w.rounds[r]? with
  | none => exact .rest _
  | some round =>
      dsimp only
      rw [if_neg (by simp), if_neg (by simp)]
      have motion : Motion a w (w.withPermits r (round.permits.moveOn a)) := .moveOn hr
      have hanswer : (w.withPermits r (round.permits.moveOn a)).answer? a = w.answer? a :=
        answer?_of_outline motion.outline (motion.beside a).role?
      have hj' : (w.withPermits r (round.permits.moveOn a)).jobOf? a = some j := by
        rw [jobOf?, (motion.beside a).role?]
        exact hj
      exact .leaves hr (result?_beginRun hj' (hanswer ▸ hanswers))
        (beginRun_stint ((grants_mayEnd w a).congr (congrArg Outline.refuses motion.outline)) hj'
          (hanswer ▸ hanswers) fun fault r? h => .asking (hanswer ▸ h) rfl)
        ((beginRun_asks hj' (hanswer ▸ hanswers)).after motion (asked_withPermits w r _))

/-- A member that acts knows what will come of its fetch. -/
theorem act_shift (hrole : w.role? a = some (.member r j)) (hanswers : (w.answer? a).isSome = true)
    {p : Post} (calm : p.IsCalm (w.specOf? a) (w.answer? a))
    (hstage : p.stage.isBesideTaking = true) :
    Shift a r (w.MayEnd a) w p.stage (w.act a (.member r j) false false p.stage) := by
  have hj : w.jobOf? a = some j := by
    rw [jobOf?, hrole]
    rfl
  have grants := grants_mayEnd w a
  have hanswer (fault : Fault) (r? : Option RunResult) (h : w.answer? a = some (.error fault)) :
      w.MayEnd a fault.outcome r? := .asking h rfl
  unfold act
  cases hat : p.stage with
  | fresh =>
      dsimp only
      rw [if_neg (by simp), begin]
      exact beginMember_shift hj hanswers
  | inLine => exact leaveLine_shift hj hanswers
  | atGate answer =>
      refine goOn_shift rfl (fun spec x _ => ?_) fun spec x => ?_
      · rw [if_neg (by simp)]
        refine deliver_stint grants a spec x fun fault r? hfault => hanswer fault r? ?_
        rw [calm.gate answer hat, hfault]
      · rw [if_neg (by simp), asked_deliver]
  | onNetwork url response =>
      refine goOn_shift rfl (fun spec x hs => ?_) fun spec x => asked_receive w a spec x url _
      obtain ⟨known, hknown, hgiven⟩ := calm.network url response hat
      rw [hs] at hknown
      cases hknown
      rw [if_neg (by simp)]
      refine receive_stint grants a spec x url fun fault r? hfault => hanswer fault r? ?_
      rw [hgiven, hfault]
  | atQueue record rest =>
      refine goOn_shift rfl (fun spec x _ => ?_) fun spec x => ?_
      · rw [if_neg (by simp)]
        exact resumePut_stint grants a spec x record rest
      · rw [if_neg (by simp), asked_resumePut]
  | gathering =>
      dsimp only
      rw [if_neg (by simp)]
      exact .rest _
  | awaitingRecord | joining =>
      rw [hat] at hstage
      cases hstage
  | finished outcome => exact .rest _

end

end Intake

/-- A member asks when it begins, and only then. -/
theorem Shift.asks {a : ActivityId} {r : RoundId} {may : RunOutcome → Option RunResult → Prop}
    {w w' : Intake} {stage : Stage} (shift : Shift a r may w stage w') :
    w'.asked = w.asked ∧ (stage.hasBegun = false → w'.result? a = w.result? a) ∨
      stage.hasBegun = false ∧ Asks a w w' ∧ (w'.result? a).isSome = true := by
  cases shift with
  | rest => exact .inl ⟨rfl, fun _ => rfl⟩
  | joins hr taken =>
      exact .inl ⟨rfl, fun _ => congrFun
        (result?_of_ledger (ledger_suspend (w.onRound r _) a .inLine)) a⟩
  | begins hr free hresult stint asks => exact .inr ⟨rfl, asks, hresult⟩
  | leaves hr hresult stint asks => exact .inr ⟨rfl, asks, hresult⟩
  | works inside stint silent =>
      refine .inl ⟨silent, fun h => ?_⟩
      rw [Stage.hasBegun, inside] at h
      cases h

/-! ## Where a shift leads -/

/-- Where somebody is after it has moved, and what it tells its round by that. -/
structure Arrives (a : ActivityId) (r : RoundId) (may : RunOutcome → Option RunResult → Prop)
    (w w' : Intake) (p q : Post) : Prop where
  post : w'.post? a = some q
  role : q.role = p.role
  ended : p.stage.hasEnded = true → q.stage.hasEnded = true
  begun : q.stage.hasBegun = true → p.stage.hasBegun = true ∨ (w'.result? a).isSome = true
  outcome : ∀ o, q.stage = .finished o →
    p.stage = .finished o ∧ w'.result? a = w.result? a ∨ may o (w'.result? a)
  /-- An end is told to the owner, once. -/
  notes : w'.ready.count (.note r) + p.stage.hasEnded.toNat =
    w.ready.count (.note r) + q.stage.hasEnded.toNat

section

variable {w u w' : Intake} {a : ActivityId} {r : RoundId}
  {may : RunOutcome → Option RunResult → Prop} {p : Post}

theorem Motion.count_note (motion : Motion a w w') (r : RoundId) :
    w'.ready.count (.note r) = w.ready.count (.note r) := by
  cases motion with
  | aside h => rw [ready_of_scene h]
  | push | passOn => exact count_note_wakeAny _ _ r
  | take => rfl
  | moveOn | giveUp | release => exact count_note_wakeAny _ _ r

theorem Motions.count_note (motions : Motions a w w') (r : RoundId) :
    w'.ready.count (.note r) = w.ready.count (.note r) := by
  induction motions with
  | refl => rfl
  | tail _ motion ih => rw [motion.count_note, ih]

theorem count_note_close {j : JobId} (hrole : w.role? a = some (.member r j))
    (outcome : RunOutcome) :
    (w.close a outcome).ready.count (.note r) = w.ready.count (.note r) + 1 := by
  have hrole' : (w.enter a (.finished outcome)).role? a = some (.member r j) :=
    (role?_onActivity w a a (by exact fun _ => rfl)).trans hrole
  unfold close
  dsimp only
  rw [hrole']
  show (w.ready ++ [Call.note r]).count _ = _
  simp

theorem Pause.arrives (pause : Pause a w w') (hp : w.post? a = some p) :
    ∃ q, w'.post? a = some q ∧ q.role = p.role ∧ q.stage.isInside = true ∧
      ∀ r, w'.ready.count (.note r) = w.ready.count (.note r) := by
  cases pause with
  | gate source answer promise =>
      exact ⟨_, post?_suspend (w := { w with gateLine := _ }) hp _, rfl, rfl, fun _ => rfl⟩
  | network spec url response hs promise =>
      refine ⟨_, post?_enter hp _, rfl, rfl, fun r => ?_⟩
      show (w.ready ++ [Call.move a false]).count _ = _
      simp
  | room record rest full =>
      exact ⟨_, post?_suspend (w := { w with queue := _ }) hp _, rfl, rfl, fun _ => rfl⟩

theorem Stage.hasEnded_of_isInside {stage : Stage} (h : stage.isInside = true) :
    stage.hasEnded = false := by
  cases stage <;> first | rfl | cases h

theorem Stint.arrives (stint : Stint a may w w') (hseats : w.seats a = 0)
    (hp : w.post? a = some p) (hmember : p.role.isMemberOf r = true)
    (hgoing : p.stage.hasEnded = false)
    (hbegun : p.stage.hasBegun = true ∨ (w'.result? a).isSome = true) :
    ∃ q, Arrives a r may w w' p q := by
  obtain ⟨u, motions, -, ends⟩ := stint
  have hpost := ((motions.beside a).of_unseated hseats).2.2.trans hp
  have hnotes := motions.count_note r
  rcases ends with pause | ⟨outcome, hmay, rfl⟩
  · obtain ⟨q, hq, hrole, hinside, hsame⟩ := pause.arrives hpost
    have hended := Stage.hasEnded_of_isInside hinside
    refine ⟨q, hq, hrole, fun h => ?_, fun _ => hbegun, fun o h => ?_,
      by rw [hgoing, hended, hsame, hnotes]⟩
    · rw [hgoing] at h
      cases h
    · rw [h] at hinside
      cases hinside
  · obtain ⟨v, motions', heq⟩ := endRun_closes u a outcome
    have hall : Motions a w v := motions.trans motions'
    have hpost' := ((hall.beside a).of_unseated hseats).2.2.trans hp
    obtain ⟨j, hj⟩ := Role.isMemberOf_iff.mp hmember
    have hrole : v.role? a = some (.member r j) := by
      rw [role?_eq, hpost', Option.map_some, hj]
    refine ⟨{ p with stage := .finished outcome }, ?_, rfl, fun _ => rfl, fun _ => hbegun,
      fun o h => ?_, ?_⟩
    · rw [heq]
      exact post?_close hpost' outcome
    · cases h
      rw [result?_of_ledger (ledger_endRun u a outcome)]
      exact .inr hmay
    · rw [hgoing, heq, count_note_close hrole, motions'.count_note, hnotes]
      rfl

theorem Shift.arrives {stage : Stage} (shift : Shift a r may w stage w')
    (hseats : w.seats a = 0) (hp : w.post? a = some p) (hmember : p.role.isMemberOf r = true)
    (hstage : p.stage = stage) : ∃ q, Arrives a r may w w' p q := by
  have hafter {v : Intake} (motion : Motion a w v) (hgoing : p.stage.hasEnded = false)
      (hresult : (w'.result? a).isSome = true) (stint : Stint a may v w') :
      ∃ q, Arrives a r may w w' p q := by
    obtain ⟨-, hseats', hpost⟩ := (motion.beside a).of_unseated hseats
    obtain ⟨q, arrives⟩ := stint.arrives hseats' (hpost.trans hp) hmember hgoing (.inr hresult)
    exact ⟨q, { arrives with
      outcome := fun o h => .inr ((arrives.outcome o h).resolve_left fun hsame => by
        rw [hsame.1] at hgoing
        cases hgoing)
      notes := by rw [arrives.notes, motion.count_note] }⟩
  cases shift with
  | rest => exact ⟨p, hp, rfl, id, .inl, fun _ h => .inl ⟨h, rfl⟩, rfl⟩
  | joins =>
      refine ⟨_, post?_suspend (w := w.onRound r _) hp _, rfl, fun h => ?_, fun h => (by cases h),
        fun _ h => (by cases h), ?_⟩
      · rw [hstage] at h
        cases h
      · rw [hstage]
        rfl
  | begins hr free hresult stint _ =>
      exact hafter (.take hr free) (by rw [hstage]; rfl) hresult stint
  | leaves hr hresult stint _ => exact hafter (.moveOn hr) (by rw [hstage]; rfl) hresult stint
  | works inside stint _ =>
      rw [← hstage] at inside
      exact stint.arrives hseats hp hmember (Stage.hasEnded_of_isInside inside)
        (.inl (by rw [Stage.hasBegun, inside, Bool.true_or]))

namespace Arrives

variable {q : Post} (arrives : Arrives a r may w w' p q) (hothers : ∀ b, b ≠ a → Stays b w w')
  (hp : w.post? a = some p) (hmember : p.role.isMemberOf r = true)

include arrives hothers hp

theorem role? (b : ActivityId) : w'.role? b = w.role? b := by
  by_cases hb : b = a
  · rw [hb, role?_eq, role?_eq, hp, arrives.post, Option.map_some, Option.map_some, arrives.role]
  · exact (hothers b hb).role?

include hmember

theorem headcount (f : Stage → Bool) : w'.headcount r f + (f p.stage).toNat =
    w.headcount r f + (f q.stage).toNat :=
  headcount_but_member hothers hp arrives.post arrives.role hmember f

/-- Nobody who has ended goes on. -/
theorem headcount_hasEnded_le : w.headcount r Stage.hasEnded ≤ w'.headcount r Stage.hasEnded := by
  have hcount := arrives.headcount hothers hp hmember Stage.hasEnded
  cases hbefore : p.stage.hasEnded with
  | false =>
      rw [hbefore, Bool.toNat_false] at hcount
      omega
  | true =>
      rw [hbefore, arrives.ended hbefore] at hcount
      omega

end Arrives

end

end FeedIntake
