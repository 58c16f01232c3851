import FeedIntake.Proofs.Lines

/-! # Order is kept

In every state that an intake can reach all who make runs are in order, whatever may have happened:
runs, rounds and takers that went on, and cancellations at any moment.
-/

namespace FeedIntake

open Intake

/-- There is an activity here that makes no run. -/
def Intake.Idles (w : Intake) (a : ActivityId) : Prop :=
  ∃ role, w.role? a = some role ∧ role.job? = none

/-- Whoever was called off stands in no line and learns of it when it moves next. -/
structure CalledOff (w : Intake) (a : ActivityId) (p : Post) : Prop where
  post : w.post? a = some p
  waiting : p.waiting = false
  seats : w.seats a = 0
  due_le : (w.calls a).length ≤ 1
  stops : p.stopping = true ∨ ∀ calledOff ∈ w.calls a, calledOff = true

/-- A run was called off as it waited for room, or has ended. -/
inductive Intake.Quiet (w : Intake) (a : ActivityId) : Prop where
  | calledOff {p : Post} {record : Record} {rest : List Entry} (off : CalledOff w a p)
      (run : p.role.job?.isSome = true) (stage : p.stage = .atQueue record rest) : Quiet w a
  | ended {p : Post} {outcome : RunOutcome} (post : w.post? a = some p)
      (run : p.role.job?.isSome = true) (stage : p.stage = .finished outcome) : Quiet w a

/-- Somebody is in order, and quiet if it is one of those known to be. -/
structure Intake.Stands (S : ActivityId → Prop) (w : Intake) (b : ActivityId) : Prop where
  inOrder : w.InOrder b
  quiet : S b → w.Quiet b

/-- All are in order, only members stand in the line of a round, and no run owns one. Some of the
runs are known to be quiet. -/
structure Orderly (S : ActivityId → Prop) (w : Intake) : Prop where
  stands : ∀ b, w.Stands S b
  members : ∀ (r : RoundId) (round : Round), w.rounds[r]? = some round →
    ∀ b ∈ round.permits.unserved, ∃ j, w.role? b = some (.member r j)
  owners : ∀ (r : RoundId) (round : Round), w.rounds[r]? = some round → w.Idles round.owner

namespace Beside

variable {S : ActivityId → Prop} {w w' : Intake} {a : ActivityId}

theorem calledOff (h : Beside a w w') {p : Post} (off : CalledOff w a p) : CalledOff w' a p := by
  obtain ⟨hcalls, hseats, hpost⟩ := h.of_unseated off.seats
  exact {
    post := hpost.trans off.post
    waiting := off.waiting
    seats := hseats
    due_le := hcalls ▸ off.due_le
    stops := hcalls ▸ off.stops }

theorem quiet (h : Beside a w w') (hquiet : w.Quiet a) : w'.Quiet a := by
  cases hquiet with
  | calledOff off run stage => exact .calledOff (h.calledOff off) run stage
  | ended post run stage =>
      rename_i p outcome
      obtain ⟨k, -, -, hpost⟩ := h
      rw [post] at hpost
      by_cases hk : k = 0
      · rw [if_pos hk] at hpost
        exact .ended hpost run stage
      · rw [if_neg hk] at hpost
        exact .ended (p := p.awake) hpost run stage

theorem stands (h : Beside a w w') (stands : w.Stands S a) : w'.Stands S a :=
  ⟨h.inOrder stands.inOrder, fun hS => h.quiet (stands.quiet hS)⟩

end Beside

theorem Intake.goOn_of_idles {w : Intake} {a : ActivityId} (h : w.Idles a)
    (f : JobSpec → RunResult → Intake) : w.goOn a f = w := by
  obtain ⟨role, hrole, hidle⟩ := h
  have hnone : w.jobOf? a = none := by rw [jobOf?, hrole, Option.bind_some, hidle]
  unfold goOn
  rw [hnone]
  rfl

/-- What somebody does that makes no run, or waits for records. -/
inductive Intake.IdleMove (a : ActivityId) (w : Intake) : Intake → Prop where
  | rest : IdleMove a w w
  | ends (outcome : RunOutcome) : IdleMove a w (w.endOwner a outcome)
  | begins (r : RoundId) : IdleMove a w (w.beginRound a r)
  | gathers (r : RoundId) : IdleMove a w (w.gather a r)
  | takes : IdleMove a w (w.takeRecords a)
  | stops (woken : Bool) : IdleMove a w (w.stopTaking a woken)

theorem Intake.act_idleMove {w : Intake} {a : ActivityId} {role : Role}
    (hrole : w.role? a = some role) {stage : Stage}
    (h : role.job? = none ∨ stage = .awaitingRecord) (calledOff stop : Bool) :
    IdleMove a w (w.act a role calledOff stop stage) := by
  have hidle (hstage : stage ≠ .awaitingRecord) : role.job? = none := h.resolve_right hstage
  have hgoOn (hstage : stage ≠ .awaitingRecord) (f : JobSpec → RunResult → Intake) :
      IdleMove a w (w.goOn a f) := by
    rw [goOn_of_idles ⟨role, hrole, hidle hstage⟩]
    exact .rest
  unfold act
  cases stage with
  | fresh =>
      dsimp only
      split
      · exact .ends .cancelled
      · cases role with
        | run | member => cases hidle (by simp)
        | round r | collector r => exact .begins r
        | taker => exact .takes
  | inLine =>
      cases role with
      | member => cases hidle (by simp)
      | _ => exact .rest
  | atGate | onNetwork | atQueue => exact hgoOn (by simp) _
  | gathering =>
      dsimp only
      split
      · exact .ends .cancelled
      · split
        · exact .gathers _
        · exact .rest
  | awaitingRecord =>
      dsimp only
      split
      · exact .stops _
      · exact .takes
  | joining => exact .ends _
  | finished => exact .rest

theorem Intake.Quiet.role? {w : Intake} {a : ActivityId} (h : w.Quiet a) :
    ∃ role, w.role? a = some role ∧ role.job?.isSome = true := by
  cases h with
  | calledOff off run _ => exact ⟨_, by rw [role?_eq, off.post, Option.map_some], run⟩
  | ended post run _ => exact ⟨_, by rw [role?_eq, post, Option.map_some], run⟩

namespace Intake

theorem onRound_none {w : Intake} {r : RoundId} (hr : w.rounds[r]? = none) (f : Round → Round) :
    w.onRound r f = w := by
  have hsame : w.rounds.modify r f = w.rounds :=
    List.modify_eq_self (List.getElem?_eq_none_iff.mp hr)
  unfold onRound
  rw [hsame]

theorem onRound_beside (w : Intake) (r : RoundId) (b : ActivityId) {f : Round → Round}
    (h : ∀ x, (f x).permits.unserved.count b ≤ x.permits.unserved.count b) :
    Beside b w (w.onRound r f) := by
  cases hr : w.rounds[r]? with
  | none =>
      rw [onRound_none hr]
      exact .refl b w
  | some round =>
      refine .of_same rfl rfl ?_
      have hseats := seats_onRound w b hr f
      have hcount := h round
      omega

theorem onRound_keeps (w : Intake) (r : RoundId) {f : Round → Round}
    (howner : ∀ x, (f x).owner = x.owner)
    (hserved : ∀ x, (f x).permits.unserved.Sublist x.permits.unserved) :
    Keeps w (w.onRound r f) := by
  cases hr : w.rounds[r]? with
  | none =>
      rw [onRound_none hr]
      exact .refl w
  | some round =>
      exact .of_onRound hr (fun _ => rfl) rfl (howner round) fun b hb =>
        .inl ((hserved round).subset hb)

end Intake

namespace Orderly

variable {S : ActivityId → Prop} {w w' : Intake} {a : ActivityId}

theorem inOrder (h : Orderly S w) (b : ActivityId) : w.InOrder b := (h.stands b).inOrder

theorem quiet (h : Orderly S w) {b : ActivityId} (hb : S b) : w.Quiet b := (h.stands b).quiet hb

theorem mono (h : Orderly S w) {T : ActivityId → Prop} (hsub : ∀ b, T b → S b) : Orderly T w where
  stands := fun b => ⟨h.inOrder b, fun hb => h.quiet (hsub b hb)⟩
  members := h.members
  owners := h.owners

theorem insert (h : Orderly (fun b => S b ∧ b ≠ a) w) (hquiet : S a → w.Quiet a) : Orderly S w where
  stands := fun b => ⟨h.inOrder b, fun hb => by
    by_cases hba : b = a
    · subst hba
      exact hquiet hb
    · exact h.quiet ⟨hb, hba⟩⟩
  members := h.members
  owners := h.owners

theorem keep (h : Orderly S w) (keeps : Keeps w w') (stands : ∀ b, w'.Stands S b) :
    Orderly S w' where
  stands := stands
  members := by
    intro r round' hr' b hb
    obtain ⟨round, hr, -, hserved⟩ := keeps.rounds r round' hr'
    rw [keeps.role?]
    rcases hserved b hb with hold | hnew
    · exact h.members r round hr b hold
    · exact hnew
  owners := by
    intro r round' hr'
    obtain ⟨round, hr, howner, -⟩ := keeps.rounds r round' hr'
    rw [howner, Idles, keeps.role?]
    exact h.owners r round hr

theorem beside (h : Orderly S w) (hrounds : w'.rounds = w.rounds) (hall : ∀ b, Beside b w w') :
    Orderly S w' :=
  h.keep (.of_rounds (fun b => (hall b).role?) hrounds) fun b => (hall b).stands (h.stands b)

theorem of_idles (h : Orderly S w) (keeps : Keeps w w') (hidle : w.Idles a)
    (hothers : ∀ b, b ≠ a → Beside b w w') : Orderly S w' := by
  refine h.keep keeps fun b => ?_
  by_cases hb : b = a
  · subst hb
    obtain ⟨role, hrole, hjob⟩ := hidle
    refine ⟨?_, fun hS => ?_⟩
    · rw [← keeps.role?, role?_eq, Option.map_eq_some_iff] at hrole
      obtain ⟨p, hp, rfl⟩ := hrole
      exact .of_post hp fun hrun => by simp [hjob] at hrun
    · obtain ⟨known, hknown, hrun⟩ := (h.quiet hS).role?
      rw [hrole] at hknown
      cases hknown
      simp [hjob] at hrun
  · exact (hothers b hb).stands (h.stands b)

theorem unseated (h : Orderly S w) {p : Post} (hp : w.post? a = some p)
    (hrun : p.role.job?.isSome = true) (hwaiting : p.waiting = false) : w.seats a = 0 := by
  have hseats := ((h.inOrder a).run p hp hrun).seats_le
  simpa [hwaiting] using hseats

theorem pursuit (h : Orderly S w) {p : Post} (hp : w.post? a = some p)
    (hrun : p.role.job?.isSome = true) (hwaiting : p.waiting = false) (hcalls : w.calls a = [])
    (hloud : ¬S a) (pursuit : Pursuit a w w') : Orderly S w' := by
  have hseats := h.unseated hp hrun hwaiting
  have hstage := ((h.inOrder a).run p hp hrun).stage
  obtain ⟨u, motions, halt⟩ := pursuit
  obtain ⟨hcalls', hseats', hpost'⟩ := (motions.beside a).of_unseated hseats
  refine h.keep (motions.keeps.trans halt.keeps) fun b => ?_
  by_cases hb : b = a
  · subst hb
    exact ⟨halt.inOrder (hpost'.trans hp) hwaiting hstage (hcalls'.trans hcalls) hseats',
      fun hS => absurd hS hloud⟩
  · exact ((motions.beside b).trans (halt.beside hb)).stands (h.stands b)

/-! ## Those who make no run -/

theorem onActivity (h : Orderly S w) (hidle : w.Idles a) {f : Activity → Activity}
    (hf : ∀ x, (f x).role = x.role) : Orderly S (w.onActivity a f) :=
  h.of_idles (.of_rounds (role?_onActivity w a · hf) rfl) hidle fun b hb =>
    .of_same rfl (post?_onActivity_of_ne w a b hb f) (Nat.le_refl _)

theorem call (h : Orderly S w) (hidle : w.Idles a) (calledOff : Bool) :
    Orderly S (w.call (.move a calledOff)) := by
  refine h.of_idles (.of_rounds (fun _ => rfl) rfl) hidle fun b hb => ?_
  refine .of_same ?_ rfl (Nat.le_refl _)
  rw [calls_call, Call.calledOff?, if_neg (Ne.symm hb)]
  exact List.append_nil _

theorem onRound (h : Orderly S w) (r : RoundId) {f : Round → Round}
    (howner : ∀ x, (f x).owner = x.owner)
    (hserved : ∀ x, (f x).permits.unserved.Sublist x.permits.unserved) :
    Orderly S (w.onRound r f) :=
  h.keep (onRound_keeps w r howner hserved) fun b =>
    (onRound_beside w r b fun x => (hserved x).count_le b).stands (h.stands b)

end Orderly

/-! ## Cancellation -/

namespace Intake

section

variable (w : Intake) (a : ActivityId)

theorem leaveLines_keeps : Keeps w (w.leaveLines a) := by
  have hqueue : Keeps w { w with
      queue := w.queue.leave a
      gateLine := w.gateLine.filter fun e => e.2 != a } := .of_rounds (fun _ => rfl) rfl
  unfold leaveLines
  dsimp only
  split
  · refine hqueue.trans (onRound_keeps _ _ (by exact fun _ => rfl) fun x => ?_)
    rw [Permits.unserved_leave]
    exact List.filter_sublist
  · exact hqueue

theorem leaveLines_beside (b : ActivityId) : Beside b w (w.leaveLines a) := by
  have hqueue : Beside b w { w with
      queue := w.queue.leave a
      gateLine := w.gateLine.filter fun e => e.2 != a } := by
    refine .of_same rfl rfl ?_
    have hputters := (w.queue.putters.erase_sublist (a := a)).count_le b
    have hgetters := (w.queue.getters.erase_sublist (a := a)).count_le b
    have hgate := ((List.filter_sublist (p := fun e : String × ActivityId => e.2 != a)
      (l := w.gateLine)).map (·.2)).count_le b
    rw [seats_eq, seats_eq]
    simp only [RecordQueue.leave]
    omega
  unfold leaveLines
  dsimp only
  split
  · refine hqueue.trans (onRound_beside _ _ b fun x => ?_)
    rw [Permits.unserved_leave]
    exact List.filter_sublist.count_le b
  · exact hqueue

theorem leaveLines_post? (b : ActivityId) : (w.leaveLines a).post? b = w.post? b := by
  unfold leaveLines
  dsimp only
  split <;> rfl

theorem leaveLines_calls (b : ActivityId) : (w.leaveLines a).calls b = w.calls b := by
  unfold leaveLines
  dsimp only
  split <;> rfl

theorem leaveLines_queue : (w.leaveLines a).queue = w.queue.leave a := by
  unfold leaveLines
  dsimp only
  split <;> rfl

theorem leaveLines_gateLine :
    (w.leaveLines a).gateLine = w.gateLine.filter fun e => e.2 != a := by
  unfold leaveLines
  dsimp only
  split <;> rfl

end

end Intake

namespace Orderly

variable {S : ActivityId → Prop} {w : Intake} {a : ActivityId}

/-- Who stands in one line at most stands in none when it has left them all. -/
theorem seats_leaveLines (h : Orderly S w) (hone : w.seats a ≤ 1) :
    (w.leaveLines a).seats a = 0 := by
  have hrounds : ((w.leaveLines a).rounds.flatMap fun x => x.permits.unserved).count a = 0 := by
    rw [List.count_eq_zero]
    intro hmem
    obtain ⟨round', hround', ha⟩ := List.mem_flatMap.mp hmem
    obtain ⟨r', hr'⟩ := List.getElem?_of_mem hround'
    obtain ⟨round, hr, -, hserved⟩ := (leaveLines_keeps w a).rounds r' round' hr'
    have hmember : ∃ j, w.role? a = some (.member r' j) :=
      (hserved a ha).elim (h.members r' round hr a) id
    -- Only the line of its own round can hold it, and this is the one that it leaves.
    obtain ⟨j, hrole⟩ := hmember
    have hleft : (w.leaveLines a).rounds =
        w.rounds.modify r' fun x => { x with permits := x.permits.leave a } := by
      unfold leaveLines
      dsimp only
      have hrole' : ({ w with
          queue := w.queue.leave a
          gateLine := w.gateLine.filter fun e => e.2 != a } : Intake).role? a =
            some (.member r' j) := hrole
      rw [hrole']
      rfl
    rw [hleft, List.getElem?_modify, hr] at hr'
    simp only [if_true, Option.map_eq_map, Option.map_some, Option.some.injEq] at hr'
    rw [← hr', Permits.unserved_leave] at ha
    simp at ha
  have hqueue := leaveLines_queue w a
  have hgate := leaveLines_gateLine w a
  rw [seats_eq] at hone ⊢
  rw [hrounds, hqueue, hgate]
  have hnone : ((w.gateLine.filter fun e => e.2 != a).map (·.2)).count a = 0 := by
    rw [List.count_eq_zero]
    simp
  simp only [RecordQueue.leave, List.count_erase_self]
  omega

end Orderly

namespace Intake

/-- All that calling off an activity can do. -/
theorem callOff_cases (w : Intake) (a : ActivityId) :
    ((w.callOff a).1 = w ∧ ∀ p, w.post? a = some p → ∃ outcome, p.stage = .finished outcome) ∨
      ∃ p, w.post? a = some p ∧ (∀ outcome, p.stage ≠ .finished outcome) ∧
        (p.waiting = true ∧ (w.callOff a).1 = ((w.leaveLines a).onActivity a
            fun x => { x with waiting := false }).call (.move a true) ∨
          p.waiting = false ∧
            (w.callOff a).1 = w.onActivity a fun x => { x with stopping := true }) := by
  unfold callOff
  simp only [post?_eq]
  split
  · rename_i hnobody
    exact .inl ⟨rfl, fun p hp => by simp [hnobody] at hp⟩
  · rename_i x hx
    rw [hx]
    split
    · rename_i outcome hstage
      exact .inl ⟨rfl, fun p hp => ⟨outcome, by cases hp; exact hstage⟩⟩
    · rename_i hstage
      refine .inr ⟨x.post, rfl, hstage, ?_⟩
      split
      · rename_i hwaiting
        exact .inl ⟨hwaiting, rfl⟩
      · rename_i hwaiting
        exact .inr ⟨(Bool.not_eq_true _).mp hwaiting, rfl⟩

variable {w : Intake} {a b : ActivityId}

theorem callOff_keeps (w : Intake) (a : ActivityId) : Keeps w (w.callOff a).1 := by
  rcases callOff_cases w a with ⟨heq, -⟩ | ⟨p, -, -, ⟨-, heq⟩ | ⟨-, heq⟩⟩ <;> rw [heq]
  · exact .refl w
  · refine (leaveLines_keeps w a).trans (.of_rounds (fun b => ?_) rfl)
    exact role?_onActivity (w.leaveLines a) a b fun _ => rfl
  · exact .of_rounds (role?_onActivity w a · fun _ => rfl) rfl

theorem callOff_beside (w : Intake) (hb : b ≠ a) : Beside b w (w.callOff a).1 := by
  rcases callOff_cases w a with ⟨heq, -⟩ | ⟨p, -, -, ⟨-, heq⟩ | ⟨-, heq⟩⟩ <;> rw [heq]
  · exact .refl b w
  · refine (leaveLines_beside w a b).trans (.of_same ?_ ?_ (Nat.le_refl _))
    · rw [calls_call, Call.calledOff?, if_neg (Ne.symm hb)]
      exact List.append_nil _
    · exact post?_onActivity_of_ne (w.leaveLines a) a b hb _
  · exact .of_same rfl (post?_onActivity_of_ne w a b hb _) (Nat.le_refl _)

end Intake

namespace Orderly

variable {S : ActivityId → Prop} {w : Intake} {a : ActivityId}

/-- A run that goes on when it is called off learns of it: either nothing else is due for it, or it
remembers to stop. -/
theorem calledOff (h : Orderly S w) {p : Post} (hp : w.post? a = some p)
    (hrun : p.role.job?.isSome = true) (hstage : ∀ outcome, p.stage ≠ .finished outcome) :
    ∃ p', CalledOff (w.callOff a).1 a p' ∧ p'.role = p.role ∧ p'.stage = p.stage := by
  have order := (h.inOrder a).run p hp hrun
  have hline := order.seats_le
  have hdue := order.due_le
  rcases callOff_cases w a with
    ⟨-, hended⟩ | ⟨q, hq, -, ⟨hwaiting, heq⟩ | ⟨hwaiting, heq⟩⟩
  · obtain ⟨outcome, hfinished⟩ := hended p hp
    exact absurd hfinished (hstage outcome)
  · rw [hp] at hq
    cases hq
    rw [hwaiting, Bool.toNat_true] at hline hdue
    have hnone : w.calls a = [] := List.eq_nil_of_length_eq_zero (by omega)
    have hcalls : (w.callOff a).1.calls a = [true] := by
      rw [heq, calls_call]
      show (w.leaveLines a).calls a ++ _ = _
      rw [leaveLines_calls, hnone, Call.calledOff?, if_pos rfl]
      rfl
    refine ⟨{ p with waiting := false }, ?_, rfl, rfl⟩
    exact {
      post := by
        rw [heq, post?_call, post?_onActivity _ a a (g := fun p => { p with waiting := false })
          (by exact fun _ => rfl), if_pos rfl, leaveLines_post?, hp, Option.map_some]
      waiting := rfl
      seats := by rw [heq]; exact h.seats_leaveLines hline
      due_le := by simp [hcalls]
      stops := .inr (by simp [hcalls]) }
  · rw [hp] at hq
    cases hq
    refine ⟨{ p with stopping := true }, ?_, rfl, rfl⟩
    rw [heq]
    exact {
      post := by
        rw [post?_onActivity _ a a (g := fun p => { p with stopping := true })
          (by exact fun _ => rfl), if_pos rfl, hp, Option.map_some]
      waiting := hwaiting
      seats := h.unseated hp hrun hwaiting
      due_le := by
        show (w.calls a).length ≤ 1
        omega
      stops := .inl rfl }

theorem callOff (h : Orderly S w) (a : ActivityId) : Orderly S (w.callOff a).1 := by
  rcases callOff_cases w a with ⟨heq, -⟩ | ⟨p, hp, hstage, -⟩
  · rw [heq]
    exact h
  · by_cases hrun : p.role.job?.isSome = true
    · refine h.keep (callOff_keeps w a) fun b => ?_
      by_cases hb : b = a
      · subst hb
        obtain ⟨p', off, hrole, hsame⟩ := h.calledOff hp hrun hstage
        constructor
        · refine .of_post off.post fun _ => .of_going off.waiting off.due_le ?_ off.seats
          rw [hsame]
          exact ((h.inOrder b).run p hp hrun).stage
        · intro hS
          cases h.quiet hS with
          | calledOff off' _ hqueue =>
              have hsome := off'.post
              rw [hp] at hsome
              cases hsome
              exact .calledOff off (by rw [hrole]; exact hrun) (hsame.trans hqueue)
          | ended post _ hfinished =>
              rw [hp] at post
              cases post
              exact absurd hfinished (hstage _)
      · exact (callOff_beside w hb).stands (h.stands b)
    · refine h.of_idles (callOff_keeps w a) ⟨p.role, ?_, by simpa using hrun⟩
        fun b hb => callOff_beside w hb
      rw [role?_eq, hp, Option.map_some]

theorem callOffAll (h : Orderly S w) (members : List ActivityId) :
    Orderly S (w.callOffAll members).1 :=
  callOffAll_induction members h fun _ m hv => hv.callOff m

end Orderly

theorem Intake.callOffAll_keeps (w : Intake) (members : List ActivityId) :
    Keeps w (w.callOffAll members).1 :=
  callOffAll_induction (P := Keeps w) members (.refl w) fun v m hv => hv.trans (callOff_keeps v m)

theorem Intake.idles_of_gathered? {w : Intake} {a : ActivityId} {r : RoundId}
    (h : w.gathered? a = some r) : w.Idles a := by
  obtain ⟨x, hx, hround⟩ := Option.bind_eq_some_iff.mp h
  have hrole : w.role? a = some x.role := by rw [role?, hx, Option.map_some]
  split at hround
  · split at hround
    · refine ⟨x.role, hrole, ?_⟩
      cases hr : x.role with
      | run j | member _ j =>
          rw [hr] at hround
          cases hround
      | _ => rfl
    · cases hround
  · cases hround

theorem Orderly.cancel {w : Intake} (h : Orderly S w) (a : ActivityId) :
    Orderly S (w.cancel a).1 := by
  unfold Intake.cancel
  split
  · exact h.callOff a
  · rename_i r round hgathered
    obtain ⟨r', hr', -⟩ := Option.bind_eq_some_iff.mp hgathered
    have hall := h.callOffAll round.members
    have hidle : (w.callOffAll round.members).1.Idles a := by
      rw [Idles, (callOffAll_keeps w round.members).role?]
      exact idles_of_gathered? hr'
    dsimp only
    split
    · exact hall.onRound r (by exact fun _ => rfl) fun _ => .refl _
    · exact hall.onActivity hidle fun _ => rfl

namespace Orderly

variable {S : ActivityId → Prop} {w : Intake} {a : ActivityId}

/-! ## Owners of rounds -/

theorem of_scene {w' : Intake} (h : Orderly S w) (hscene : w'.scene = w.scene) : Orderly S w' :=
  h.beside (rounds_of_scene hscene) fun b => (Motion.aside (a := b) hscene).beside b

theorem close (h : Orderly S w) (hidle : w.Idles a) (outcome : RunOutcome) :
    Orderly S (w.close a outcome) :=
  h.of_idles (Halt.finish w outcome).keeps hidle fun _ hb => close_beside w hb outcome

theorem suspend (h : Orderly S w) (hidle : w.Idles a) (stage : Stage) :
    Orderly S (w.suspend a stage) := h.onActivity hidle fun _ => rfl

theorem endOwner (h : Orderly S w) (hidle : w.Idles a) (outcome : RunOutcome) :
    Orderly S (w.endOwner a outcome) := by
  unfold Intake.endOwner
  split
  · rename_i r taker _
    refine (h.callOff taker).close ?_ outcome
    rw [Idles, (callOff_keeps w taker).role?]
    exact hidle
  · exact h.close hidle outcome

theorem endRound (h : Orderly S w) (hidle : w.Idles a) (r : RoundId) (results : List RunResult) :
    Orderly S (w.endRound a r results) := by
  have hround := h.onRound r (f := fun x => { x with results }) (fun _ => rfl) fun _ => .refl _
  unfold Intake.endRound
  dsimp only
  split
  · split
    · exact hround.endOwner hidle .done
    · exact hround.suspend hidle .joining
  · exact hround.endOwner hidle .done

theorem gather (h : Orderly S w) (hidle : w.Idles a) (r : RoundId) : Orderly S (w.gather a r) := by
  unfold Intake.gather
  split
  · exact h
  · have hlog {v : Intake} (hv : Orderly S v) (entries : List LogEntry) :
        Orderly S (v.log entries) := hv.of_scene rfl
    dsimp only
    split
    · exact (hlog h _).endOwner hidle .cancelled
    · exact (hlog (hlog h _) _).endRound hidle r _

theorem note (h : Orderly S w) (r : RoundId) : Orderly S (w.note r) := by
  have hround := h.onRound r (f := fun x => { x with ended := x.ended + 1 }) (fun _ => rfl)
    fun _ => .refl _
  unfold Intake.note
  dsimp only
  split
  · exact hround
  · rename_i round hr
    split
    · have hidle := hround.owners r round hr
      refine (hround.onActivity hidle (by exact fun _ => rfl)).call ?_ round.stopping
      rw [Idles, role?_onActivity _ _ _ (by exact fun _ => rfl)]
      exact hidle
    · exact hround

/-! ## New activities -/

theorem add (h : Orderly S w) (role : Role) : Orderly S (w.add role).1 := by
  have hnobody : w.post? w.activities.length = none := by
    rw [post?_eq, activity?, List.getElem?_eq_none (Nat.le_refl _), Option.map_none]
  have hcalls (b : ActivityId) : (w.add role).1.calls b =
      w.calls b ++ (Call.calledOff? b (.move w.activities.length false)).toList :=
    calls_call { w with activities := _ } b _
  have hold {b : ActivityId} (hb : b ≠ w.activities.length) : Beside b w (w.add role).1 := by
    refine .of_same ?_ (post?_add_of_ne w hb role) (Nat.le_refl _)
    rw [hcalls, Call.calledOff?, if_neg (Ne.symm hb)]
    exact List.append_nil _
  have hrole {b : ActivityId} {known : Role} (hknown : w.role? b = some known) :
      (w.add role).1.role? b = some known := by
    rw [(hold fun hb => ?_).role?, hknown]
    rw [hb, role?_eq, hnobody] at hknown
    cases hknown
  exact {
    stands := by
      intro b
      by_cases hb : b = w.activities.length
      · obtain ⟨hnone, hseats⟩ := (h.inOrder w.activities.length).nobody hnobody
        subst hb
        refine ⟨.of_post (post?_add_self w role) fun _ => .of_going rfl ?_ rfl hseats, fun hS => ?_⟩
        · rw [hcalls, hnone, Call.calledOff?, if_pos rfl]
          exact Nat.le_refl _
        · -- Nobody was in this place before, and so nobody known to be quiet.
          obtain ⟨known, hknown, -⟩ := (h.quiet hS).role?
          rw [role?_eq, hnobody] at hknown
          cases hknown
      · exact (hold hb).stands (h.stands b)
    members := by
      intro r round hr b hb
      obtain ⟨j, hmember⟩ := h.members r round hr b hb
      exact ⟨j, hrole hmember⟩
    owners := by
      intro r round hr
      obtain ⟨known, hknown, hjob⟩ := h.owners r round hr
      exact ⟨known, hrole hknown, hjob⟩ }

theorem idles_add_self (w : Intake) {role : Role} (hrole : role.job? = none) :
    (w.add role).1.Idles w.activities.length :=
  ⟨role, by rw [role?_eq, post?_add_self, Option.map_some], hrole⟩

theorem idles_add (hidle : w.Idles a) (role : Role) : (w.add role).1.Idles a := by
  obtain ⟨known, hknown, hjob⟩ := hidle
  obtain ⟨x, hx, rfl⟩ := Option.map_eq_some_iff.mp hknown
  refine ⟨x.role, ?_, hjob⟩
  have hlt := (List.getElem?_eq_some_iff.mp hx).choose
  rw [role?_eq, post?_add_of_ne w (Nat.ne_of_lt hlt), ← role?_eq, hknown]

theorem addRound (h : Orderly S w) (spec : RoundSpec) (hidle : w.Idles a) :
    Orderly S { w with rounds := w.rounds ++ [Round.new spec a] } := by
  have hround {r : RoundId} {round : Round}
      (hr : (w.rounds ++ [Round.new spec a])[r]? = some round) :
      w.rounds[r]? = some round ∨ round = Round.new spec a := by
    rw [List.getElem?_append] at hr
    split at hr
    · exact .inl hr
    · exact .inr (List.mem_singleton.mp (List.mem_of_getElem? hr))
  have hsame (b : ActivityId) : Beside b w { w with rounds := w.rounds ++ [Round.new spec a] } := by
    refine .of_same rfl rfl (Nat.le_of_eq ?_)
    simp only [seats_eq, List.flatMap_append, List.count_append]
    rfl
  exact {
    stands := fun b => (hsame b).stands (h.stands b)
    members := by
      intro r round hr b hb
      rcases hround hr with hold | rfl
      · exact h.members r round hold b hb
      · cases hb
    owners := by
      intro r round hr
      rcases hround hr with hold | rfl
      · exact h.owners r round hold
      · exact hidle }

theorem addMember (h : Orderly S w) (r : RoundId) (spec : JobSpec) (supplier : SupplierId) :
    Orderly S (w.addMember r spec supplier) := by
  have hjob : Orderly S (w.addJob spec supplier).1 := h.beside rfl fun b =>
    .of_same rfl rfl (Nat.le_refl _)
  exact (hjob.add _).onRound r (fun _ => rfl) fun _ => .refl _

theorem idles_addMember (hidle : w.Idles a) (r : RoundId) (spec : JobSpec)
    (supplier : SupplierId) : (w.addMember r spec supplier).Idles a :=
  idles_add (w := (w.addJob spec supplier).1) hidle (.member r w.jobs.length)

theorem beginRound (h : Orderly S w) (hidle : w.Idles a) (r : RoundId) :
    Orderly S (w.beginRound a r) := by
  have hlog (entries : List LogEntry) : Orderly S (w.log entries) := h.of_scene rfl
  exact beginRound_induction (Q := fun v => Orderly S v ∧ v.Idles a) h (h.endRound hidle r [])
    (fun entries outcome => (hlog entries).endOwner hidle outcome)
    (fun entries count => ⟨(hlog entries).onRound r
      (f := fun x => { x with permits := .ofCount count }) (fun _ => rfl)
      fun x => List.nil_sublist _, hidle⟩)
    (fun v spec supplier hv =>
      ⟨hv.1.addMember r spec supplier, idles_addMember hv.2 r spec supplier⟩)
    fun v hv => hv.1.suspend hv.2 .gathering

/-! ## Takers -/

end Orderly

namespace Intake

theorem role?_of_core {w w' : Intake} {a : ActivityId} (h : w'.view.core a = w.view.core a) :
    w'.role? a = w.role? a := by
  have hcore (v : Intake) : v.role? a = (v.view.core a).map (·.role) := by
    rw [view_core, role?, Option.map_map]
    rfl
  rw [hcore, hcore, h]

theorem core_takeRecord (w : Intake) (a : ActivityId) :
    w.takeRecord.view.core a = w.view.core a := by
  refine takeRecord_induction (P := fun v => v.view.core a = w.view.core a) rfl (fun _ => ?_)
    fun v b _ hv => ?_
  · rw [view_withQueue]
    rfl
  · rw [view_wake]
    exact hv

end Intake

namespace Intake

theorem pop_beside {w : Intake} {record : Record} {queue : RecordQueue}
    {putter : Option ActivityId} (hpop : w.queue.pop = some (record, queue, putter))
    (b : ActivityId) : Beside b w (w.withQueue (queue.settleOne, putter)) := by
  refine withQueue_beside w b ?_
  unfold RecordQueue.pop at hpop
  split at hpop
  · cases hpop
  · cases hpop
    have htail := count_head?_tail w.queue.putters b
    simp only [RecordQueue.settleOne]
    omega

theorem rounds_openGate (w : Intake) (source : String) : (w.openGate source).rounds = w.rounds :=
  openGate_induction (P := fun v => v.rounds = w.rounds) source (fun _ _ => rfl) fun _ _ hv => hv

/-- Who is let in at a gate has left its line. -/
theorem openGate_beside (w : Intake) (source : String) (b : ActivityId) :
    Beside b w (w.openGate source) := by
  have hfold (l : List (String × ActivityId)) (v : Intake) :
      l.foldl (fun w e => w.wake e.2) v = (l.map (·.2)).foldl Intake.wake v := by
    rw [List.foldl_map]
  have hgate := ((List.filter_append_perm
    (fun e : String × ActivityId => e.1 == source) w.gateLine).map (·.2)).count_eq b
  rw [List.map_append, List.count_append] at hgate
  unfold Intake.openGate
  rw [List.partition_eq_filter_filter]
  dsimp only
  rw [hfold]
  refine Beside.wakeAll _ (k := 0) (List.append_nil _).symm ?_ rfl
  rw [seats_eq, seats_eq]
  dsimp only [Function.comp_def]
  omega

end Intake

namespace Orderly

variable {S : ActivityId → Prop} {w : Intake} {a : ActivityId}

theorem wake (h : Orderly S w) (hidle : w.Idles a) : Orderly S (w.wake a) := by
  refine (h.onActivity hidle (by exact fun _ => rfl)).call ?_ false
  rw [Idles, role?_onActivity _ _ _ (by exact fun _ => rfl)]
  exact hidle

theorem idles_of_joining (h : Orderly S w) {x : Activity} (hx : w.activity? a = some x)
    (hstage : x.stage = .joining) : w.Idles a := by
  refine ⟨x.role, by rw [role?, hx, Option.map_some], ?_⟩
  cases hjob : x.role.job? with
  | none => rfl
  | some j =>
      have hpost : w.post? a = some x.post := by rw [post?_eq, hx, Option.map_some]
      have hrun : x.post.role.job?.isSome = true := by
        rw [show x.post.role = x.role from rfl, hjob]
        rfl
      have hline := ((h.inOrder a).run _ hpost hrun).stage
      rw [show x.post.stage = .joining from hstage] at hline
      cases hline

theorem withQueue (h : Orderly S w) {q : RecordQueue × Option ActivityId}
    (hq : ∀ b, q.1.putters.count b + q.1.getters.count b + q.2.toList.count b ≤
      w.queue.putters.count b + w.queue.getters.count b) : Orderly S (w.withQueue q) :=
  h.beside (rounds_wakeAny _ _) fun b => withQueue_beside w b (hq b)

theorem pop (h : Orderly S w) {record : Record} {queue : RecordQueue} {putter : Option ActivityId}
    (hpop : w.queue.pop = some (record, queue, putter)) :
    Orderly S (w.withQueue (queue.settleOne, putter)) :=
  h.beside (rounds_wakeAny _ _) fun b => pop_beside hpop b

theorem takeOne {w' : Intake} (h : Orderly S w) {record : Record}
    (htake : w.takeOne = some (record, w')) : Orderly S w' := by
  obtain ⟨⟨first, queue, putter⟩, hpop, heq⟩ := Option.map_eq_some_iff.mp htake
  obtain ⟨rfl, rfl⟩ := Prod.mk.inj heq
  have htold : Orderly S (w.tell (.taken first)) := h.of_scene rfl
  exact htold.pop hpop

theorem takeRecord (h : Orderly S w) : Orderly S w.takeRecord := by
  refine takeRecord_induction h (fun {record _ _} hpop => ?_) fun v b ⟨x, hx, hstage⟩ hv =>
    hv.wake (hv.idles_of_joining hx hstage)
  have htold :
      Orderly S (({ w with taken := w.taken ++ [record] } : Intake).tell (.taken record)) :=
    h.of_scene rfl
  exact htold.pop hpop

theorem takeRecords (h : Orderly S w) (hidle : w.Idles a) : Orderly S (w.takeRecords a) := by
  have hall : Orderly S (Nat.repeat Intake.takeRecord w.queue.records.length w) ∧
      (Nat.repeat Intake.takeRecord w.queue.records.length w).Idles a := by
    refine repeat_takeRecord_induction (P := fun v => Orderly S v ∧ v.Idles a) _ ⟨h, hidle⟩
      fun v hv => ⟨hv.1.takeRecord, ?_⟩
    rw [Idles, role?_of_core (core_takeRecord v a)]
    exact hv.2
  unfold Intake.takeRecords
  dsimp only
  obtain ⟨horder, hidle'⟩ := hall
  generalize Nat.repeat Intake.takeRecord w.queue.records.length w = v at horder hidle'
  have hjoined : Orderly S { v with queue := v.queue.awaitRecord a } := by
    refine horder.of_idles (.of_rounds (fun _ => rfl) rfl) hidle' fun b hb => ?_
    refine .of_same rfl rfl ?_
    simp [seats_eq, RecordQueue.awaitRecord, Ne.symm hb]
  exact hjoined.suspend hidle' .awaitingRecord

theorem stopTaking (h : Orderly S w) (hidle : w.Idles a) (woken : Bool) :
    Orderly S (w.stopTaking a woken) := by
  unfold Intake.stopTaking
  dsimp only
  split
  · have hlines (b : ActivityId) : w.queue.nextGetter.1.putters.count b +
        w.queue.nextGetter.1.getters.count b + w.queue.nextGetter.2.toList.count b ≤
          w.queue.putters.count b + w.queue.getters.count b := by
      have htail := count_head?_tail w.queue.getters b
      simp only [RecordQueue.nextGetter]
      omega
    refine (h.withQueue hlines).close ?_ .cancelled
    rw [Idles, (withQueue_beside w a (hlines a)).role?]
    exact hidle
  · exact h.close hidle .cancelled

/-! ## Whatever happens -/

theorem openGate (h : Orderly S w) (source : String) : Orderly S (w.openGate source) :=
  h.beside (rounds_openGate w source) (openGate_beside w source)

theorem act (h : Orderly S w) {role : Role} (hrole : w.role? a = some role)
    (hidle : role.job? = none) (calledOff stop : Bool) (stage : Stage) :
    Orderly S (w.act a role calledOff stop stage) := by
  have hidles : w.Idles a := ⟨role, hrole, hidle⟩
  have move := act_idleMove hrole (.inl hidle : _ ∨ stage = .awaitingRecord) calledOff stop
  generalize w.act a role calledOff stop stage = v at move ⊢
  cases move with
  | rest => exact h
  | ends outcome => exact h.endOwner hidles outcome
  | begins r => exact h.beginRound hidles r
  | gathers r => exact h.gather hidles r
  | takes => exact h.takeRecords hidles
  | stops woken => exact h.stopTaking hidles woken

end Orderly

/-- What is due for somebody is due after one call less, or this call is for it. -/
theorem Intake.length_calls_of_ready {w : Intake} {before after : List Call} {c : Call}
    (hready : w.ready = before ++ c :: after) (b : ActivityId) :
    (w.calls b).length = (calls { w with ready := before ++ after } b).length +
      (c.calledOff? b).toList.length := by
  unfold calls
  rw [hready]
  cases hc : c.calledOff? b <;> simp [List.filterMap_append, hc]
  omega

theorem Intake.mem_calls_of_ready {w : Intake} {before after : List Call} {c : Call}
    (hready : w.ready = before ++ c :: after) {b : ActivityId} {calledOff : Bool}
    (hmem : calledOff ∈ calls { w with ready := before ++ after } b) : calledOff ∈ w.calls b := by
  obtain ⟨c', hc', heq⟩ := List.mem_filterMap.mp hmem
  refine List.mem_filterMap.mpr ⟨c', ?_, heq⟩
  rw [hready]
  rcases List.mem_append.mp hc' with hbefore | hafter
  · exact List.mem_append_left _ hbefore
  · exact List.mem_append_right _ (List.mem_cons_of_mem _ hafter)

theorem Intake.move_of_nobody {w : Intake} {a : ActivityId} (hx : w.activity? a = none)
    (ready : List Call) (calledOff : Bool) :
    ({ w with ready } : Intake).move a calledOff = { w with ready } := by
  unfold Intake.move
  rw [show ({ w with ready } : Intake).activity? a = none from hx]

namespace Orderly

variable {S : ActivityId → Prop} {w : Intake} {a : ActivityId} {before after : List Call}

theorem forget {c : Call} (h : Orderly S w) (hready : w.ready = before ++ c :: after) :
    Orderly S { w with ready := before ++ after } := by
  refine h.keep (.of_rounds (fun _ => rfl) rfl) fun b => ?_
  have hlength := length_calls_of_ready hready b
  constructor
  · constructor
    · intro hnone
      obtain ⟨hcalls, hseats⟩ := (h.inOrder b).nobody hnone
      rw [hcalls, List.length_nil] at hlength
      exact ⟨List.eq_nil_of_length_eq_zero (by omega), hseats⟩
    · intro p hp hrun
      obtain ⟨hline, hdue, hstage⟩ := (h.inOrder b).run p hp hrun
      exact ⟨hline, by omega, hstage⟩
  · intro hS
    cases h.quiet hS with
    | calledOff off run stage =>
        refine .calledOff ⟨off.post, off.waiting, off.seats, ?_, ?_⟩ run stage
        · have hdue := off.due_le
          omega
        · exact off.stops.imp_right fun hall calledOff hmem =>
            hall calledOff (mem_calls_of_ready hready hmem)
    | ended post run stage => exact .ended post run stage

/-- A run that is due to move is due for nothing else, and does not wait. -/
theorem going {calledOff : Bool} (h : Orderly S w)
    (hready : w.ready = before ++ .move a calledOff :: after) {p : Post}
    (hp : w.post? a = some p) (hrun : p.role.job?.isSome = true) :
    p.waiting = false ∧ calls { w with ready := before ++ after } a = [] := by
  have hdue := ((h.inOrder a).run p hp hrun).due_le
  have hlength := length_calls_of_ready hready a
  rw [Call.calledOff?, if_pos rfl, Option.toList_some, List.length_singleton] at hlength
  refine ⟨?_, List.eq_nil_of_length_eq_zero (by omega)⟩
  cases hwaiting : p.waiting with
  | false => rfl
  | true =>
      rw [hwaiting, Bool.toNat_true] at hdue
      omega

end Orderly

/-! ## Moves -/

/-- An activity is about to move, and what is due after that is known. -/
def Intake.attend (w : Intake) (a : ActivityId) (due : List Call) : Intake :=
  ({ w with ready := due } : Intake).onActivity a fun x => { x with stopping := false }

theorem Intake.move_eq_act {w : Intake} {a : ActivityId} {x : Activity}
    (hx : w.activity? a = some x) (due : List Call) (calledOff : Bool) :
    ({ w with ready := due } : Intake).move a calledOff =
      (w.attend a due).act a x.role calledOff (calledOff || x.stopping) x.stage := by
  unfold Intake.move
  rw [show ({ w with ready := due } : Intake).activity? a = some x from hx]
  rfl

theorem Intake.post?_attend {w : Intake} {a : ActivityId} {p : Post} (hp : w.post? a = some p)
    (due : List Call) : (w.attend a due).post? a = some { p with stopping := false } := by
  rw [attend, post?_onActivity _ a a (g := fun p => { p with stopping := false })
    (by exact fun _ => rfl), if_pos rfl]
  show (w.post? a).map _ = _
  rw [hp, Option.map_some]

theorem Intake.history_abandonPut (w : Intake) (a : ActivityId) (spec : JobSpec) (r : RunResult)
    (woken : Bool) : (w.abandonPut a spec r woken).history = w.history := by
  have hend (v : Intake) : (v.cancelRun a spec r).view.history = v.view.history := by
    unfold cancelRun
    rw [view_endRun, view_log, view_advance]
    rfl
  unfold abandonPut
  refine (hend _).trans ?_
  split
  · rw [view_withQueue]
    rfl
  · rfl

namespace Orderly

variable {S : ActivityId → Prop} {w : Intake} {a : ActivityId} {before after : List Call}
  {calledOff : Bool}

/-- Whoever is about to move forgets that it was to stop, and so is not known to be quiet. -/
theorem attend {c : Call} (h : Orderly S w) (hready : w.ready = before ++ c :: after) {p : Post}
    (hp : w.post? a = some p) :
    Orderly (fun b => S b ∧ b ≠ a) (w.attend a (before ++ after)) := by
  have hforgot := (h.forget hready).mono (T := fun b => S b ∧ b ≠ a) fun _ hb => hb.1
  refine hforgot.keep (.of_rounds (role?_onActivity _ a · fun _ => rfl) rfl) fun b => ?_
  by_cases hb : b = a
  · subst hb
    refine ⟨.of_post (post?_attend hp _) fun hrun => ?_, fun hS => absurd rfl hS.2⟩
    obtain ⟨hline, hdue, hstage⟩ := (hforgot.inOrder b).run p hp hrun
    exact ⟨hline, hdue, hstage⟩
  · have hbeside : Beside b { w with ready := before ++ after } (w.attend a (before ++ after)) :=
      .of_same rfl (post?_onActivity_of_ne _ a b hb _) (Nat.le_refl _)
    exact hbeside.stands (hforgot.stands b)

/-- A run that moves does so by motions and halts, in order and with nothing else due for it. -/
theorem move_pursuit (h : Orderly S w) (hready : w.ready = before ++ .move a calledOff :: after)
    {p : Post} (hp : w.post? a = some p) (hrun : p.role.job?.isSome = true) :
    p.waiting = false ∧ (w.attend a (before ++ after)).calls a = [] ∧
      Pursuit a (w.attend a (before ++ after))
        (({ w with ready := before ++ after } : Intake).move a calledOff) := by
  obtain ⟨hwaiting, hcalls⟩ := h.going hready hp hrun
  refine ⟨hwaiting, hcalls, ?_⟩
  obtain ⟨j, hjob⟩ := Option.isSome_iff_exists.mp hrun
  have hstage := ((h.inOrder a).run p hp hrun).stage
  rw [post?_eq, Option.map_eq_some_iff] at hp
  obtain ⟨x, hx, rfl⟩ := hp
  have hrole : (w.attend a (before ++ after)).role? a = some x.role := by
    rw [role?_eq, post?_attend (p := x.post) (by rw [post?_eq, hx, Option.map_some]),
      Option.map_some]
    rfl
  rw [move_eq_act hx]
  refine act_pursuit hrole hjob _ _ fun heq => ?_
  rw [show x.post.stage = x.stage from rfl, heq] at hstage
  cases hstage

/-- A quiet run that moves stops at last, and tells nothing on its way. -/
theorem quiet_move (h : Orderly S w) (hready : w.ready = before ++ .move a calledOff :: after)
    (hquiet : w.Quiet a) :
    (({ w with ready := before ++ after } : Intake).move a calledOff).Quiet a ∧
      (({ w with ready := before ++ after } : Intake).move a calledOff).history = w.history := by
  cases hquiet with
  | ended post run stage =>
      rename_i p outcome
      have hpost := post?_attend post (before ++ after)
      rw [post?_eq, Option.map_eq_some_iff] at post
      obtain ⟨x, hx, rfl⟩ := post
      rw [move_eq_act hx, show x.stage = .finished outcome from stage]
      exact ⟨.ended hpost run stage, rfl⟩
  | calledOff off run stage =>
      rename_i p record rest
      have post := off.post
      have hpost := post?_attend post (before ++ after)
      obtain ⟨-, hcalls⟩ := h.going hready post run
      have hdue : calledOff ∈ w.calls a := by
        simp [calls, hready, List.filterMap_append, Call.calledOff?]
      have hstop : (calledOff || p.stopping) = true := by
        rcases off.stops with hstopping | hall
        · simp [hstopping]
        · simp [hall calledOff hdue]
      rw [post?_eq, Option.map_eq_some_iff] at post
      obtain ⟨x, hx, rfl⟩ := post
      have hstop' : (calledOff || x.stopping) = true := hstop
      rw [move_eq_act hx, show x.stage = .atQueue record rest from stage, hstop']
      unfold Intake.act goOn
      dsimp only
      split
      · rw [if_pos rfl]
        rename_i job r _ _
        obtain ⟨u, motions, heq⟩ := abandonPut_closes (w.attend a (before ++ after)) a job.spec r
          (!calledOff)
        obtain ⟨-, -, hpost'⟩ := (motions.beside a).of_unseated off.seats
        have hhistory := history_abandonPut (w.attend a (before ++ after)) a job.spec r (!calledOff)
        rw [heq] at hhistory ⊢
        exact ⟨.ended (post?_close (hpost'.trans hpost) .cancelled) run rfl, hhistory⟩
      · refine ⟨.calledOff ⟨hpost, off.waiting, off.seats, ?_, .inr ?_⟩ run stage, rfl⟩
        · show (calls { w with ready := before ++ after } a).length ≤ 1
          simp [hcalls]
        · show ∀ f ∈ calls { w with ready := before ++ after } a, f = true
          simp [hcalls]

theorem move (h : Orderly S w) (hready : w.ready = before ++ .move a calledOff :: after) :
    Orderly S (({ w with ready := before ++ after } : Intake).move a calledOff) := by
  cases hx : w.activity? a with
  | none =>
      rw [move_of_nobody hx]
      exact h.forget hready
  | some x =>
      have hp : w.post? a = some x.post := by rw [post?_eq, hx, Option.map_some]
      have hattends := h.attend hready hp
      have hpost := post?_attend hp (before ++ after)
      refine insert ?_ fun hS => (h.quiet_move hready (h.quiet hS)).1
      cases hjob : x.role.job? with
      | none =>
          rw [move_eq_act hx]
          refine hattends.act ?_ hjob _ _ _
          rw [role?_eq, hpost, Option.map_some]
          rfl
      | some j =>
          have hrun : x.post.role.job?.isSome = true := by
            rw [show x.post.role = x.role from rfl, hjob]
            rfl
          obtain ⟨hwaiting, hcalls, pursuit⟩ := h.move_pursuit hready hp hrun
          exact hattends.pursuit hpost hrun hwaiting hcalls (fun hS => hS.2 rfl) pursuit

theorem happen {c : Call} (h : Orderly S w) (hready : w.ready = before ++ c :: after) :
    Orderly S (({ w with ready := before ++ after } : Intake).happen c) := by
  cases c with
  | move a calledOff => exact h.move hready
  | note r => exact (h.forget hready).note r

end Orderly

theorem Intake.Step.orderly {S : ActivityId → Prop} {w w' : Intake} (step : Step w w')
    (h : Orderly S w) : Orderly S w' := by
  have hsame {v : Intake} (hposts : v.posts = w.posts) (hready : v.ready = w.ready)
      (hrounds : v.rounds = w.rounds) (hseated : v.seated = w.seated) : Orderly S v :=
    h.beside hrounds fun b => .of_same (by rw [calls, calls, hready]) (by rw [post?, post?, hposts])
      (Nat.le_of_eq (by rw [seats, seats, hseated]))
  cases step with
  | happen before c after hready => exact h.happen hready
  | startRun j => exact h.add _
  | startRound spec => exact (h.add _).addRound spec (Orderly.idles_add_self w rfl)
  | startCollecting spec =>
      have hcollector :
          (Role.collector w.rounds.length (w.activities.length + 1)).job? = none := rfl
      have howner := Orderly.idles_add_self w hcollector
      exact ((h.add _).add .taker).addRound spec (Orderly.idles_add howner .taker)
  | openGate source => exact h.openGate source
  | cancel a => exact h.cancel a
  | takeOne htake => exact h.takeOne htake
  | _ => exact hsame rfl rfl rfl rfl

theorem orderly_start (now : Time.DateTime) {queue : RecordQueue} (store : Snapshots)
    (web : List (String × Response)) (hputters : queue.putters = [])
    (hgetters : queue.getters = []) : Orderly (fun _ => False) (.start now queue store web) where
  stands := fun b => ⟨{
    nobody := fun _ => ⟨rfl, by simp [seats_eq, Intake.start, hputters, hgetters]⟩
    run := fun p hp _ => by simp [post?, posts, Intake.start] at hp }, fun hS => hS.elim⟩
  members := fun r round hr => by simp [Intake.start] at hr
  owners := fun r round hr => by simp [Intake.start] at hr

theorem Intake.Reaches.orderly {S : ActivityId → Prop} {w w' : Intake} (reach : Reaches w w')
    (h : Orderly S w) : Orderly S w' := by
  induction reach with
  | refl => exact h
  | tail _ step ih => exact step.orderly ih

end FeedIntake
