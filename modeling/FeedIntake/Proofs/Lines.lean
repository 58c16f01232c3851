import FeedIntake.Proofs.Interleaving
import FeedIntake.Proofs.Motions

/-! # Lines

Whoever makes a run and waits stands in at most one line, and once, and is not due to move. Whoever
was woken or called off is due to move, once, and stands in no line any more. This holds whatever
happens, since what one activity does leaves another where it is, or takes it out of a line and
wakes it.
-/

namespace FeedIntake

namespace Permits

def unserved (p : Permits) : List ActivityId := (p.line.filter (!·.2)).map (·.1)

@[simp] theorem unserved_take (p : Permits) : p.take.unserved = p.unserved := rfl

@[simp] theorem unserved_join (p : Permits) (a : ActivityId) :
    (p.join a).unserved = p.unserved ++ [a] := by
  simp [unserved, join]

theorem unserved_leave (p : Permits) (a : ActivityId) :
    (p.leave a).unserved = p.unserved.filter (· != a) := by
  simp [unserved, leave, List.filter_map, Function.comp_def, Bool.and_comm]

/-- The one that is served is the first of those not yet served. -/
theorem unserved_of_mark {line marked : List (ActivityId × Bool)} {a : ActivityId}
    (h : mark line = some (marked, a)) (free free' : Nat) :
    unserved ⟨free, line⟩ = a :: unserved ⟨free', marked⟩ := by
  induction line generalizing marked with
  | nil => cases h
  | cons first rest ih =>
      obtain ⟨b, served⟩ := first
      cases served with
      | false =>
          cases h
          simp [unserved]
      | true =>
          obtain ⟨⟨marked', a'⟩, hrest, heq⟩ := Option.map_eq_some_iff.mp h
          cases heq
          simpa [unserved] using ih hrest

theorem unserved_grant (p : Permits) : p.unserved = p.grant.2.toList ++ p.grant.1.unserved := by
  unfold grant
  split
  · rename_i line a hmark
    exact unserved_of_mark hmark p.free _
  · rfl

theorem unserved_release (p : Permits) :
    p.unserved = p.release.2.toList ++ p.release.1.unserved :=
  unserved_grant { p with free := p.free + 1 }

theorem unserved_moveOn (p : Permits) (a : ActivityId) :
    p.unserved.filter (· != a) = (p.moveOn a).2.toList ++ (p.moveOn a).1.unserved := by
  rw [← unserved_leave]
  unfold moveOn
  dsimp only
  split
  · rfl
  · exact unserved_grant _

theorem unserved_giveUp (p : Permits) (a : ActivityId) :
    p.unserved.filter (· != a) = (p.giveUp a).2.toList ++ (p.giveUp a).1.unserved := by
  rw [← unserved_leave]
  exact unserved_release _

end Permits

/-- Whether a call is for somebody to move, and then whether it says that all is called off. -/
def Call.calledOff? (b : ActivityId) : Call → Option Bool
  | move a calledOff => if a = b then some calledOff else none
  | note _ => none

theorem List.count_flatMap_modify {α β : Type} [BEq β] {l : List α} {i : Nat} {x : α}
    (h : l[i]? = some x) (f : α → List β) (g : α → α) (b : β) :
    ((l.modify i g).flatMap f).count b + (f x).count b =
      (l.flatMap f).count b + (f (g x)).count b := by
  induction l generalizing i with
  | nil => simp at h
  | cons y l ih =>
      cases i with
      | zero =>
          cases h
          simp [List.count_append]
          omega
      | succ i =>
          have hrest := ih (i := i) (by simpa using h)
          simp only [List.modify_succ_cons, List.flatMap_cons, List.count_append]
          omega

namespace Intake

def calls (w : Intake) (b : ActivityId) : List Bool := w.ready.filterMap (Call.calledOff? b)

def seated (w : Intake) : List ActivityId :=
  w.queue.putters ++ (w.queue.getters ++
    (w.gateLine.map (·.2) ++ w.rounds.flatMap fun x => x.permits.unserved))

def seats (w : Intake) (b : ActivityId) : Nat := w.seated.count b

section

variable (w : Intake) (a b : ActivityId)

theorem seats_eq : w.seats b = w.queue.putters.count b + (w.queue.getters.count b +
    ((w.gateLine.map (·.2)).count b +
      (w.rounds.flatMap fun x => x.permits.unserved).count b)) := by
  simp only [seats, seated, List.count_append]

@[simp] theorem calls_call (c : Call) :
    (w.call c).calls b = w.calls b ++ (c.calledOff? b).toList := by
  rw [calls, call, List.filterMap_append, ← calls]
  cases h : c.calledOff? b <;> simp [h]

@[simp] theorem seats_onActivity (f : Activity → Activity) :
    (w.onActivity a f).seats b = w.seats b := rfl

@[simp] theorem post?_call (c : Call) : (w.call c).post? b = w.post? b := rfl

theorem post?_onActivity {f : Activity → Activity} {g : Post → Post}
    (h : ∀ x, (f x).post = g x.post) :
    (w.onActivity a f).post? b = if a = b then (w.post? b).map g else w.post? b := by
  rw [post?, posts_onActivity w a h, List.getElem?_modify]
  unfold post?
  cases w.posts[b]? <;> by_cases hab : a = b <;> simp [hab]

theorem post?_onActivity_of_ne (h : b ≠ a) (f : Activity → Activity) :
    (w.onActivity a f).post? b = w.post? b := by
  have hsame : (w.activities.modify a f)[b]? = w.activities[b]? := by
    rw [List.getElem?_modify]
    cases w.activities[b]? <;> simp [Ne.symm h]
  rw [post?_eq, post?_eq, activity?, onActivity, hsame, activity?]

theorem posts_add (role : Role) :
    (w.add role).1.posts = w.posts ++ [⟨role, .fresh, false, false⟩] := by
  show (w.activities ++ [Activity.ofRole role]).map Activity.post = _
  rw [List.map_append]
  rfl

theorem post?_add_self (role : Role) :
    (w.add role).1.post? w.activities.length = some ⟨role, .fresh, false, false⟩ := by
  have hlength : w.posts.length = w.activities.length := List.length_map _
  rw [post?, posts_add, ← hlength, List.getElem?_concat_length]

variable {b} in
theorem post?_add_of_ne (hb : b ≠ w.activities.length) (role : Role) :
    (w.add role).1.post? b = w.post? b := by
  have hlength : w.posts.length = w.activities.length := List.length_map _
  rw [post?, post?, posts_add]
  rcases Nat.lt_or_gt_of_ne hb with hlt | hgt
  · rw [List.getElem?_append_left (by omega)]
  · rw [List.getElem?_eq_none (by simp; omega), List.getElem?_eq_none (by omega)]

/-- A round that serves some of those in its line in another order leaves all others where they
are. -/
theorem seats_onRound {r : RoundId} {round : Round} (hr : w.rounds[r]? = some round)
    (f : Round → Round) : (w.onRound r f).seats b + round.permits.unserved.count b =
      w.seats b + (f round).permits.unserved.count b := by
  have hcount := List.count_flatMap_modify hr (fun x => x.permits.unserved) f b
  rw [seats_eq, seats_eq]
  show _ + (_ + (_ + ((w.rounds.modify r f).flatMap fun x => x.permits.unserved).count b)) + _ = _
  simp only [onRound]
  omega

end

end Intake

open Intake

/-! ## Beside others -/

def Post.awake (p : Post) : Post := { p with waiting := false }

/-- What becomes of somebody by what others do: it stays where it is, or it is taken out of lines
and woken, each time out of one. -/
def Beside (b : ActivityId) (w w' : Intake) : Prop := ∃ k,
  w'.calls b = w.calls b ++ List.replicate k false ∧ w'.seats b + k ≤ w.seats b ∧
    w'.post? b = if k = 0 then w.post? b else (w.post? b).map Post.awake

namespace Beside

variable {b : ActivityId} {w u w' : Intake}

theorem of_same (hcalls : w'.calls b = w.calls b) (hpost : w'.post? b = w.post? b)
    (hseats : w'.seats b ≤ w.seats b) : Beside b w w' :=
  ⟨0, by simpa using hcalls, hseats, hpost⟩

theorem refl (b : ActivityId) (w : Intake) : Beside b w w := of_same rfl rfl (Nat.le_refl _)

theorem trans (h : Beside b w u) (h' : Beside b u w') : Beside b w w' := by
  obtain ⟨k, hcalls, hseats, hpost⟩ := h
  obtain ⟨k', hcalls', hseats', hpost'⟩ := h'
  refine ⟨k + k', ?_, by omega, ?_⟩
  · rw [hcalls', hcalls, List.append_assoc, List.replicate_append_replicate]
  · rw [hpost', hpost]
    by_cases hk : k = 0 <;> by_cases hk' : k' = 0 <;> cases w.post? b <;>
      simp [hk, hk', Post.awake]

/-- Whoever is woken has left a line for it. The induction is on those who are still to be woken. -/
theorem wakeAll (l : List ActivityId) {k : Nat}
    (hcalls : u.calls b = w.calls b ++ List.replicate k false)
    (hseats : u.seats b + l.count b + k ≤ w.seats b)
    (hpost : u.post? b = if k = 0 then w.post? b else (w.post? b).map Post.awake) :
    Beside b w (l.foldl wake u) := by
  induction l generalizing u k with
  | nil => exact ⟨k, hcalls, hseats, hpost⟩
  | cons c l ih =>
      have hcalls' : (u.wake c).calls b = u.calls b ++ (Call.calledOff? b (.move c false)).toList :=
        calls_call _ b _
      have hpost' : (u.wake c).post? b = if c = b then (u.post? b).map Post.awake else u.post? b :=
        post?_onActivity u c b fun _ => rfl
      rw [List.foldl_cons]
      by_cases hc : c = b
      · rw [hc, List.count_cons_self] at hseats
        refine ih (k := k + 1) ?_ ?_ ?_
        · rw [hcalls', hcalls, Call.calledOff?, if_pos hc, List.append_assoc,
            List.replicate_succ']
          rfl
        · show u.seats b + _ + _ ≤ _
          omega
        · rw [hpost', if_pos hc, hpost, if_neg (Nat.succ_ne_zero k)]
          cases w.post? b <;> by_cases hk : k = 0 <;> simp [hk, Post.awake]
      · rw [List.count_cons_of_ne hc] at hseats
        refine ih (k := k) ?_ hseats ?_
        · rw [hcalls', hcalls, Call.calledOff?, if_neg hc]
          exact List.append_nil _
        · rw [hpost', if_neg hc, hpost]

theorem wakeAny (hcalls : u.calls b = w.calls b) (hpost : u.post? b = w.post? b)
    {someone : Option ActivityId} (hseats : u.seats b + someone.toList.count b ≤ w.seats b) :
    Beside b w (u.wakeAny someone) := by
  have hall : u.wakeAny someone = someone.toList.foldl wake u := by
    cases someone <;> rfl
  rw [hall]
  exact wakeAll someone.toList (k := 0) (by simpa using hcalls) hseats hpost

end Beside

namespace Intake

theorem calls_of_scene {w w' : Intake} (h : w'.scene = w.scene) (b : ActivityId) :
    w'.calls b = w.calls b := by
  rw [calls, calls, ready_of_scene h]

theorem seats_of_scene {w w' : Intake} (h : w'.scene = w.scene) (b : ActivityId) :
    w'.seats b = w.seats b := by
  have hqueue := congrArg Scene.queue h
  have hputters : w'.queue.putters = w.queue.putters := (congrArg RecordQueue.putters hqueue :)
  have hgetters : w'.queue.getters = w.queue.getters := (congrArg RecordQueue.getters hqueue :)
  have hgate : w'.gateLine = w.gateLine := congrArg Scene.gateLine h
  rw [seats, seats, seated, seated, hputters, hgetters, hgate, rounds_of_scene h]

theorem count_head?_tail (l : List ActivityId) (b : ActivityId) :
    l.tail.count b + l.head?.toList.count b = l.count b := by
  cases l with
  | nil => rfl
  | cons x l => simp [List.count_cons]

theorem withQueue_beside (w : Intake) (b : ActivityId) {q : RecordQueue × Option ActivityId}
    (h : q.1.putters.count b + q.1.getters.count b + q.2.toList.count b ≤
      w.queue.putters.count b + w.queue.getters.count b) : Beside b w (w.withQueue q) := by
  refine Beside.wakeAny (w := w) (u := { w with queue := q.1 }) rfl rfl ?_
  rw [seats_eq, seats_eq]
  dsimp only
  omega

theorem withPermits_beside {w : Intake} {r : RoundId} {round : Round}
    (hr : w.rounds[r]? = some round) (b : ActivityId) {p : Permits × Option ActivityId}
    (h : (p.2.toList ++ p.1.unserved).count b ≤ round.permits.unserved.count b) :
    Beside b w (w.withPermits r p) := by
  refine Beside.wakeAny (w := w) (u := w.onRound r fun x => { x with permits := p.1 }) rfl rfl ?_
  have hseats := seats_onRound w b hr fun x => { x with permits := p.1 }
  rw [List.count_append] at h
  dsimp only at hseats
  omega

end Intake

theorem Motion.beside {a : ActivityId} {w w' : Intake} (motion : Motion a w w')
    (b : ActivityId) : Beside b w w' := by
  cases motion with
  | aside h =>
      exact .of_same (calls_of_scene h b) (post?_of_scene h b) (Nat.le_of_eq (seats_of_scene h b))
  | push record room =>
      refine withQueue_beside w b ?_
      have htail := count_head?_tail w.queue.getters b
      simp only [RecordQueue.push]
      omega
  | passOn =>
      refine withQueue_beside w b ?_
      have htail := count_head?_tail w.queue.putters b
      simp only [RecordQueue.nextPutter]
      omega
  | take hr free =>
      refine .of_same rfl rfl ?_
      have hseats := seats_onRound w b hr fun x => { x with permits := x.permits.take }
      rw [Permits.unserved_take] at hseats
      omega
  | moveOn hr =>
      refine withPermits_beside hr b ?_
      rw [← Permits.unserved_moveOn]
      exact List.Sublist.count_le b List.filter_sublist
  | giveUp hr =>
      refine withPermits_beside hr b ?_
      rw [← Permits.unserved_giveUp]
      exact List.Sublist.count_le b List.filter_sublist
  | release hr =>
      refine withPermits_beside hr b (Nat.le_of_eq ?_)
      rw [← Permits.unserved_release]

theorem Motions.beside {a : ActivityId} {w w' : Intake} (motions : Motions a w w')
    (b : ActivityId) : Beside b w w' := by
  induction motions with
  | refl => exact .refl b w
  | tail _ motion ih => exact ih.trans (motion.beside b)

namespace Intake

section

variable (w : Intake) {a b : ActivityId}

theorem post?_close_of_ne (h : b ≠ a) (outcome : RunOutcome) :
    (w.close a outcome).post? b = w.post? b := by
  have hpost := post?_onActivity_of_ne w a b h fun x => { x with stage := .finished outcome }
  unfold close
  dsimp only
  split <;> exact hpost

theorem calls_close (w : Intake) (a b : ActivityId) (outcome : RunOutcome) :
    (w.close a outcome).calls b = w.calls b := by
  unfold close
  dsimp only
  split
  · rw [calls_call]
    exact List.append_nil _
  · rfl

theorem seats_close (w : Intake) (a b : ActivityId) (outcome : RunOutcome) :
    (w.close a outcome).seats b = w.seats b := by
  unfold close
  dsimp only
  split <;> rfl

theorem close_beside (h : b ≠ a) (outcome : RunOutcome) : Beside b w (w.close a outcome) :=
  .of_same (calls_close w a b outcome) (post?_close_of_ne w h outcome)
    (Nat.le_of_eq (seats_close w a b outcome))

end

end Intake

theorem Halt.beside {a b : ActivityId} (hb : b ≠ a) {w w' : Intake} (halt : Halt a w w') :
    Beside b w w' := by
  cases halt with
  | rest => exact .refl b w
  | finish outcome => exact close_beside w hb outcome
  | gate source answer promise =>
      refine .of_same rfl (post?_onActivity_of_ne _ a b hb _) ?_
      rw [suspend, seats_onActivity, seats_eq, seats_eq]
      simp [Ne.symm hb]
  | network spec url response hs promise =>
      refine .of_same ?_ (post?_onActivity_of_ne w a b hb _) (Nat.le_refl _)
      rw [calls_call, Call.calledOff?, if_neg (Ne.symm hb)]
      exact List.append_nil _
  | room record rest full =>
      refine .of_same rfl (post?_onActivity_of_ne _ a b hb _) ?_
      rw [awaitRoom, suspend, seats_onActivity, seats_eq, seats_eq]
      simp [RecordQueue.awaitRoom, Ne.symm hb]
  | line role hr taken =>
      refine .of_same rfl (post?_onActivity_of_ne _ a b hb _) ?_
      have hseats := seats_onRound w b hr fun x => { x with permits := x.permits.join a }
      rw [Permits.unserved_join, List.count_append, List.count_singleton] at hseats
      rw [suspend, seats_onActivity]
      simp only [beq_iff_eq, Ne.symm hb, if_false] at hseats
      omega

/-! ## Order -/

/-- Whether a stage is none of those who take records, or wait until all are taken. -/
def Stage.isBesideTaking : Stage → Bool
  | awaitingRecord | joining => false
  | _ => true

/-- Whoever makes a run waits in one line at most, or is due to move, or neither. -/
structure Post.InOrder (p : Post) (calls : List Bool) (seats : Nat) : Prop where
  seats_le : seats ≤ p.waiting.toNat
  due_le : calls.length + p.waiting.toNat ≤ 1
  stage : p.stage.isBesideTaking = true

structure Intake.InOrder (w : Intake) (b : ActivityId) : Prop where
  nobody : w.post? b = none → w.calls b = [] ∧ w.seats b = 0
  run : ∀ p, w.post? b = some p → p.role.job?.isSome = true →
    p.InOrder (w.calls b) (w.seats b)

theorem Post.InOrder.of_going {p : Post} (hwaiting : p.waiting = false) {calls : List Bool}
    (hcalls : calls.length ≤ 1) (hstage : p.stage.isBesideTaking = true) {seats : Nat}
    (hseats : seats = 0) : p.InOrder calls seats where
  seats_le := by omega
  due_le := by simpa [hwaiting] using hcalls
  stage := hstage

theorem Post.InOrder.of_waiting {p : Post} (hwaiting : p.waiting = true) {calls : List Bool}
    (hcalls : calls = []) (hstage : p.stage.isBesideTaking = true) {seats : Nat}
    (hseats : seats = 1) : p.InOrder calls seats where
  seats_le := by simp [hwaiting, hseats]
  due_le := by simp [hwaiting, hcalls]
  stage := hstage

theorem Intake.InOrder.of_post {w : Intake} {b : ActivityId} {p : Post} (hp : w.post? b = some p)
    (h : p.role.job?.isSome = true → p.InOrder (w.calls b) (w.seats b)) : w.InOrder b where
  nobody := fun hnone => by
    rw [hp] at hnone
    cases hnone
  run := fun q hq hrun => by
    rw [hp] at hq
    cases hq
    exact h hrun

namespace Beside

variable {b : ActivityId} {w w' : Intake}

theorem role? (h : Beside b w w') : w'.role? b = w.role? b := by
  obtain ⟨k, -, -, hpost⟩ := h
  rw [role?_eq, role?_eq, hpost]
  split
  · rfl
  · cases w.post? b <;> rfl

theorem inOrder (h : Beside b w w') (order : w.InOrder b) : w'.InOrder b := by
  obtain ⟨k, hcalls, hseats, hpost⟩ := h
  constructor
  · intro hnone
    have hnobody : w.post? b = none := by
      rw [hnone] at hpost
      split at hpost
      · exact hpost.symm
      · exact Option.map_eq_none_iff.mp hpost.symm
    obtain ⟨hcalls₀, hseats₀⟩ := order.nobody hnobody
    have hk : k = 0 := by omega
    exact ⟨by simp [hcalls, hcalls₀, hk], by omega⟩
  · intro p hp hrun
    rw [hp] at hpost
    by_cases hk : k = 0
    · rw [if_pos hk] at hpost
      have orderly := order.run p hpost.symm hrun
      exact ⟨by have := orderly.seats_le; omega, by simpa [hcalls, hk] using orderly.due_le,
        orderly.stage⟩
    · -- Who was woken stood in a line, and so was not due to move.
      rw [if_neg hk] at hpost
      obtain ⟨p₀, hp₀, rfl⟩ := Option.map_eq_some_iff.mp hpost.symm
      obtain ⟨hline, hdue, hstage⟩ := order.run p₀ hp₀ hrun
      have hone := Bool.toNat_le p₀.waiting
      exact ⟨by omega, by simp [hcalls, Post.awake]; omega, hstage⟩

theorem of_unseated (h : Beside b w w') (hseats : w.seats b = 0) :
    w'.calls b = w.calls b ∧ w'.seats b = 0 ∧ w'.post? b = w.post? b := by
  obtain ⟨k, hcalls, hseats', hpost⟩ := h
  have hk : k = 0 := by omega
  rw [hk] at hcalls hpost
  exact ⟨by simpa using hcalls, by omega, hpost⟩

end Beside

namespace Intake

/-- Everyone keeps its role and every round its owner, and nobody gets into the line of a round but
members of the round. -/
structure Keeps (w w' : Intake) : Prop where
  role? : ∀ b, w'.role? b = w.role? b
  rounds : ∀ r round', w'.rounds[r]? = some round' → ∃ round, w.rounds[r]? = some round ∧
    round'.owner = round.owner ∧ ∀ b ∈ round'.permits.unserved,
      b ∈ round.permits.unserved ∨ ∃ j, w.role? b = some (.member r j)

namespace Keeps

variable {w u w' : Intake}

theorem of_rounds (hrole : ∀ b, w'.role? b = w.role? b) (hrounds : w'.rounds = w.rounds) :
    Keeps w w' where
  role? := hrole
  rounds := fun _ round hr => ⟨round, hrounds ▸ hr, rfl, fun _ hb => .inl hb⟩

theorem refl (w : Intake) : Keeps w w := of_rounds (fun _ => rfl) rfl

theorem trans (h : Keeps w u) (h' : Keeps u w') : Keeps w w' where
  role? := fun b => (h'.role? b).trans (h.role? b)
  rounds := by
    intro r round' hr'
    obtain ⟨round₁, hr₁, howner₁, hserved₁⟩ := h'.rounds r round' hr'
    obtain ⟨round, hr, howner, hserved⟩ := h.rounds r round₁ hr₁
    refine ⟨round, hr, howner₁.trans howner, fun b hb => ?_⟩
    rcases hserved₁ b hb with hold | ⟨j, hmember⟩
    · exact hserved b hold
    · exact .inr ⟨j, (h.role? b).symm.trans hmember⟩

theorem of_onRound {r : RoundId} {round : Round} (hr : w.rounds[r]? = some round)
    {f : Round → Round} (hrole : ∀ b, w'.role? b = w.role? b)
    (hrounds : w'.rounds = w.rounds.modify r f) (howner : (f round).owner = round.owner)
    (hserved : ∀ b ∈ (f round).permits.unserved,
      b ∈ round.permits.unserved ∨ ∃ j, w.role? b = some (.member r j)) : Keeps w w' where
  role? := hrole
  rounds := by
    intro r' round' hr'
    rw [hrounds, List.getElem?_modify] at hr'
    by_cases h : r = r'
    · subst h
      rw [hr] at hr'
      simp only [if_true, Option.map_eq_map, Option.map_some, Option.some.injEq] at hr'
      subst hr'
      exact ⟨round, hr, howner, hserved⟩
    · refine ⟨round', ?_, rfl, fun _ hb => .inl hb⟩
      rw [← hr']
      cases w.rounds[r']? <;> simp [h]

end Keeps

theorem rounds_wakeAny (w : Intake) (someone : Option ActivityId) :
    (w.wakeAny someone).rounds = w.rounds := by
  cases someone <;> rfl

theorem role?_onActivity (w : Intake) (a b : ActivityId) {f : Activity → Activity}
    (h : ∀ x, (f x).role = x.role) : (w.onActivity a f).role? b = w.role? b := by
  unfold role? activity? onActivity
  rw [List.getElem?_modify]
  cases w.activities[b]? with
  | none => rfl
  | some x => by_cases hab : a = b <;> simp [hab, h]

end Intake

theorem Motion.keeps {a : ActivityId} {w w' : Intake} (motion : Motion a w w') : Keeps w w' := by
  have hrole (b : ActivityId) : w'.role? b = w.role? b := (motion.beside b).role?
  have hleave {l l' : List ActivityId} {someone : Option ActivityId}
      (h : l.filter (· != a) = someone.toList ++ l') {b : ActivityId} (hb : b ∈ l') : b ∈ l := by
    have hmem : b ∈ l.filter (· != a) := by
      rw [h]
      exact List.mem_append_right _ hb
    exact (List.mem_filter.mp hmem).1
  cases motion with
  | aside h => exact .of_rounds hrole (rounds_of_scene h)
  | push record room => exact .of_rounds hrole (rounds_wakeAny _ _)
  | passOn => exact .of_rounds hrole (rounds_wakeAny _ _)
  | take hr free => exact .of_onRound hr hrole rfl rfl fun b hb => .inl hb
  | moveOn hr =>
      exact .of_onRound hr hrole (rounds_wakeAny _ _) rfl fun b hb =>
        .inl (hleave (Permits.unserved_moveOn _ a) hb)
  | giveUp hr =>
      exact .of_onRound hr hrole (rounds_wakeAny _ _) rfl fun b hb =>
        .inl (hleave (Permits.unserved_giveUp _ a) hb)
  | release hr =>
      refine .of_onRound hr hrole (rounds_wakeAny _ _) rfl fun b hb => .inl ?_
      rw [Permits.unserved_release]
      exact List.mem_append_right _ hb

theorem Motions.keeps {a : ActivityId} {w w' : Intake} (motions : Motions a w w') :
    Keeps w w' := by
  induction motions with
  | refl => exact .refl w
  | tail _ motion ih => exact ih.trans motion.keeps

theorem Halt.keeps {a : ActivityId} {w w' : Intake} (halt : Halt a w w') : Keeps w w' := by
  cases halt with
  | rest => exact .refl w
  | finish outcome =>
      have hrole (b : ActivityId) : (w.close a outcome).role? b = w.role? b := by
        unfold close
        dsimp only
        split <;> exact role?_onActivity w a b fun _ => rfl
      refine .of_rounds hrole ?_
      unfold close
      dsimp only
      split <;> rfl
  | gate source answer promise => exact .of_rounds (role?_onActivity _ a · fun _ => rfl) rfl
  | network spec url response hs promise =>
      exact .of_rounds (role?_onActivity w a · fun _ => rfl) rfl
  | room record rest full => exact .of_rounds (role?_onActivity _ a · fun _ => rfl) rfl
  | line role hr taken =>
      refine .of_onRound hr (role?_onActivity _ a · fun _ => rfl) rfl rfl fun b hb => ?_
      rw [Permits.unserved_join] at hb
      rcases List.mem_append.mp hb with hold | hnew
      · exact .inl hold
      · rw [List.mem_singleton.mp hnew]
        exact .inr ⟨_, role⟩

namespace Intake

section

variable {w : Intake} {a : ActivityId} {p : Post}

theorem post?_enter (hp : w.post? a = some p) (stage : Stage) :
    (w.enter a stage).post? a = some { p with stage } := by
  rw [enter, post?_onActivity w a a (g := fun p => { p with stage }) (by exact fun _ => rfl),
    if_pos rfl, hp, Option.map_some]

theorem post?_suspend (hp : w.post? a = some p) (stage : Stage) :
    (w.suspend a stage).post? a = some { p with stage, waiting := true } := by
  rw [suspend, post?_onActivity w a a (g := fun p => { p with stage, waiting := true })
    (by exact fun _ => rfl), if_pos rfl, hp, Option.map_some]

theorem suspend_inOrder (hp : w.post? a = some p) {stage : Stage}
    (hstage : stage.isBesideTaking = true) (hcalls : w.calls a = []) (hseats : w.seats a = 1) :
    (w.suspend a stage).InOrder a :=
  .of_post (post?_suspend hp stage) fun _ => .of_waiting rfl hcalls hstage hseats

theorem post?_close (hp : w.post? a = some p) (outcome : RunOutcome) :
    (w.close a outcome).post? a = some { p with stage := .finished outcome } := by
  have hpost := post?_enter hp (.finished outcome)
  unfold close
  dsimp only
  split <;> exact hpost

theorem close_inOrder (hp : w.post? a = some p) (hwaiting : p.waiting = false)
    (hcalls : w.calls a = []) (hseats : w.seats a = 0) (outcome : RunOutcome) :
    (w.close a outcome).InOrder a := by
  refine .of_post (post?_close hp outcome) fun _ => .of_going (by exact hwaiting) ?_ rfl ?_
  · simp [calls_close, hcalls]
  · rw [seats_close, hseats]

end

end Intake

/-- A run that halts waits in the line that it has joined, or is due to move, or has ended. -/
theorem Halt.inOrder {a : ActivityId} {w w' : Intake} (halt : Halt a w w') {p : Post}
    (hp : w.post? a = some p) (hwaiting : p.waiting = false)
    (hstage : p.stage.isBesideTaking = true) (hcalls : w.calls a = []) (hseats : w.seats a = 0) :
    w'.InOrder a := by
  have hplaces := hseats
  rw [seats_eq] at hplaces
  cases halt with
  | rest => exact .of_post hp fun _ => .of_going hwaiting (by simp [hcalls]) hstage hseats
  | finish outcome => exact close_inOrder hp hwaiting hcalls hseats outcome
  | gate source answer promise =>
      refine suspend_inOrder (w := { w with gateLine := w.gateLine ++ [(source, a)] }) hp rfl
        hcalls ?_
      rw [seats_eq, List.map_append, List.count_append]
      dsimp only
      simp only [List.map_cons, List.map_nil, List.count_singleton_self]
      omega
  | network spec url response hs promise =>
      refine .of_post (post?_enter hp (.onNetwork url response)) fun _ =>
        .of_going (by exact hwaiting) ?_ rfl hseats
      rw [calls_call]
      show (w.calls a ++ _).length ≤ 1
      simp [hcalls, Call.calledOff?]
  | room record rest full =>
      refine suspend_inOrder (w := { w with queue := w.queue.awaitRoom a }) hp rfl hcalls ?_
      rw [seats_eq]
      simp only [RecordQueue.awaitRoom, List.count_append, List.count_singleton_self]
      omega
  | line role hr taken =>
      refine suspend_inOrder (w := w.onRound _ _) hp rfl hcalls ?_
      have hjoined := seats_onRound w a hr fun x => { x with permits := x.permits.join a }
      rw [Permits.unserved_join, List.count_append, List.count_singleton_self] at hjoined
      omega

end FeedIntake
