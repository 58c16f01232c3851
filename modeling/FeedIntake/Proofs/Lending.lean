import FeedIntake.Proofs.Shifts

/-! # Lending permits

Of the permits of a round some are free, some have been given to members that stand in line and have
not moved on since, and each of the others is with a member inside its run. A member that waits in
line has a place without a permit, one that was woken has a place with one, and nobody else has a
place. Each move of a member keeps the account: it takes a permit when it goes in and gives it back
when its run ends, however it ends.
-/

namespace FeedIntake

namespace Permits

/-- The permits nobody works with, those included that were given to somebody in line. -/
def spare (p : Permits) : Nat := p.free + p.line.countP (·.2)

@[simp] theorem spare_ofCount (n : Nat) : (ofCount n).spare = n := rfl

@[simp] theorem placesOf_ofCount (n : Nat) (b : ActivityId) : (ofCount n).placesOf b = [] := rfl

@[simp] theorem placesOf_take (p : Permits) (b : ActivityId) :
    p.take.placesOf b = p.placesOf b := rfl

theorem spare_take {p : Permits} (h : p.isTaken = false) : p.take.spare + 1 = p.spare := by
  have hfree : p.free ≠ 0 := fun hfree => by simp [isTaken, hfree] at h
  simp only [spare, take]
  omega

@[simp] theorem spare_join (p : Permits) (a : ActivityId) : (p.join a).spare = p.spare := by
  simp [spare, join]

theorem countP_mark {line marked : List (ActivityId × Bool)} {a : ActivityId}
    (h : mark line = some (marked, a)) : marked.countP (·.2) = line.countP (·.2) + 1 := by
  induction line generalizing marked with
  | nil => cases h
  | cons first rest ih =>
      obtain ⟨b, served⟩ := first
      cases served with
      | false =>
          cases h
          simp
      | true =>
          obtain ⟨⟨marked', a'⟩, hrest, heq⟩ := Option.map_eq_some_iff.mp h
          cases heq
          simp [ih hrest]

theorem spare_grant {p : Permits} (h : p.free ≠ 0) : p.grant.1.spare = p.spare := by
  unfold grant
  split
  · rename_i line a hmark
    have hmarked := countP_mark hmark
    simp only [spare]
    omega
  · rfl

theorem spare_release (p : Permits) : p.release.1.spare = p.spare + 1 := by
  rw [release, spare_grant (Nat.succ_ne_zero _)]
  simp only [spare]
  omega

theorem spare_leave {p : Permits} {a : ActivityId} (h : p.placesOf a = [true]) :
    (p.leave a).spare + 1 = p.spare := by
  have hplaces : (p.line.filter fun e => e.1 == a).countP (·.2) = 1 := by
    have hcount := congrArg (List.countP id) h
    rw [placesOf, List.countP_map] at hcount
    exact hcount
  have hsplit : p.line.countP (·.2) = (p.line.filter fun e => e.1 == a).countP (·.2) +
      (p.line.filter fun e => e.1 != a).countP (·.2) := by
    rw [← List.countP_append]
    exact ((List.filter_append_perm (fun e : ActivityId × Bool => e.1 == a) p.line).countP_eq
      _).symm
  simp only [spare, leave]
  omega

theorem spare_moveOn {p : Permits} {a : ActivityId} (h : p.placesOf a = [true]) :
    (p.moveOn a).1.spare + 1 = p.spare := by
  unfold moveOn
  dsimp only
  split
  · exact spare_leave h
  · rename_i hfree
    rw [spare_grant hfree, spare_leave h]

theorem placesOf_release_of_unplaced {p : Permits} {b : ActivityId} (h : p.placesOf b = []) :
    p.grant.1.placesOf b = [] := by
  rcases grant_cases p with ⟨a, -, -, hmem, -, hothers⟩ | ⟨heq, -⟩
  · have hb : b ≠ a := by
      rintro rfl
      rw [h] at hmem
      cases hmem
    rw [hothers b hb, h]
  · rw [heq, h]

theorem mem_unserved_iff (p : Permits) (b : ActivityId) :
    b ∈ p.unserved ↔ false ∈ p.placesOf b := by
  simp only [unserved, placesOf, List.mem_map, List.mem_filter, Bool.not_eq_true', beq_iff_eq,
    Prod.exists]
  constructor
  · rintro ⟨x, served, ⟨hmem, rfl⟩, rfl⟩
    exact ⟨x, false, ⟨hmem, rfl⟩, rfl⟩
  · rintro ⟨x, served, ⟨hmem, rfl⟩, rfl⟩
    exact ⟨x, false, ⟨hmem, rfl⟩, rfl⟩

end Permits

def Stage.isInLine : Stage → Bool
  | inLine => true
  | _ => false

/-- The places in the line of its round that somebody is to have at its post. -/
def Post.places (r : RoundId) (p : Post) : List Bool :=
  if p.counts r Stage.isInLine then [!p.waiting] else []

theorem Post.places_of_not_inLine {r : RoundId} {p : Post} (h : p.stage.isInLine = false) :
    p.places r = [] := by
  rw [places, counts, h, Bool.and_false]
  rfl

theorem Post.places_of_not_member {r : RoundId} {p : Post} (h : p.role.isMemberOf r = false) :
    p.places r = [] := by
  rw [places, counts, h, Bool.false_and]
  rfl

theorem Stage.isInLine_of_isInside {stage : Stage} (h : stage.isInside = true) :
    stage.isInLine = false := by
  cases stage <;> first | rfl | cases h

open Intake

namespace Intake

def placesAt (w : Intake) (r : RoundId) (b : ActivityId) : List Bool :=
  ((w.post? b).map (Post.places r)).getD []

section

variable {w w' : Intake} {a b : ActivityId} {r : RoundId} {p : Permits}

theorem placesAt_eq {q : Post} (h : w.post? b = some q) : w.placesAt r b = q.places r := by
  rw [placesAt, h]
  rfl

theorem placesAt_of_post (h : w'.post? b = w.post? b) : w'.placesAt r b = w.placesAt r b := by
  rw [placesAt, h, placesAt]

/-- Whoever waits in line for a permit stays there whatever goes on beside it, unless it is taken
out of that line. -/
theorem placesAt_of_beside (order : w.InOrder b) (beside : Beside b w w')
    (hplaces : p.placesOf b = w.placesAt r b) (hseat : b ∈ p.unserved → 1 ≤ w'.seats b) :
    w'.placesAt r b = w.placesAt r b := by
  obtain ⟨k, -, hseats, hpost⟩ := beside
  by_cases hk : k = 0
  · rw [if_pos hk] at hpost
    exact placesAt_of_post hpost
  · rw [if_neg hk] at hpost
    cases hq : w.post? b with
    | none =>
        rw [hq] at hpost
        rw [placesAt, placesAt, hpost, hq]
        rfl
    | some q =>
        rw [hq, Option.map_some] at hpost
        rw [placesAt_eq hq] at hplaces ⊢
        rw [placesAt_eq hpost]
        unfold Post.places at hplaces ⊢
        rw [Post.counts_awake]
        split
        · rename_i hline
          rw [if_pos hline] at hplaces
          obtain ⟨j, hj⟩ := Role.isMemberOf_iff.mp (Bool.and_eq_true_iff.mp hline).1
          have hone := (order.run q hq (by rw [hj]; rfl)).seats_le
          cases hwaiting : q.waiting with
          | false => rfl
          | true =>
              -- It would have left the line where it still stands.
              have hunserved : b ∈ p.unserved := by
                rw [Permits.mem_unserved_iff, hplaces, hwaiting]
                simp
              have hstill := hseat hunserved
              have := Bool.toNat_le q.waiting
              omega
        · rfl

/-- A permit that is given wakes the one that it is given to. -/
theorem placesAt_grant (hplaces : p.placesOf b = w.placesAt r b) :
    p.grant.1.placesOf b = (w.wakeAny p.grant.2).placesAt r b := by
  rcases Permits.grant_cases p with ⟨a, hwoken, -, hmem, hserved, hothers⟩ | ⟨heq, -⟩
  · rw [hwoken, wakeAny]
    have hpost : (w.wake a).post? b = if a = b then (w.post? b).map Post.awake else w.post? b :=
      post?_onActivity w a b (by exact fun _ => rfl)
    by_cases hb : a = b
    · subst hb
      rw [if_pos rfl] at hpost
      rw [hplaces] at hmem
      cases hq : w.post? a with
      | none =>
          rw [placesAt, hq] at hmem
          cases hmem
      | some q =>
          rw [placesAt_eq hq] at hplaces hmem
          rw [hq, Option.map_some] at hpost
          rw [placesAt_eq hpost]
          unfold Post.places at hplaces hmem ⊢
          rw [Post.counts_awake]
          split
          · rename_i hline
            rw [if_pos hline] at hplaces hmem
            have hwaiting : q.waiting = true := by simpa using hmem
            rw [hwaiting] at hplaces
            exact hserved hplaces
          · rename_i hline
            rw [if_neg hline] at hmem
            cases hmem
    · rw [if_neg hb] at hpost
      rw [hothers b (Ne.symm hb), hplaces, placesAt_of_post hpost]
  · rw [heq]
    exact hplaces

theorem post?_grant (h : p.placesOf b = []) : (w.wakeAny p.grant.2).post? b = w.post? b := by
  rcases Permits.grant_cases p with ⟨a, hwoken, -, hmem, -⟩ | ⟨heq, -⟩
  · have hb : a ≠ b := by
      rintro rfl
      rw [h] at hmem
      cases hmem
    rw [hwoken]
    exact post?_onActivity_of_ne w a b (Ne.symm hb) _
  · rw [heq]
    rfl

theorem placesAt_moveOn (hb : b ≠ a) (hplaces : p.placesOf b = w.placesAt r b) :
    (p.moveOn a).1.placesOf b = (w.wakeAny (p.moveOn a).2).placesAt r b := by
  rw [← Permits.placesOf_leave_of_ne p hb] at hplaces
  unfold Permits.moveOn
  dsimp only
  split
  · exact hplaces
  · exact placesAt_grant hplaces

theorem placesOf_moveOn_self (p : Permits) (a : ActivityId) : (p.moveOn a).1.placesOf a = [] := by
  have hleft := Permits.placesOf_leave_self p a
  unfold Permits.moveOn
  dsimp only
  split
  · exact hleft
  · exact Permits.placesOf_release_of_unplaced hleft

theorem post?_moveOn_self (w : Intake) (p : Permits) (a : ActivityId) :
    (w.wakeAny (p.moveOn a).2).post? a = w.post? a := by
  unfold Permits.moveOn
  dsimp only
  split
  · rfl
  · exact post?_grant (Permits.placesOf_leave_self p a)

theorem seats_pos {round : Round} (hr : w.rounds[r]? = some round)
    (hb : b ∈ round.permits.unserved) : 1 ≤ w.seats b := by
  have hmem : b ∈ w.rounds.flatMap fun x => x.permits.unserved :=
    List.mem_flatMap.mpr ⟨round, List.mem_of_getElem? hr, hb⟩
  have hcount := List.count_pos_iff.mpr hmem
  rw [seats_eq]
  omega

end

/-! ## The account -/

/-- The account of the permits of a round: everybody has the places that it is to have, and permits
and members inside add up. -/
structure Lends (w : Intake) (r : RoundId) (p : Permits) (limit : Nat) : Prop where
  places : ∀ b, p.placesOf b = w.placesAt r b
  balance : p.spare + w.headcount r Stage.isInside = limit

/-- The same while a member is on its way with a permit. -/
structure LendsTo (w : Intake) (r : RoundId) (a : ActivityId) (q : Post) (p : Permits)
    (limit : Nat) : Prop where
  post : w.post? a = some q
  member : q.role.isMemberOf r = true
  own : p.placesOf a = []
  places : ∀ b, b ≠ a → p.placesOf b = w.placesAt r b
  balance : p.spare + w.headcount r Stage.isInside + (!q.stage.isInside).toNat = limit

section

variable {w u w' : Intake} {a : ActivityId} {r : RoundId} {p : Permits} {limit : Nat} {q : Post}

/-- The account is about posts alone. -/
theorem Lends.of_posts (lends : w.Lends r p limit) (hposts : w'.posts = w.posts) :
    w'.Lends r p limit where
  places := fun b => by
    rw [lends.places b, placesAt, placesAt, post?, post?, hposts]
  balance := by
    rw [headcount_of_posts hposts]
    exact lends.balance

theorem Lends.of_beside (lends : w.Lends r p limit) (order : ∀ b, w.InOrder b)
    (hall : ∀ b, Beside b w w') {round : Round} (hr : w'.rounds[r]? = some round)
    (hp : round.permits = p) : w'.Lends r p limit where
  places := fun b => by
    rw [placesAt_of_beside (order b) (hall b) (lends.places b) fun hb => seats_pos hr (hp ▸ hb)]
    exact lends.places b
  balance := by
    rw [headcount_of_stays fun b => .of_beside (hall b)]
    exact lends.balance

theorem Lends.of_stranger (lends : w.Lends r p limit)
    (hothers : ∀ b, b ≠ a → w'.post? b = w.post? b) {q' : Post} (hq : w.post? a = some q)
    (hq' : w'.post? a = some q') (hrole : q.role.isMemberOf r = false)
    (hrole' : q'.role.isMemberOf r = false) : w'.Lends r p limit where
  places := fun b => by
    rw [lends.places b]
    by_cases hb : b = a
    · rw [hb, placesAt_eq hq, placesAt_eq hq', Post.places_of_not_member hrole,
        Post.places_of_not_member hrole']
    · rw [placesAt_of_post (hothers b hb)]
  balance := by
    rw [headcount_of_stranger hothers hq hq' hrole hrole']
    exact lends.balance

/-- As long as no member has begun, any number of permits can be lent. -/
theorem Lends.of_fresh (h : ∀ b q, w.post? b = some q → q.role.isMemberOf r = true →
    q.stage = .fresh) (n : Nat) : w.Lends r (.ofCount n) n where
  places := fun b => by
    rw [Permits.placesOf_ofCount, placesAt]
    cases hq : w.post? b with
    | none => rfl
    | some q =>
        rw [Option.map_some, Option.getD_some]
        cases hrole : q.role.isMemberOf r with
        | false => rw [Post.places_of_not_member hrole]
        | true =>
            refine (Post.places_of_not_inLine ?_).symm
            rw [h b q hq hrole]
            rfl
  balance := by
    have hnone : w.headcount r Stage.isInside = 0 := headcount_eq_zero fun b q hq hrole => by
      rw [h b q hq hrole]
      rfl
    rw [hnone, Permits.spare_ofCount, Nat.add_zero]

namespace LendsTo

/-- What goes on beside the others, and leaves the member at its post, keeps the account. -/
theorem of_beside (lends : w.LendsTo r a q p limit) (order : ∀ b, w.InOrder b)
    (hothers : ∀ b, b ≠ a → Beside b w w') (hpost : w'.post? a = some q) {round : Round}
    (hr : w'.rounds[r]? = some round) (hp : round.permits = p) : w'.LendsTo r a q p limit where
  post := hpost
  member := lends.member
  own := lends.own
  places := fun b hb => by
    rw [placesAt_of_beside (order b) (hothers b hb) (lends.places b hb) fun hb' =>
      seats_pos hr (hp ▸ hb')]
    exact lends.places b hb
  balance := by
    have hcount := headcount_but (fun b hb => .of_beside (hothers b hb)) lends.post hpost (r := r)
      Stage.isInside
    have hbalance := lends.balance
    omega

theorem arrives_of_others (lends : w.LendsTo r a q p limit)
    (hothers : ∀ b, b ≠ a → Stays b w w') {p' : Permits} {q' : Post}
    (hq' : w'.post? a = some q') (hrole : q'.role = q.role) (hline : q'.stage.isInLine = false)
    (hown : p'.placesOf a = []) (hplaces : ∀ b, b ≠ a → p'.placesOf b = w'.placesAt r b)
    (hspare : p'.spare = p.spare + (!q'.stage.isInside).toNat) : w'.Lends r p' limit where
  places := fun b => by
    by_cases hb : b = a
    · rw [hb, hown, placesAt_eq hq', Post.places_of_not_inLine hline]
    · exact hplaces b hb
  balance := by
    have hcount := headcount_but_member hothers lends.post hq' hrole lends.member Stage.isInside
    have hbalance := lends.balance
    cases hinside : q.stage.isInside <;> cases hinside' : q'.stage.isInside <;>
      simp only [hinside, hinside', Bool.toNat_true, Bool.toNat_false, Bool.not_true,
        Bool.not_false] at hcount hbalance hspare <;> omega

end LendsTo

section

variable {w u w' : Intake} {a : ActivityId} {r : RoundId} {round : Round} {limit : Nat} {q : Post}

/-- A run that waits somewhere keeps its permit. -/
theorem LendsTo.pause (lends : w.LendsTo r a q round.permits limit) (order : ∀ b, w.InOrder b)
    (hr : w.rounds[r]? = some round) (pause : Pause a w w') :
    w'.rounds[r]? = some round ∧ w'.Lends r round.permits limit := by
  obtain ⟨q', hq', hrole, hinside, -⟩ := pause.arrives lends.post
  have hrounds : w'.rounds = w.rounds := by cases pause <;> rfl
  have hr' : w'.rounds[r]? = some round := hrounds ▸ hr
  have hothers (b : ActivityId) (hb : b ≠ a) : Beside b w w' := pause.halt.beside hb
  refine ⟨hr', lends.arrives_of_others (fun b hb => .of_beside (hothers b hb)) hq' hrole
    (Stage.isInLine_of_isInside hinside) lends.own (fun b hb => ?_) ?_⟩
  · rw [placesAt_of_beside (order b) (hothers b hb) (lends.places b hb) fun hb' =>
      seats_pos hr' hb']
    exact lends.places b hb
  · rw [hinside]
    rfl

/-- A run that ends gives its permit back, whatever its outcome is. -/
theorem LendsTo.ends (lends : w.LendsTo r a q round.permits limit)
    (hr : w.rounds[r]? = some round) (outcome : RunOutcome) :
    (w.endRun a outcome).rounds[r]? = some { round with permits := round.permits.release.1 } ∧
      (w.endRun a outcome).Lends r round.permits.release.1 limit := by
  obtain ⟨j, hj⟩ := Role.isMemberOf_iff.mp lends.member
  have hrole : w.role? a = some (.member r j) := by
    rw [role?_eq, lends.post, Option.map_some, hj]
  have hends : w.endRun a outcome = (w.withPermits r round.permits.release).close a outcome := by
    unfold endRun release
    rw [hrole]
    dsimp only
    rw [hr]
  have motion : Motion a w (w.withPermits r round.permits.release) := .release hr
  rw [hends]
  generalize hv : w.withPermits r round.permits.release = v at motion
  have hrounds : (v.close a outcome).rounds[r]? =
      some { round with permits := round.permits.release.1 } := by
    have hclose : (v.close a outcome).rounds = v.rounds := by
      unfold close
      dsimp only
      split <;> rfl
    rw [hclose, ← hv, withPermits, rounds_wakeAny, onRound, List.getElem?_modify, hr]
    simp
  have hpost : v.post? a = some q := by
    rw [← hv, ← lends.post]
    exact post?_grant (w := w.onRound r _)
      (p := { round.permits with free := round.permits.free + 1 }) lends.own
  refine ⟨hrounds, lends.arrives_of_others (fun b hb => ?_) (post?_close hpost outcome) rfl rfl ?_
    (fun b hb => ?_) ?_⟩
  · exact .trans (.of_beside (motion.beside b)) (.of_beside (close_beside v hb outcome))
  · exact Permits.placesOf_release_of_unplaced lends.own
  · rw [placesAt_of_post (post?_close_of_ne v hb outcome), ← hv]
    exact placesAt_grant (w := w.onRound r _)
      (p := { round.permits with free := round.permits.free + 1 }) (lends.places b hb)
  · rw [Permits.spare_release]
    rfl

/-- A member that is on its way with a permit keeps it until its run ends. -/
theorem LendsTo.stint (lends : w.LendsTo r a q round.permits limit) (order : ∀ b, w.InOrder b)
    (hseats : w.seats a = 0) (hr : w.rounds[r]? = some round)
    {may : RunOutcome → Option RunResult → Prop} (stint : Stint a may w w') :
    ∃ permits, w'.rounds[r]? = some { round with permits } ∧ w'.Lends r permits limit := by
  obtain ⟨u, motions, hrounds, ends⟩ := stint
  obtain ⟨-, -, hpost⟩ := (motions.beside a).of_unseated hseats
  have hr' : u.rounds[r]? = some round := hrounds ▸ hr
  have onItsWay := lends.of_beside order (fun b _ => motions.beside b) (hpost.trans lends.post)
    hr' rfl
  rcases ends with pause | ⟨outcome, -, rfl⟩
  · exact ⟨_, onItsWay.pause (fun b => (motions.beside b).inOrder (order b)) hr' pause⟩
  · exact ⟨_, onItsWay.ends hr' outcome⟩

/-! ## Members that set out -/

/-- Who takes a free permit is on its way with it. -/
theorem Lends.take (lends : w.Lends r round.permits limit) (hq : w.post? a = some q)
    (hmember : q.role.isMemberOf r = true) (hfresh : q.stage = .fresh)
    (free : round.permits.isTaken = false) :
    (w.onRound r fun x => { x with permits := x.permits.take }).LendsTo r a q round.permits.take
      limit where
  post := hq
  member := hmember
  own := by
    rw [Permits.placesOf_take, lends.places a, placesAt_eq hq,
      Post.places_of_not_inLine (by rw [hfresh]; rfl)]
  places := fun b _ => lends.places b
  balance := by
    have hspare := Permits.spare_take free
    have hbalance := lends.balance
    have hsame : (w.onRound r fun x => { x with permits := x.permits.take }).headcount r
        Stage.isInside = w.headcount r Stage.isInside := rfl
    rw [hsame, hfresh, show (!Stage.fresh.isInside).toNat = 1 from rfl]
    omega

theorem Lends.moveOn (lends : w.Lends r round.permits limit) (hr : w.rounds[r]? = some round)
    (hq : w.post? a = some q) (hmember : q.role.isMemberOf r = true) (hline : q.stage = .inLine)
    (hwaiting : q.waiting = false) :
    (w.withPermits r (round.permits.moveOn a)).LendsTo r a q (round.permits.moveOn a).1 limit := by
  have motion : Motion a w (w.withPermits r (round.permits.moveOn a)) := .moveOn hr
  have hplaces : round.permits.placesOf a = [true] := by
    rw [lends.places a, placesAt_eq hq, Post.places, Post.counts, hmember, hline, hwaiting]
    rfl
  have hspare := Permits.spare_moveOn hplaces
  have hcount := headcount_of_stays (r := r) (fun b => .of_beside (motion.beside b)) Stage.isInside
  have hbalance := lends.balance
  exact {
    post := (post?_moveOn_self (w.onRound r _) round.permits a).trans hq
    member := hmember
    own := placesOf_moveOn_self round.permits a
    places := fun b hb => placesAt_moveOn (w := w.onRound r _) hb (lends.places b)
    balance := by
      rw [hcount, hline, show (!Stage.inLine.isInside).toNat = 1 from rfl]
      omega }

theorem Lends.within (lends : w.Lends r p limit) (hq : w.post? a = some q)
    (hmember : q.role.isMemberOf r = true) (hinside : q.stage.isInside = true) :
    w.LendsTo r a q p limit where
  post := hq
  member := hmember
  own := by
    rw [lends.places a, placesAt_eq hq,
      Post.places_of_not_inLine (Stage.isInLine_of_isInside hinside)]
  places := fun b _ => lends.places b
  balance := by
    rw [hinside]
    exact lends.balance

theorem Lends.join (lends : w.Lends r round.permits limit) (hr : w.rounds[r]? = some round)
    (hq : w.post? a = some q) (hmember : q.role.isMemberOf r = true) (hfresh : q.stage = .fresh) :
    ((w.onRound r fun x => { x with permits := x.permits.join a }).suspend a .inLine).rounds[r]? =
        some { round with permits := round.permits.join a } ∧
      ((w.onRound r fun x => { x with permits := x.permits.join a }).suspend a .inLine).Lends r
        (round.permits.join a) limit := by
  have hq' := post?_suspend (w := w.onRound r fun x => { x with permits := x.permits.join a }) hq
    .inLine
  refine ⟨by simp [Intake.suspend, onActivity, onRound, hr], fun b => ?_, ?_⟩
  · by_cases hb : b = a
    · rw [hb, placesAt_eq hq', Permits.placesOf_join_self, lends.places a, placesAt_eq hq,
        Post.places_of_not_inLine (by rw [hfresh]; rfl), Post.places, Post.counts, hmember]
      rfl
    · rw [Permits.placesOf_join_of_ne _ hb, lends.places b]
      exact (placesAt_of_post (post?_onActivity_of_ne _ a b hb _)).symm
  · have hcount := headcount_but_member
      (fun b hb => suspend_stays (w := w.onRound r _) hb .inLine) hq hq' rfl hmember Stage.isInside
    have hbalance := lends.balance
    rw [hfresh] at hcount
    have hsame : (w.onRound r fun x => { x with permits := x.permits.join a }).headcount r
        Stage.isInside = w.headcount r Stage.isInside := rfl
    rw [hsame] at hcount
    rw [Permits.spare_join]
    exact (congrArg (_ + ·) hcount).trans hbalance

/-- **Whatever a member does when it moves, the permits are accounted for.** -/
theorem Lends.shift (lends : w.Lends r round.permits limit) (order : ∀ b, w.InOrder b)
    (hseats : w.seats a = 0) (hr : w.rounds[r]? = some round) (hq : w.post? a = some q)
    (hmember : q.role.isMemberOf r = true) (hwaiting : q.waiting = false)
    {may : RunOutcome → Option RunResult → Prop} {stage : Stage} (hstage : q.stage = stage)
    (shift : Shift a r may w stage w') :
    ∃ permits, w'.rounds[r]? = some { round with permits } ∧ w'.Lends r permits limit := by
  have hafter {v : Intake} {permits : Permits} (motion : Motion a w v)
      (hv : v.rounds[r]? = some { round with permits }) (onItsWay : v.LendsTo r a q permits limit)
      (stint : Stint a may v w') :
      ∃ permits, w'.rounds[r]? = some { round with permits } ∧ w'.Lends r permits limit :=
    (show v.LendsTo r a q ({ round with permits } : Round).permits limit from onItsWay).stint
      (fun b => (motion.beside b).inOrder (order b))
      ((motion.beside a).of_unseated hseats).2.1 hv stint
  cases shift with
  | rest => exact ⟨round.permits, hr, lends⟩
  | joins hr' taken =>
      rw [hr] at hr'
      cases hr'
      exact ⟨_, lends.join hr hq hmember hstage⟩
  | begins hr' free _ stint _ =>
      rw [hr] at hr'
      cases hr'
      exact hafter (.take hr free) (by simp [onRound, hr]) (lends.take hq hmember hstage free) stint
  | leaves hr' _ stint _ =>
      rw [hr] at hr'
      cases hr'
      refine hafter (.moveOn hr) ?_ (lends.moveOn hr hq hmember hstage hwaiting) stint
      rw [withPermits, rounds_wakeAny, onRound, List.getElem?_modify, hr]
      simp
  | works inside stint _ =>
      exact (lends.within hq hmember (hstage ▸ inside)).stint order hseats hr stint

end

end

end Intake

end FeedIntake
