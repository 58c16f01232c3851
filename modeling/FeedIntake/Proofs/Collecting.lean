import FeedIntake.Proofs.Takers

/-! # A collecting round goes on

Whatever is ready in a collecting round happens as the steps of its hall say, and everything unfolds
as planned. Every call brings the round nearer to its end, and so it comes to rest; it rests only
when all have ended.
-/

namespace FeedIntake

open Affairs
open Intake

def Crew.plan (c : Crew) : Plan where
  spec? := fun m => if m ∈ c.members then some (c.spec m) else none
  answer? := fun m => if m ∈ c.members then some (c.answer m) else none

theorem Crew.plan_spec? {c : Crew} {m : ActivityId} (hm : m ∈ c.members) :
    c.plan.spec? m = some (c.spec m) := if_pos hm

theorem Crew.plan_answer? {c : Crew} {m : ActivityId} (hm : m ∈ c.members) :
    c.plan.answer? m = some (c.answer m) := if_pos hm

namespace Hall

/-- An intake at a collecting round, with nobody on its way. -/
structure Collects (c : Crew) (h : Hall) (w : Intake) : Prop where
  shows : h.Shows c w
  sane : h.Sane c
  still : ∀ a, ¬h.Moves c a
  tidy : w.affairs.Tidy
  filed : h.owner.hasGathered = true → Files c w w

section

variable {c : Crew} {h h' : Hall} {w w' : Intake} {a m : ActivityId} {before after : List Call}
  {calledOff : Bool}

theorem Shows.answer? (shows : h.Shows c w) (hm : m ∈ c.members) :
    w.answer? m = some (c.answer m) := by
  obtain ⟨j, id, supplier, hrole, hjob, hsupplier, hanswer, -⟩ := shows.cast m hm
  rw [answer?_eq_of_role, hrole, Option.bind_some, Role.job?, Option.bind_some, hjob,
    Option.bind_some, hsupplier, Option.map_some, hanswer]

theorem Shows.course_member (shows : h.Shows c w) (htidy : w.affairs.Tidy) (hm : m ∈ c.members)
    (hready : w.ready = before ++ .move m calledOff :: after) : c.plan.Course w.affairs
      (({ w with ready := before ++ after } : Intake).move m calledOff).affairs := by
  obtain ⟨e, p, hspot, fits, hpost, rfl, attended⟩ := shows.attend hm hready
  have hview : (w.attend m (before ++ after)).view = w.view :=
    view_onActivity_of_unseen _ m fun _ => rfl
  have haffairs : (w.attend m (before ++ after)).affairs = w.affairs := by
    rw [affairs, affairs, hview]
  rw [post?_eq, Option.map_eq_some_iff] at hpost
  obtain ⟨x, hx, rfl⟩ := hpost
  obtain ⟨role, stage, waiting, stopping, result⟩ := x
  have hx' : (w.attend m (before ++ after)).activity? m =
      some ⟨role, stage, waiting, false, result⟩ := by
    have hat : w.activities[m]? = some ⟨role, stage, waiting, stopping, result⟩ := hx
    simp [Intake.attend, activity?, onActivity, hat]
  rw [move_eq_act hx, ← haffairs]
  have hspec := attended.specOf? hm
  have hanswer := attended.answer? hm
  have htidy' : (w.attend m (before ++ after)).affairs.Tidy := haffairs ▸ htidy
  have hrefusal := attended.stocks.refusal
  generalize w.attend m (before ++ after) = v at *
  have hforeseen {j : JobId} (hj : role.job? = some j) (hstage : stage.isBesideTaking = true)
      (hgate : ∀ answer, stage ≠ .atGate answer)
      (hnetwork : ∀ url response, stage = .onNetwork url response →
        (c.spec m).conclusion url response = c.answer m) :
      c.plan.Course v.affairs (v.act m role false false stage).affairs := by
    have hcalm : Post.IsCalm ⟨role, stage, waiting, false⟩ (v.specOf? m) (v.answer? m) := by
      refine ⟨rfl, .inl (by rw [hj]; rfl), fun answer h => absurd h (hgate answer),
        fun url response h => ⟨_, hspec, ?_⟩⟩
      rw [hanswer, hnetwork url response h]
    rcases act_foreseen htidy' hrefusal hx' hcalm hj hstage with hsame | ⟨spec, hs, turns⟩
    · rw [hsame]
      exact .refl
    · rw [view_spec?, hspec] at hs
      cases hs
      rw [hanswer] at turns
      exact .of_turns (Crew.plan_spec? hm) (by rw [Crew.plan_answer? hm]; exact turns)
  cases fits with
  | start j => exact hforeseen rfl rfl (by simp) (by simp)
  | served j => exact hforeseen rfl rfl (by simp) (by simp)
  | afar j promise =>
      refine hforeseen rfl rfl (by simp) fun url response h => ?_
      cases h
      exact promise
  | woken j record hn => exact hforeseen rfl rfl (by simp) (by simp)

theorem Shows.course_other (shows : h.Shows c w) (htidy : w.affairs.Tidy)
    (ha : a = c.owner ∨ a = c.taker) (ready : List Call) (calledOff : Bool) :
    c.plan.Course w.affairs (({ w with ready } : Intake).move a calledOff).affairs := by
  have hnone : w.specOf? a = none := by
    rw [specOf?_eq_of_role]
    rcases ha with rfl | rfl
    · rw [shows.role_owner]
      rfl
    · rw [shows.role_taker]
      rfl
  rcases move_runsOn_or_takes (w := { w with ready }) htidy a calledOff with
    (hsame | ⟨spec, hs, -⟩) | takes
  · have hsame' : (({ w with ready } : Intake).move a calledOff).affairs = w.affairs := hsame
    rw [hsame']
    exact .refl
  · rw [view_spec?, show ({ w with ready } : Intake).specOf? a = w.specOf? a from rfl, hnone] at hs
    cases hs
  · exact .of_takes takes

theorem Files.course {u : Intake} (files : Files c w w')
    (course : Affairs.Course w.affairs u.affairs) (hreported : u.reported = w'.reported) :
    Files c u u := by
  obtain ⟨results, hfiled, hended⟩ := files
  exact ⟨results, hreported.trans hfiled, List.Forall₂.imp (ended_of_course course) hended⟩

/-- What a call comes to. -/
def Collects.Advances (c : Crew) (h : Hall) (w w' : Intake) : Prop :=
  ∃ h', Collects c h' w' ∧ h'.toil c < h.toil c ∧ c.plan.Course w.affairs w'.affairs

theorem Collects.move_member (collects : Collects c h w) (hm : m ∈ c.members)
    (hready : w.ready = before ++ .move m calledOff :: after) :
    Advances c h w (({ w with ready := before ++ after } : Intake).move m calledOff) := by
  have hcourse := collects.shows.course_member collects.tidy hm hready
  obtain ⟨h₁, attends, h', steps, hrest, shows⟩ :=
    collects.shows.move_member collects.sane.within hm hready
  -- As long as a member goes on no results are gathered.
  have hgathering : h'.owner = .gathering := by
    obtain ⟨e, p, hspot, fits, -⟩ := collects.shows.attend hm hready
    have hgoing : (h.spot m).isGone = false := by
      rw [hspot]
      cases fits <;> rfl
    exact (Steps.gathering steps).mpr
      (attends.gathering (collects.sane.gathering_of_going hm hgoing))
  refine ⟨h', ⟨shows, Steps.sane steps (attends.sane collects.sane),
    attends.still steps collects.still (not_moves_of_member hm hrest),
    hcourse.course.tidy collects.tidy, fun hgathered => ?_⟩,
    Nat.lt_of_le_of_lt (Steps.toil_le steps) attends.toil_lt, hcourse⟩
  rw [hgathering] at hgathered
  cases hgathered

theorem Collects.move_taker (collects : Collects c h w)
    (hready : w.ready = before ++ .move c.taker calledOff :: after) :
    Advances c h w (({ w with ready := before ++ after } : Intake).move c.taker calledOff) := by
  have hcourse := collects.shows.course_other collects.tidy (.inr rfl) (before ++ after) calledOff
  obtain ⟨h₁, h', attends, steps, hrest, shows, hreported⟩ :=
    collects.shows.move_taker collects.sane hready
  have sane := Steps.sane steps (attends.sane collects.sane)
  have howner : h₁.owner.moves = false := by
    rw [← Bool.not_eq_true]
    exact fun hmoves => collects.still c.owner
      (attends.moves (owner_ne_taker c) (.inr (.inl ⟨rfl, hmoves⟩)))
  refine ⟨h', ⟨shows, sane,
    attends.still steps collects.still (not_moves_of_taker sane.within hrest),
    hcourse.course.tidy collects.tidy, fun hgathered => ?_⟩,
    Nat.lt_of_le_of_lt (Steps.toil_le steps) attends.toil_lt, hcourse⟩
  exact (collects.filed (attends.hasGathered (Steps.hasGathered steps howner hgathered))).course
    hcourse.course hreported

theorem Collects.move_owner (collects : Collects c h w)
    (hready : w.ready = before ++ .move c.owner calledOff :: after) :
    Advances c h w (({ w with ready := before ++ after } : Intake).move c.owner calledOff) := by
  have hcourse := collects.shows.course_other collects.tidy (.inl rfl) (before ++ after) calledOff
  have htaker : h.taker.moves = false := by
    rw [← Bool.not_eq_true]
    exact fun hmoves => collects.still c.taker (.inr (.inr ⟨rfl, hmoves⟩))
  obtain ⟨h₁, h', attends, steps, hrest, shows, hfiles⟩ :=
    collects.shows.move_owner collects.sane htaker hready
  have sane := Steps.sane steps (attends.sane collects.sane)
  refine ⟨h', ⟨shows, sane,
    attends.still steps collects.still (not_moves_of_owner sane.within hrest),
    hcourse.course.tidy collects.tidy, fun _ => ?_⟩,
    Nat.lt_of_le_of_lt (Steps.toil_le steps) attends.toil_lt, hcourse⟩
  rcases hfiles with files | ⟨howner, hreported⟩
  · exact files.course hcourse.course rfl
  · exact (collects.filed (by rw [howner]; rfl)).course hcourse.course hreported

theorem Collects.note (collects : Collects c h w) {r : RoundId}
    (hready : w.ready = before ++ .note r :: after) :
    Advances c h w (({ w with ready := before ++ after } : Intake).note r) := by
  obtain ⟨h', notes, shows⟩ := collects.shows.note collects.sane hready
  have haffairs : (({ w with ready := before ++ after } : Intake).note r).affairs = w.affairs :=
    affairs_note _ r
  have hgathered : h'.owner.hasGathered = false := by
    cases notes with
    | note hn =>
        have hended := collects.sane.ended
        have hle := finished_le c h
        have hgoing : h.owner = .gathering := collects.sane.gathering.mpr (by omega)
        dsimp only
        rw [hgoing]
        split <;> rfl
  refine ⟨h', ⟨shows, notes.sane collects.sane, fun b hb => collects.still b (notes.moves hb),
    by rw [haffairs]; exact collects.tidy, fun h => by rw [hgathered] at h; cases h⟩,
    notes.toil_lt collects.sane, by rw [haffairs]; exact .refl⟩

/-- **Whatever is ready happens and takes some work off.** -/
theorem Collects.happen (collects : Collects c h w) {call : Call}
    (hready : w.ready = before ++ call :: after) :
    Advances c h w (({ w with ready := before ++ after } : Intake).happen call) := by
  cases call with
  | note r => exact collects.note hready
  | move a calledOff =>
      have hcalls : (w.station a).calls ≠ [] := by
        show w.calls a ≠ []
        rw [calls_of_ready w hready]
        simp
      have stands := collects.shows.stands a
      generalize w.station a = s at stands hcalls
      cases stands with
      | member hm => exact collects.move_member hm hready
      | owner ha => exact ha ▸ collects.move_owner (ha ▸ hready)
      | taker ha => exact ha ▸ collects.move_taker (ha ▸ hready)
      | nobody => exact absurd rfl hcalls

theorem Collects.tick (collects : Collects c h w) (hbusy : w.ready ≠ []) :
    Advances c h w w.tick := by
  cases hcalls : w.ready with
  | nil => exact absurd hcalls hbusy
  | cons call rest =>
      have hready : w.ready = [] ++ call :: rest := hcalls
      rw [Intake.tick, hcalls]
      exact collects.happen hready

theorem Collects.ticks (collects : Collects c h w) (n : Nat) :
    ∃ h', Collects c h' (ticks n w) ∧ c.plan.Course w.affairs (ticks n w).affairs ∧
      (h.toil c < n → (ticks n w).ready = []) := by
  induction n generalizing h w with
  | zero => exact ⟨h, collects, .refl, fun hlt => absurd hlt (Nat.not_lt_zero _)⟩
  | succ n ih =>
      by_cases hready : w.ready = []
      · rw [ticks_of_ready_nil hready]
        exact ⟨h, collects, .refl, fun _ => hready⟩
      · obtain ⟨h₁, collects₁, hless, hcourse⟩ := collects.tick hready
        obtain ⟨h', collects', hcourse', hend⟩ := ih collects₁
        exact ⟨h', collects', Relation.ReflTransGen.trans hcourse hcourse',
          fun hlt => hend (by omega)⟩

/-! ## Rest -/

theorem calls_of_ready_nil (hready : w.ready = []) (a : ActivityId) : w.calls a = [] := by
  rw [calls, hready]
  rfl

/-- Where nothing is ready, the hall rests. -/
theorem Collects.rests (collects : Collects c h w) (hready : w.ready = []) : h.Rests where
  spot := fun m => by
    by_cases hm : m ∈ c.members
    · obtain ⟨p, -, hstation⟩ := collects.shows.member hm
      have hcalls : (h.spot m).pace.calls = [] :=
        (congrArg Station.calls hstation :).symm.trans (calls_of_ready_nil hready m)
      have hstill : (h.spot m).moves = false := by
        rw [← Bool.not_eq_true]
        exact fun hmoves => collects.still m (.inl hmoves)
      generalize h.spot m = s at hcalls hstill
      obtain ⟨errand, pace⟩ := s
      cases pace with
      | waits => exact .inl rfl
      | due => cases hcalls
      | free =>
          right
          simpa [Spot.moves, Spot.isGone] using hstill
    · rw [collects.sane.within m hm]
      exact .inr rfl
  owner := by
    obtain ⟨p, -, hstation⟩ := collects.shows.owner
    have hcalls : h.owner.calls = [] :=
      (congrArg Station.calls hstation :).symm.trans (calls_of_ready_nil hready c.owner)
    have hstill : h.owner.moves ≠ true :=
      fun hmoves => collects.still c.owner (.inr (.inl ⟨rfl, hmoves⟩))
    cases howner : h.owner <;> rw [howner] at hcalls hstill <;>
      first | exact .inl rfl | exact .inr (.inl rfl) | exact .inr (.inr rfl) |
        exact absurd rfl hstill | cases hcalls
  taker := by
    obtain ⟨p, calls, fits, hstation⟩ := collects.shows.taker
    have hcalls : calls = [] :=
      (congrArg Station.calls hstation :).symm.trans (calls_of_ready_nil hready c.taker)
    have hstill : h.taker.moves ≠ true :=
      fun hmoves => collects.still c.taker (.inr (.inr ⟨rfl, hmoves⟩))
    rw [hcalls] at fits
    generalize h.taker = s at fits hstill
    cases fits <;> first | exact .inl rfl | exact .inr rfl | exact absurd rfl hstill
  notes := by
    have hnotes := collects.shows.notes 0
    rw [hready] at hnotes
    exact hnotes.symm

/-- **A round at rest has come through**: everyone has ended, the owner and the taker last, every
record is taken, nobody waits, and the results of all members are reported. -/
theorem Collects.gone (collects : Collects c h w) (hready : w.ready = []) :
    (∀ a ∈ c.members, ∃ outcome, w.outcome? a = some outcome ∧ outcome ≠ .cancelled) ∧
      w.outcome? c.owner = some .done ∧ w.outcome? c.taker = some .cancelled ∧
      w.queue.records = [] ∧ w.queue.unfinished = 0 ∧ w.queue.putters = [] ∧
      w.queue.getters = [] ∧ Files c w w := by
  obtain ⟨hall, ho, ht, hrecords, -⟩ := collects.sane.gone_of_rests (collects.rests hready)
  have shows := collects.shows
  have stocks := shows.stocks
  refine ⟨fun a ha => ?_, ?_, ?_, ?_, ?_, ?_, ?_, collects.filed (by rw [ho]; rfl)⟩
  · obtain ⟨p, fits, hstation⟩ := shows.member ha
    have hgone := hall a
    have hpost : w.post? a = some p := (congrArg Station.post hstation :)
    generalize h.spot a = s at fits hgone
    cases fits with
    | moves j stage he => exact absurd (beq_iff_eq.mp hgone) he
    | gone j hnot => exact ⟨_, (outcome?_eq_some_iff w a).mpr ⟨_, hpost, rfl⟩, hnot⟩
    | _ => cases hgone
  · obtain ⟨p, fits, hstation⟩ := shows.owner
    rw [ho] at fits
    cases fits
    exact (outcome?_eq_some_iff w _).mpr ⟨_, (congrArg Station.post hstation :), rfl⟩
  · obtain ⟨p, calls, fits, hstation⟩ := shows.taker
    rw [ht] at fits
    cases fits
    exact (outcome?_eq_some_iff w _).mpr ⟨_, (congrArg Station.post hstation :), rfl⟩
  · exact List.length_eq_zero_iff.mp (stocks.records.trans hrecords)
  · exact stocks.unfinished.trans hrecords
  · refine List.eq_nil_iff_forall_not_mem.mpr fun b hb => ?_
    obtain ⟨-, k, hspot⟩ := shows.queue_of_mem_putters hb
    have hgone := hall b
    rw [hspot] at hgone
    cases hgone
  · rw [stocks.getters, ht]
    rfl

end

end Hall

end FeedIntake
