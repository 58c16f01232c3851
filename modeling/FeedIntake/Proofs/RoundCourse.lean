import FeedIntake.Proofs.Owners

/-! # The course of a round

Where nobody is called off a round runs to its specification, whatever is done first: its members
run the jobs of its sources, in their order, and its results are those of its members. In a calm
intake everything unfolds as planned, and every run takes the turns that were to be foreseen.
-/

namespace FeedIntake

open Affairs
open Time (Instant)

open Intake

/-- What becomes of an intake as long as nobody interferes. -/
structure Intake.Goes (w w' : Intake) : Prop where
  uncalled : Uncalled w'
  plan_extends : w'.plan.Extends w.plan
  course : Affairs.Course w.affairs w'.affairs
  hosts : ∀ r spec, w.Hosts r spec → w'.Hosts r spec
  settled : Settled w w'
  closed : ∀ r roster outcome, w.Closed r roster outcome → w'.Closed r roster outcome

/-- The same if the queue does not fail either: all goes as planned. -/
structure Intake.Unfolds (w w' : Intake) : Prop where
  calm : Calm w'
  plan_extends : w'.plan.Extends w.plan
  course : w'.plan.Course w.affairs w'.affairs
  hosts : ∀ r spec, w.Hosts r spec → w'.Hosts r spec
  settled : Settled w w'
  closed : ∀ r roster outcome, w.Closed r roster outcome → w'.Closed r roster outcome

namespace Intake

section

variable {S : ActivityId → Prop} {w w' : Intake} {a : ActivityId} {before after : List Call}

theorem ended_of_course (course : Affairs.Course w.affairs w'.affairs) (m : ActivityId)
    (result : RunResult) : w.EndedWith m result → w'.EndedWith m result :=
  fun ⟨spec, outcome, h⟩ => ⟨spec, outcome, course.phase_of_ended h⟩

theorem Goes.refl (uncalled : Uncalled w) : Goes w w :=
  ⟨uncalled, .refl _, .refl _, fun _ _ => id, .of_outline rfl fun _ => rfl, fun _ _ _ => id⟩

theorem Goes.trans {u : Intake} (h : Goes w u) (h' : Goes u w') : Goes w w' where
  uncalled := h'.uncalled
  plan_extends := h'.plan_extends.trans h.plan_extends
  course := h.course.trans h'.course
  hosts := fun r spec hosts => h'.hosts r spec (h.hosts r spec hosts)
  settled := h.settled.trans h'.settled
  closed := fun r roster outcome closed =>
    h'.closed r roster outcome (h.closed r roster outcome closed)

theorem Goes.of_stays (uncalled : Uncalled w) (houtline : w'.outline = w.outline)
    (hall : ∀ b, Stays b w w') (takes : Takes w.affairs w'.affairs) : Goes w w' where
  uncalled := uncalled.of_stays houtline hall
  plan_extends := plan_extends_of_outline houtline fun b => (hall b).role?
  course := .of_takes takes
  hosts := fun _ _ hosts => hosts.keep (.of_stays houtline hall)
    (ended_of_course (.of_takes takes))
  settled := .of_outline houtline fun b => (hall b).role?
  closed := fun _ _ _ closed => closed.keep (.of_stays houtline hall)

/-- What goes on in a calm intake unfolds as planned if runs take the turns that were planned. -/
theorem Goes.unfolds (goes : Goes w w') (calm : Calm w)
    (course : w'.plan.Course w.affairs w'.affairs) : Unfolds w w' where
  calm := calm.of_uncalled goes.uncalled goes.settled.refuses
  plan_extends := goes.plan_extends
  course := course
  hosts := goes.hosts
  settled := goes.settled
  closed := goes.closed

theorem Unfolds.trans {u : Intake} (h : Unfolds w u) (h' : Unfolds u w') : Unfolds w w' where
  calm := h'.calm
  plan_extends := h'.plan_extends.trans h.plan_extends
  course := Relation.ReflTransGen.trans (h.course.mono h'.plan_extends) h'.course
  hosts := fun r spec hosts => h'.hosts r spec (h.hosts r spec hosts)
  settled := h.settled.trans h'.settled
  closed := fun r roster outcome closed =>
    h'.closed r roster outcome (h.closed r roster outcome closed)

/-- The owner that is awakened has not been told to stop. -/
theorem note_stays (uncalled : Uncalled w) (r : RoundId) (b : ActivityId) :
    Stays b w (w.note r) := by
  have hround : Stays b w (w.onRound r fun x => { x with ended := x.ended + 1 }) :=
    ⟨fun _ h => .inl h, rfl⟩
  have hrosters : (w.onRound r fun x => { x with ended := x.ended + 1 }).rosters = w.rosters :=
    List.map_modify_of_unseen (by exact fun _ => rfl) w.rounds r
  unfold note
  dsimp only
  split
  · exact hround
  · rename_i round hr
    split
    · refine hround.trans ⟨fun calledOff hmem => ?_, ?_⟩
      · rw [calls_call] at hmem
        rcases List.mem_append.mp hmem with hold | hnew
        · exact .inl hold
        · refine .inr ?_
          have hgoing : round.stopping = false := by
            refine uncalled.going round.roster ?_
            rw [← hrosters]
            exact List.mem_map_of_mem (List.mem_of_getElem? hr)
          rw [Call.calledOff?, hgoing] at hnew
          split at hnew <;> simp at hnew
          exact hnew
      · rw [post?_call, post?_onActivity _ _ _ (g := fun p => { p with waiting := false })
          (by exact fun _ => rfl)]
        split
        · cases (w.onRound r _).post? b <;> rfl
        · rfl
    · exact hround

theorem outline_note (w : Intake) (r : RoundId) : (w.note r).outline = w.outline := by
  have hround : (w.onRound r fun x => { x with ended := x.ended + 1 }).outline = w.outline :=
    outline_onRound w (by exact fun _ => rfl) r
  unfold note
  dsimp only
  split
  · exact hround
  · split
    · exact hround
    · exact hround

theorem goes_run (uncalled : Uncalled w) (order : Orderly S w) (htidy : w.affairs.Tidy)
    {calledOff : Bool} (hready : w.ready = before ++ .move a calledOff :: after) {p : Post}
    (hp : w.post? a = some p) (hrun : p.role.job?.isSome = true) :
    Goes w (({ w with ready := before ++ after } : Intake).move a calledOff) := by
  obtain ⟨houtline, hrole, hothers⟩ := uncalled.move_apart order hready hp hrun
  have hcourse := (CalmStep.happen before (.move a calledOff) after hready).step.course htidy
  have hroles (b : ActivityId) : (({ w with ready := before ++ after } : Intake).move a
      calledOff).role? b = w.role? b := by
    by_cases hb : b = a
    · rw [hb, hrole]
    · exact (hothers b hb).role?
  have huntouched (r : RoundId) : Untouched r w (({ w with ready := before ++ after } :
      Intake).move a calledOff) := by
    refine .but houtline hrole hothers fun hround => ?_
    rw [role?_eq, hp, Option.map_some] at hround
    rw [Option.some.inj hround] at hrun
    cases hrun
  exact ⟨uncalled.move_run order hready hp hrun, plan_extends_of_outline houtline hroles, hcourse,
    fun r _ hosts => hosts.keep (huntouched r) (ended_of_course hcourse),
    .of_outline houtline hroles, fun r _ _ closed => closed.keep (huntouched r)⟩

theorem takes_of_owner {r : RoundId} (htidy : w.affairs.Tidy) (hrole : w.role? a = some (.round r))
    (ready : List Call) (calledOff : Bool) :
    Takes w.affairs (({ w with ready } : Intake).move a calledOff).affairs := by
  rcases move_runsOn_or_takes (w := { w with ready }) htidy a calledOff with
    (hsame | ⟨spec, hs, -⟩) | takes
  · have hsame' : _ = w.affairs := hsame
    rw [← hsame']
    exact .refl
  · rw [view_spec?, specOf?_eq_of_role] at hs
    rw [show ({ w with ready } : Intake).role? a = some (.round r) from hrole] at hs
    cases hs
  · exact takes

/-- The owner of a round is not called off, and so it goes on. -/
theorem owner_moves (uncalled : Uncalled w) {calledOff : Bool}
    (hready : w.ready = before ++ .move a calledOff :: after) {p : Post}
    (hp : w.post? a = some p) {r : RoundId} (hround : p.role = .round r) :
    OwnerMove a r (w.attend a (before ++ after)) p.stage
      (({ w with ready := before ++ after } : Intake).move a calledOff) := by
  have hrole : (w.attend a (before ++ after)).role? a = some (.round r) := by
    rw [((uncalled.attend hready hp).2 a).role?, role?_eq, hp, Option.map_some, hround]
  have calm := (uncalled.each a).post p hp
  rw [post?_eq, Option.map_eq_some_iff] at hp
  obtain ⟨x, hx, rfl⟩ := hp
  have hstopping : x.stopping = false := calm.going
  have hxround : x.role = .round r := hround
  rw [move_eq_act hx, uncalled.not_calledOff hready, hstopping, hxround]
  refine act_owner hrole (calm.role.resolve_left fun hrun => ?_).2
  rw [hround] at hrun
  cases hrun

theorem goes_owner (uncalled : Uncalled w) (htidy : w.affairs.Tidy) {calledOff : Bool}
    (hready : w.ready = before ++ .move a calledOff :: after) {p : Post}
    (hp : w.post? a = some p) {r : RoundId} (hround : p.role = .round r) :
    Goes w (({ w with ready := before ++ after } : Intake).move a calledOff) := by
  obtain ⟨hpost, hstays⟩ := uncalled.attend hready hp
  have hsame : (w.attend a (before ++ after)).affairs = w.affairs := by
    rw [affairs, affairs, Intake.attend, view_onActivity_of_unseen _ _ (by exact fun _ => rfl)]
    rfl
  have hattends : Goes w (w.attend a (before ++ after)) :=
    .of_stays uncalled rfl hstays (by rw [hsame])
  have hrole : w.role? a = some (.round r) := by rw [role?_eq, hp, Option.map_some, hround]
  have htakes := takes_of_owner htidy hrole (before ++ after) calledOff
  rw [← hsame] at htakes
  have move := owner_moves uncalled hready hp hround
  have hended := ended_of_course (.of_takes htakes)
  have howner (roster : Roster) (hroster : (w.attend a (before ++ after)).rosters[r]? =
      some roster) : roster.owner = a := by
    obtain ⟨known, hknown, howner⟩ := hattends.uncalled.owners a r ((hstays a).role?.trans hrole)
    rw [hroster] at hknown
    cases hknown
    exact howner
  refine hattends.trans {
    uncalled := move.uncalled hattends.uncalled hpost hround
    plan_extends := move.plan_extends
    course := .of_takes htakes
    hosts := fun r' spec hosts => ?_
    settled := move.settled
    closed := fun r' roster outcome closed => ?_ }
  · by_cases hr : r' = r
    · subst hr
      exact move.hosts hpost rfl howner hosts hended
    · exact hosts.keep (move.untouched hpost hround hr) hended
  · by_cases hr : r' = r
    · subst hr
      have hkept := closed
      obtain ⟨p', hroster, hp', -, hfinished⟩ := hkept
      rw [howner roster hroster, hpost] at hp'
      cases hp'
      rw [hfinished] at move
      rw [move.eq_of_finished]
      exact closed
    · exact closed.keep (move.untouched hpost hround hr)

/-- Whatever happens if nobody interferes, nobody is called off and every round goes on. -/
theorem CalmStep.goes (step : CalmStep w w') (uncalled : Uncalled w) (order : Orderly S w)
    (htidy : w.affairs.Tidy) : Goes w w' := by
  cases step with
  | happen before c after hready =>
      have hforget := Uncalled.forget_stays hready
      cases c with
      | move a calledOff =>
          cases hp : w.post? a with
          | none =>
              rw [post?_eq, Option.map_eq_none_iff] at hp
              rw [Intake.happen, move_of_nobody hp]
              exact .of_stays uncalled rfl hforget .refl
          | some p =>
              rcases ((uncalled.each a).post p hp).role with hrun | ⟨⟨r, hround⟩, -⟩
              · exact goes_run uncalled order htidy hready hp hrun
              · exact goes_owner uncalled htidy hready hp hround
      | note r =>
          have hforgot : Uncalled { w with ready := before ++ after } :=
            uncalled.of_stays rfl hforget
          refine .of_stays uncalled (outline_note { w with ready := before ++ after } r)
            (fun b => (hforget b).trans (note_stays hforgot r b)) ?_
          rw [Intake.happen, affairs_note]
          exact .refl
  | clock now => exact .of_stays uncalled rfl (fun b => ⟨fun _ h => .inl h, rfl⟩) .refl
  | openGate source =>
      refine .of_stays uncalled (outline_openGate w source)
        (fun b => .of_beside (openGate_beside w source b)) ?_
      rw [affairs_openGate]
  | takeOne htake =>
      refine .of_stays uncalled (outline_takeOne htake) (fun b => ?_) (.single (takeOne_take htake))
      obtain ⟨⟨first, queue, putter⟩, hpop, heq⟩ := Option.map_eq_some_iff.mp htake
      cases heq
      have htold : Stays b w (w.tell (.taken first)) := ⟨fun _ h => .inl h, rfl⟩
      exact htold.trans (.of_beside (pop_beside (w := w.tell (.taken first)) hpop b))

theorem Proceeds.goes (proceeds : Proceeds w w') (uncalled : Uncalled w) (order : Orderly S w)
    (htidy : w.affairs.Tidy) : Goes w w' := by
  induction proceeds with
  | refl => exact .refl uncalled
  | tail steps step ih =>
      have reach := Proceeds.reaches steps
      exact ih.trans (step.goes ih.uncalled (Reaches.orderly reach order)
        ((Reaches.course reach htidy).tidy htidy))

/-- In a calm intake runs take foreseen turns, and nobody else takes any. -/
theorem CalmStep.foreseen (step : CalmStep w w') (calm : Calm w) (order : Orderly S w)
    (htidy : w.affairs.Tidy) (hextends : w'.plan.Extends w.plan) :
    w'.plan.Course w.affairs w'.affairs := by
  cases step with
  | happen before c after hready =>
      cases c with
      | move a calledOff =>
          cases hp : w.post? a with
          | none =>
              rw [post?_eq, Option.map_eq_none_iff] at hp
              rw [Intake.happen, move_of_nobody hp]
              exact .refl
          | some p =>
              rcases ((calm.each a).post p hp).role with hrun | ⟨⟨r, hround⟩, -⟩
              · rcases calm.move_foreseen order htidy hready hp hrun with hsame | ⟨spec, hs, turns⟩
                · exact .of_takes (by rw [Intake.happen, hsame])
                · rw [view_spec?] at hs
                  have course : w.plan.Course w.affairs _ := .of_turns hs turns
                  exact course.mono hextends
              · have hrole : w.role? a = some (.round r) := by
                  rw [role?_eq, hp, Option.map_some, hround]
                exact .of_takes (takes_of_owner htidy hrole (before ++ after) calledOff)
      | note r =>
          rw [Intake.happen, affairs_note]
          exact .refl
  | clock now => exact .refl
  | openGate source =>
      rw [affairs_openGate]
      exact .refl
  | takeOne htake => exact .of_takes (.single (takeOne_take htake))

/-- Whatever happens in a calm intake, it stays calm and everything unfolds as planned. -/
theorem CalmStep.unfolds (step : CalmStep w w') (calm : Calm w) (order : Orderly S w)
    (htidy : w.affairs.Tidy) : Unfolds w w' := by
  have goes := step.goes calm.toUncalled order htidy
  exact goes.unfolds calm (step.foreseen calm order htidy goes.plan_extends)

theorem Proceeds.unfolds (proceeds : Proceeds w w') (calm : Calm w) (order : Orderly S w)
    (htidy : w.affairs.Tidy) : Unfolds w w' := by
  induction proceeds with
  | refl =>
      exact ⟨calm, .refl _, .refl, fun _ _ => id, .of_outline rfl fun _ => rfl, fun _ _ _ => id⟩
  | tail steps step ih =>
      have reach := Proceeds.reaches steps
      exact ih.trans (step.unfolds ih.calm (Reaches.orderly reach order)
        ((Reaches.course reach htidy).tidy htidy))

/-! ## Beginnings -/

theorem uncalled_of_nobody (hnobody : w.activities = []) (hready : w.ready = [])
    (hrounds : w.rounds = []) : Uncalled w := by
  have hpost (b : ActivityId) : w.post? b = none := by
    rw [post?_eq, activity?, hnobody]
    rfl
  have hrole (b : ActivityId) : w.role? b = none := by rw [role?_eq, hpost, Option.map_none]
  exact {
    each := fun b => ⟨fun calledOff hmem => by simp [calls, hready] at hmem,
      fun p hp => by rw [hpost] at hp; cases hp⟩
    going := fun roster hmem => by simp [rosters, hrounds] at hmem
    owners := fun b r h => by rw [hrole] at h; cases h
    members := fun b r j h => by rw [hrole] at h; cases h }

theorem calm_of_nobody (hrefusal : w.queue.refusal = none) (hnobody : w.activities = [])
    (hready : w.ready = []) (hrounds : w.rounds = []) : Calm w :=
  ⟨uncalled_of_nobody hnobody hready hrounds, hrefusal⟩

theorem calm_startRun (calm : Calm w) (j : JobId) : Calm (w.startRun j).1 := by
  refine ⟨calm.toUncalled.keep rfl (fun b role hrole => ?_) (calmAt_add _ calm.each (.inl rfl)),
    calm.refusal⟩
  have hrole' := (role?_add w (.run j) b).symm.trans hrole
  split at hrole'
  · cases hrole'
    exact .inr ⟨fun _ h => (by cases h), fun _ _ h => by cases h⟩
  · exact .inl hrole'

theorem rosters_startRound (w : Intake) (spec : RoundSpec) : (w.startRound spec).1.rosters =
    w.rosters ++ [(Round.new spec w.activities.length).roster] := List.map_append

theorem role?_startRound (w : Intake) (spec : RoundSpec) (b : ActivityId) :
    (w.startRound spec).1.role? b =
      if b = w.activities.length then some (.round w.rounds.length) else w.role? b :=
  role?_add w (.round w.rounds.length) b

theorem uncalled_startRound (uncalled : Uncalled w) (spec : RoundSpec) :
    Uncalled (w.startRound spec).1 where
  each := fun b => by
    have hnew := calmAt_add (.round w.rounds.length) uncalled.each (.inr ⟨_, rfl⟩) b
    exact ⟨hnew.calls, hnew.post⟩
  going := by
    intro roster hmem
    rw [rosters_startRound] at hmem
    rcases List.mem_append.mp hmem with hold | hnew
    · exact uncalled.going roster hold
    · cases List.mem_singleton.mp hnew
      rfl
  owners := by
    intro b r hrole
    have hlength : w.rosters.length = w.rounds.length := List.length_map _
    rw [role?_startRound] at hrole
    rw [rosters_startRound]
    split at hrole
    · rename_i hb
      cases hrole
      exact ⟨_, by rw [← hlength, List.getElem?_concat_length], hb.symm⟩
    · obtain ⟨roster, hr, howner⟩ := uncalled.owners b r hrole
      refine ⟨roster, ?_, howner⟩
      rw [List.getElem?_append_left (List.getElem?_eq_some_iff.mp hr).choose, hr]
  members := by
    intro b r j hrole
    rw [role?_startRound] at hrole
    rw [rosters_startRound, List.length_append]
    split at hrole
    · cases hrole
    · exact Nat.lt_add_right _ (uncalled.members b r j hrole)

theorem calm_startRound (calm : Calm w) (spec : RoundSpec) : Calm (w.startRound spec).1 :=
  ⟨uncalled_startRound calm.toUncalled spec, calm.refusal⟩

theorem affairs_startRound (w : Intake) (spec : RoundSpec) :
    (w.startRound spec).1.affairs = w.affairs := affairs_add w _

theorem untouched_startRound (w : Intake) {r : RoundId} (hr : r < w.rosters.length)
    (spec : RoundSpec) : Untouched r w (w.startRound spec).1 where
  roster := by rw [rosters_startRound, List.getElem?_append_left hr]
  roles := role_of_add _
  members := fun {m j} hm => by
    rw [role?_startRound] at hm
    split at hm
    · cases hm
    · exact hm
  jobs := id
  owner := fun hp _ => ⟨_, post_of_add _ hp, rfl, rfl⟩

theorem Hosts.startRound {r : RoundId} {known : RoundSpec} (hosts : w.Hosts r known)
    (spec : RoundSpec) : (w.startRound spec).1.Hosts r known := by
  have hkept := hosts
  obtain ⟨roster, p, hr, -⟩ := hkept
  refine hosts.keep (untouched_startRound w (List.getElem?_eq_some_iff.mp hr).choose spec)
    (ended_of_course ?_)
  rw [affairs_startRound]
  exact .refl _

theorem Closed.startRound {r : RoundId} {roster : Roster} {outcome : RunOutcome}
    (closed : w.Closed r roster outcome) (spec : RoundSpec) :
    (w.startRound spec).1.Closed r roster outcome := by
  have hkept := closed
  obtain ⟨p, hr, -⟩ := hkept
  exact closed.keep (untouched_startRound w (List.getElem?_eq_some_iff.mp hr).choose spec)

theorem hosts_startRound (uncalled : Uncalled w) (spec : RoundSpec) :
    (w.startRound spec).1.Hosts w.rounds.length spec := by
  have hlength : w.rosters.length = w.rounds.length := List.length_map _
  refine ⟨(Round.new spec w.activities.length).roster, _, ?_, rfl, post?_add_self w _, rfl,
    .fresh rfl ⟨.nil, fun m j hm => ?_, .nil⟩⟩
  · rw [rosters_startRound, ← hlength, List.getElem?_concat_length]
  · rw [role?_startRound] at hm
    split at hm
    · cases hm
    · exact absurd (uncalled.members m _ j hm) (by rw [hlength]; exact Nat.lt_irrefl _)

/-! ## Done rounds -/

/-- Nobody makes a run but as a member of a round. -/
def RoundsOnly (w : Intake) : Prop := ∀ b j, w.role? b ≠ some (.run j)

theorem RoundsOnly.settled (h : w.RoundsOnly) (settled : Settled w w') : w'.RoundsOnly := by
  intro b j hb
  rcases settled.crew hb with hold | ⟨r, i, hmember⟩
  · exact h b j hold
  · cases hmember

theorem RoundsOnly.startRound (h : w.RoundsOnly) (spec : RoundSpec) :
    (w.startRound spec).1.RoundsOnly := by
  intro b j hb
  rw [role?_startRound] at hb
  split at hb
  · cases hb
  · exact h b j hb

theorem RoundsOnly.exists_member (h : w.RoundsOnly) {b : ActivityId} {spec : JobSpec}
    (hs : w.specOf? b = some spec) : ∃ r j, w.role? b = some (.member r j) := by
  rw [specOf?_eq_of_role] at hs
  obtain ⟨j, hj, -⟩ := Option.bind_eq_some_iff.mp hs
  obtain ⟨role, hrole, hjob⟩ := Option.bind_eq_some_iff.mp hj
  cases role with
  | run i => exact absurd hrole (h b i)
  | member r i => exact ⟨r, i, hrole⟩
  | round | collector | taker => cases hjob

/-- A round is closed if it is known how it came out. -/
theorem Hosts.closed {r : RoundId} {spec : RoundSpec} (hosts : w.Hosts r spec)
    {outcome : RunOutcome} (houtcome : w.roundOutcome? r = some outcome) :
    ∃ roster, w.Closed r roster outcome := by
  obtain ⟨roster, p, hr, -, hp, hrole, -⟩ := hosts
  refine ⟨roster, p, hr, hp, hrole, ?_⟩
  rw [rosters, List.getElem?_map, Option.map_eq_some_iff] at hr
  obtain ⟨round, hr, rfl⟩ := hr
  rw [roundOutcome?, hr, Option.bind_some] at houtcome
  obtain ⟨known, hknown, hstage⟩ := (outcome?_eq_some_iff w _).mp houtcome
  rw [show round.roster.owner = round.owner from rfl, hknown] at hp
  cases hp
  exact hstage

/-- A round that is done has a result of every member, if there are sources to read. -/
theorem Hosts.done {r : RoundId} {spec : RoundSpec} (hosts : w.Hosts r spec) {roster : Roster}
    (closed : w.Closed r roster .done) : roster.spec = spec ∧
      ∃ since, (spec.sources ≠ [] → thresholdOf spec.since = .ok since) ∧
        Staffed w r roster.members (spec.jobs since) ∧
        List.Forall₂ w.EndedWith roster.members roster.results := by
  obtain ⟨roster', p, hr', rfl, hp', -, stage⟩ := hosts
  obtain ⟨p', hr, hp, -, hstage⟩ := closed
  rw [hr'] at hr
  cases hr
  rw [hp'] at hp
  cases hp
  rw [hstage] at stage
  refine ⟨rfl, ?_⟩
  cases stage with
  | skipped hempty hmembers hresults staffed =>
      refine ⟨Instant.first, fun h => absurd hempty h, ?_, ?_⟩
      · rw [hmembers, RoundSpec.jobs, hempty]
        exact staffed
      · rw [hmembers, hresults]
        exact .nil
  | done hsince staffed hresults => exact ⟨_, fun _ => hsince, staffed, hresults⟩
  | broken _ h => exact absurd rfl h

theorem exists_round {r : RoundId} {roster : Roster} (h : w.rosters[r]? = some roster) :
    ∃ round, w.rounds[r]? = some round ∧ round.roster = roster := by
  rw [rosters, List.getElem?_map] at h
  exact Option.map_eq_some_iff.mp h

end

end Intake

namespace Staffed

variable {w : Intake} {r : RoundId} {members : List ActivityId} {spec : RoundSpec}
  {since : Instant} {i : Nat} {m : ActivityId} {source : String}

theorem length_eq (h : Staffed w r members (spec.jobs since)) :
    members.length = spec.sources.length := h.each.length_eq.trans (List.length_map _)

theorem job_at (h : Staffed w r members (spec.jobs since)) (hm : members[i]? = some m)
    (hsource : spec.sources[i]? = some source) : ∃ j, w.role? m = some (.member r j) ∧
      w.jobSpecs[j]? = some (spec.jobFor since source, spec.supplier) := by
  obtain ⟨hlt, hget⟩ := List.getElem?_eq_some_iff.mp hm
  obtain ⟨hlt', hget'⟩ := List.getElem?_eq_some_iff.mp hsource
  have hlt'' : i < (spec.jobs since).length := by
    rw [RoundSpec.jobs, List.length_map]
    exact hlt'
  have hjob := h.each.get hlt hlt''
  simpa [RoundSpec.jobs, hget, hget'] using hjob

theorem specOf?_at (h : Staffed w r members (spec.jobs since)) (hm : members[i]? = some m)
    (hsource : spec.sources[i]? = some source) :
    w.specOf? m = some (spec.jobFor since source) := by
  obtain ⟨j, hrole, hjob⟩ := h.job_at hm hsource
  exact specOf?_of_member hrole hjob

theorem answer?_at (h : Staffed w r members (spec.jobs since)) (hm : members[i]? = some m)
    (hsource : spec.sources[i]? = some source) {supplier : Supplier}
    (hsupplier : w.suppliers[spec.supplier]? = some supplier) :
    w.answer? m = some (supplier.answerFor w.web (spec.jobFor since source)) := by
  obtain ⟨j, hrole, hjob⟩ := h.job_at hm hsource
  rw [answer?_eq_of_role, hrole, Option.bind_some, Role.job?, Option.bind_some, hjob,
    Option.bind_some, hsupplier, Option.map_some]

/-- What a member has ended with is the result of the job for its source. -/
theorem ended_at (h : Staffed w r members (spec.jobs since)) {results : List RunResult}
    (hresults : List.Forall₂ w.EndedWith members results)
    (hsource : spec.sources[i]? = some source) : ∃ m result outcome, members[i]? = some m ∧
      results[i]? = some result ∧
        w.affairs.phase m = .ended (spec.jobFor since source) result outcome := by
  have hm : i < members.length := h.length_eq ▸ (List.getElem?_eq_some_iff.mp hsource).choose
  have hr : i < results.length := hresults.length_eq ▸ hm
  have hmember : members[i]? = some members[i] := List.getElem?_eq_getElem hm
  obtain ⟨known, outcome, hphase⟩ := hresults.get hm hr
  obtain ⟨hknown, -⟩ := View.of_phase_ended hphase
  rw [view_spec?] at hknown
  cases hknown.symm.trans (h.specOf?_at hmember hsource)
  exact ⟨_, _, outcome, hmember, List.getElem?_eq_getElem hr, hphase⟩

/-- If no source is listed twice, no other member reads the same. -/
theorem apart (h : Staffed w r members (spec.jobs since)) (hnodup : spec.sources.Nodup)
    (hm : members[i]? = some m) (hsource : spec.sources[i]? = some source) {b : ActivityId}
    {j : JobId} {other : JobSpec} (hb : b ≠ m) (hmember : w.role? b = some (.member r j))
    (hother : w.specOf? b = some other) : other.source ≠ source := by
  obtain ⟨k, hk⟩ := List.getElem?_of_mem (h.all b j hmember)
  have hlt : k < spec.sources.length := h.length_eq ▸ (List.getElem?_eq_some_iff.mp hk).choose
  have hsource' : spec.sources[k]? = some spec.sources[k] := List.getElem?_eq_getElem hlt
  rw [h.specOf?_at hk hsource'] at hother
  cases hother
  intro heq
  have heq' : spec.sources[k] = source := heq
  rw [heq', ← hsource] at hsource'
  have hsame : k = i := (List.getElem?_inj hlt hnodup).mp hsource'
  rw [hsame, hm] at hk
  exact hb (Option.some.inj hk).symm

end Staffed

end FeedIntake
