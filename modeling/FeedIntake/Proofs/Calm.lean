import FeedIntake.Proofs.Order
import FeedIntake.Proofs.Upshot

/-! # Calm

If nobody is cancelled and nothing new is set up, nobody is called off, in whatever order those who
are ready move, and everyone gets the answer that was promised. If no fault of the queue is prepared
either, the intake is calm, and runs take foreseen turns only.
-/

namespace FeedIntake

open Affairs

namespace Intake

/-- What may happen if nobody interferes. -/
inductive CalmStep : Intake → Intake → Prop where
  | happen {w : Intake} (before : List Call) (c : Call) (after : List Call)
      (h : w.ready = before ++ c :: after) :
      CalmStep w (({ w with ready := before ++ after } : Intake).happen c)
  | clock (w : Intake) (now : Time.DateTime) : CalmStep w { w with now }
  | openGate (w : Intake) (source : String) : CalmStep w (w.openGate source)
  | takeOne {w w' : Intake} {record : Record} (h : w.takeOne = some (record, w')) : CalmStep w w'

abbrev Proceeds : Intake → Intake → Prop := Relation.ReflTransGen CalmStep

theorem CalmStep.step {w w' : Intake} (step : CalmStep w w') : Step w w' := by
  cases step with
  | happen before c after h => exact .happen before c after h
  | clock now => exact .clock w now
  | openGate source => exact .openGate w source
  | takeOne h => exact .takeOne h

theorem Proceeds.reaches {w w' : Intake} (proceeds : Proceeds w w') : Reaches w w' :=
  proceeds.lift id fun _ _ => CalmStep.step

theorem ticks_proceeds (n : Nat) (w : Intake) : Proceeds w (ticks n w) := by
  induction n generalizing w with
  | zero => exact .refl
  | succ n ih =>
      refine Relation.ReflTransGen.trans ?_ (ih w.tick)
      unfold tick
      split
      · exact .refl
      · rename_i c rest hready
        exact .single (.happen [] c rest hready)

theorem takeOne_proceeds (w : Intake) : Proceeds w ((w.takeOne.map (·.2)).getD w) := by
  cases htake : w.takeOne with
  | none => exact .refl
  | some taken => exact .single (.takeOne htake)

end Intake

open Intake

/-! ## What stays as it is -/

/-- What of an intake is settled while its runs go on. -/
structure Outline where
  suppliers : List Supplier
  web : List (String × Response)
  jobs : List (JobSpec × SupplierId)
  rosters : List Roster
  refuses : Option Fault

namespace Intake

def outline (w : Intake) : Outline :=
  ⟨w.suppliers, w.web, w.jobSpecs, w.rosters, w.queue.refuses⟩

def plan (w : Intake) : Plan := ⟨w.specOf?, w.answer?⟩

section

variable (w : Intake) (a : ActivityId)

theorem outline_onRound {f : Round → Round} (h : ∀ x, (f x).roster = x.roster) (r : RoundId) :
    (w.onRound r f).outline = w.outline := by
  have hrosters : (w.onRound r f).rosters = w.rosters := List.map_modify_of_unseen h w.rounds r
  unfold outline
  rw [hrosters]
  rfl

theorem outline_wakeAny (someone : Option ActivityId) :
    (w.wakeAny someone).outline = w.outline := by
  cases someone <;> rfl

theorem outline_withQueue {q : RecordQueue × Option ActivityId}
    (h : q.1.refuses = w.queue.refuses) : (w.withQueue q).outline = w.outline := by
  rw [withQueue, outline_wakeAny]
  unfold outline
  rw [h]
  rfl

theorem outline_withPermits (r : RoundId) (p : Permits × Option ActivityId) :
    (w.withPermits r p).outline = w.outline := by
  rw [withPermits, outline_wakeAny]
  exact outline_onRound w (by exact fun _ => rfl) r

theorem outline_close (outcome : RunOutcome) : (w.close a outcome).outline = w.outline := by
  unfold close
  dsimp only
  split <;> rfl

theorem outline_openGate (source : String) : (w.openGate source).outline = w.outline :=
  openGate_induction (P := fun v => v.outline = w.outline) source (fun _ _ => rfl) fun _ _ hv => hv

theorem outline_takeOne {w w' : Intake} {record : Record}
    (htake : w.takeOne = some (record, w')) : w'.outline = w.outline := by
  obtain ⟨⟨first, queue, putter⟩, hpop, heq⟩ := Option.map_eq_some_iff.mp htake
  cases heq
  refine outline_withQueue (w.tell _) ?_
  unfold RecordQueue.pop at hpop
  split at hpop
  · cases hpop
  · cases hpop
    rfl

variable {w a} {w' : Intake}

theorem outline_of_scene (h : w'.scene = w.scene) : w'.outline = w.outline := by
  have hrosters : w'.rosters = w.rosters := by rw [rosters, rosters, rounds_of_scene h]
  have hsuppliers : w'.suppliers = w.suppliers := congrArg Scene.suppliers h
  have hweb : w'.web = w.web := congrArg Scene.web h
  have hjobs : w'.jobSpecs = w.jobSpecs := congrArg Scene.jobs h
  have hrefuses : w'.queue.refuses = w.queue.refuses := congrArg Scene.refuses h
  unfold outline
  rw [hrosters, hsuppliers, hweb, hjobs, hrefuses]

theorem specOf?_eq_of_role (b : ActivityId) : w.specOf? b =
    ((w.role? b).bind Role.job?).bind fun j => (w.jobSpecs[j]?).map (·.1) := by
  rw [specOf?_eq, role?_eq]
  cases w.post? b <;> rfl

theorem answer?_eq_of_role (b : ActivityId) : w.answer? b =
    ((w.role? b).bind Role.job?).bind fun j => (w.jobSpecs[j]?).bind fun job =>
      (w.suppliers[job.2]?).map (·.answerFor w.web job.1) := by
  rw [answer?, role?_eq]
  cases w.post? b <;> rfl

theorem specOf?_of_member {b : ActivityId} {r : RoundId} {j : JobId} {job : JobSpec × SupplierId}
    (hrole : w.role? b = some (.member r j)) (hjob : w.jobSpecs[j]? = some job) :
    w.specOf? b = some job.1 := by
  rw [specOf?_eq_of_role, hrole, Option.bind_some, Role.job?, Option.bind_some, hjob,
    Option.map_some]

theorem plan_extends (hsuppliers : w'.suppliers = w.suppliers) (hweb : w'.web = w.web)
    (hjobs : ∀ {j : JobId} {job}, w.jobSpecs[j]? = some job → w'.jobSpecs[j]? = some job)
    (hroles : ∀ {b role}, w.role? b = some role → w'.role? b = some role) :
    w'.plan.Extends w.plan where
  spec := by
    intro b spec hs
    show w'.specOf? b = some spec
    have hs' : w.specOf? b = some spec := hs
    rw [specOf?_eq_of_role] at hs' ⊢
    obtain ⟨j, hj, job, hjob, rfl⟩ : ∃ j, (w.role? b).bind Role.job? = some j ∧
        ∃ job, w.jobSpecs[j]? = some job ∧ job.1 = spec := by
      simpa [Option.bind_eq_some_iff] using hs'
    obtain ⟨role, hrole, hj⟩ := Option.bind_eq_some_iff.mp hj
    simp [hroles hrole, hj, hjobs hjob]
  answer := by
    intro b answer ha
    show w'.answer? b = some answer
    have ha' : w.answer? b = some answer := ha
    rw [answer?_eq_of_role] at ha' ⊢
    obtain ⟨j, hj, ha'⟩ := Option.bind_eq_some_iff.mp ha'
    obtain ⟨job, hjob, ha'⟩ := Option.bind_eq_some_iff.mp ha'
    obtain ⟨role, hrole, hj⟩ := Option.bind_eq_some_iff.mp hj
    rw [hroles hrole, Option.bind_some, hj, Option.bind_some, hjobs hjob, Option.bind_some,
      hsuppliers, hweb, ha']

theorem specOf?_of_outline (houtline : w'.outline = w.outline) {b : ActivityId}
    (hrole : w'.role? b = w.role? b) : w'.specOf? b = w.specOf? b := by
  have hjobs : w'.jobSpecs = w.jobSpecs := congrArg Outline.jobs houtline
  rw [specOf?_eq_of_role, specOf?_eq_of_role, hrole, hjobs]

theorem answer?_of_outline (houtline : w'.outline = w.outline) {b : ActivityId}
    (hrole : w'.role? b = w.role? b) : w'.answer? b = w.answer? b := by
  have hjobs : w'.jobSpecs = w.jobSpecs := congrArg Outline.jobs houtline
  have hsuppliers : w'.suppliers = w.suppliers := congrArg Outline.suppliers houtline
  have hweb : w'.web = w.web := congrArg Outline.web houtline
  rw [answer?_eq_of_role, answer?_eq_of_role, hrole, hjobs, hsuppliers, hweb]

theorem plan_extends_of_outline (houtline : w'.outline = w.outline)
    (hroles : ∀ b, w'.role? b = w.role? b) : w'.plan.Extends w.plan where
  spec := fun h => (specOf?_of_outline houtline (hroles _)).trans h
  answer := fun h => (answer?_of_outline houtline (hroles _)).trans h

end

end Intake

theorem Motion.outline {a : ActivityId} {w w' : Intake} (motion : Motion a w w') :
    w'.outline = w.outline := by
  cases motion with
  | aside h => exact outline_of_scene h
  | push record room => exact outline_withQueue w rfl
  | passOn => exact outline_withQueue w rfl
  | take hr free => exact outline_onRound w (by exact fun _ => rfl) _
  | moveOn hr | giveUp hr | release hr => exact outline_withPermits w _ _

theorem Motions.outline {a : ActivityId} {w w' : Intake} (motions : Motions a w w') :
    w'.outline = w.outline := by
  induction motions with
  | refl => rfl
  | tail _ motion ih => exact motion.outline.trans ih

theorem Halt.outline {a : ActivityId} {w w' : Intake} (halt : Halt a w w') :
    w'.outline = w.outline := by
  cases halt with
  | finish outcome => exact outline_close w a outcome
  | line role hr taken => exact outline_onRound w (by exact fun _ => rfl) _
  | _ => rfl

/-- Somebody stays where it is, and is not called off. -/
structure Stays (b : ActivityId) (w w' : Intake) : Prop where
  calls : ∀ calledOff ∈ w'.calls b, calledOff ∈ w.calls b ∨ calledOff = false
  post : (w'.post? b).map Post.awake = (w.post? b).map Post.awake

namespace Stays

variable {b : ActivityId} {w u w' : Intake}

theorem trans (h : Stays b w u) (h' : Stays b u w') : Stays b w w' where
  calls := fun calledOff hmem => (h'.calls calledOff hmem).elim (h.calls calledOff) .inr
  post := h'.post.trans h.post

theorem of_beside (h : Beside b w w') : Stays b w w' := by
  obtain ⟨k, hcalls, -, hpost⟩ := h
  constructor
  · intro calledOff hmem
    rw [hcalls] at hmem
    exact (List.mem_append.mp hmem).imp id List.eq_of_mem_replicate
  · rw [hpost]
    split
    · rfl
    · cases w.post? b <;> rfl

theorem role? (h : Stays b w w') : w'.role? b = w.role? b := by
  have hrole := congrArg (Option.map Post.role) h.post
  rw [Option.map_map, Option.map_map] at hrole
  rw [role?_eq, role?_eq]
  exact hrole

theorem exists_post (h : Stays b w w') {p' : Post} (hp' : w'.post? b = some p') :
    ∃ p, w.post? b = some p ∧ p'.role = p.role ∧ p'.stage = p.stage ∧ p'.stopping = p.stopping := by
  have hpost := h.post
  rw [hp', Option.map_some, eq_comm, Option.map_eq_some_iff] at hpost
  obtain ⟨p, hp, heq⟩ := hpost
  obtain ⟨hrole, hstage, -, hstopping⟩ := Post.mk.inj heq
  exact ⟨p, hp, hrole.symm, hstage.symm, hstopping.symm⟩

theorem exists_post_after (h : Stays b w w') {p : Post} (hp : w.post? b = some p) :
    ∃ p', w'.post? b = some p' ∧ p'.role = p.role ∧ p'.stage = p.stage := by
  have hpost := h.post
  rw [hp, Option.map_some, Option.map_eq_some_iff] at hpost
  obtain ⟨p', hp', heq⟩ := hpost
  obtain ⟨hrole, hstage, -⟩ := Post.mk.inj heq
  exact ⟨p', hp', hrole, hstage⟩

end Stays

/-! ## Calm -/

def Stage.isOwners : Stage → Bool
  | fresh | gathering | finished _ => true
  | _ => false

/-- Somebody is not to stop, makes a run or owns a round, and waits for what was promised. -/
structure Post.IsCalm (p : Post) (spec? : Option JobSpec)
    (answer? : Option (Except Fault (List Entry))) : Prop where
  going : p.stopping = false
  role : p.role.job?.isSome = true ∨ (∃ r, p.role = .round r) ∧ p.stage.isOwners = true
  gate : ∀ answer, p.stage = .atGate answer → answer? = some answer.outcome
  network : ∀ url response, p.stage = .onNetwork url response →
    ∃ spec, spec? = some spec ∧ answer? = some (spec.conclusion url response)

structure Intake.CalmAt (w : Intake) (b : ActivityId) : Prop where
  calls : ∀ calledOff ∈ w.calls b, calledOff = false
  post : ∀ p, w.post? b = some p → p.IsCalm (w.specOf? b) (w.answer? b)

def Roster.frame (x : Roster) : RoundSpec × ActivityId × Bool := (x.spec, x.owner, x.stopping)

/-- Nobody is called off. -/
structure Uncalled (w : Intake) : Prop where
  each : ∀ b, w.CalmAt b
  going : ∀ roster ∈ w.rosters, roster.stopping = false
  /-- Whoever is there for a round owns it. -/
  owners : ∀ b r, w.role? b = some (.round r) →
    ∃ roster, w.rosters[r]? = some roster ∧ roster.owner = b
  members : ∀ b r j, w.role? b = some (.member r j) → r < w.rosters.length

/-- Nobody is called off, and the queue takes whatever it is given. -/
structure Calm (w : Intake) : Prop extends Uncalled w where
  refusal : w.queue.refusal = none

theorem Post.IsCalm.congr {p p' : Post} {spec? spec?' : Option JobSpec}
    {answer? answer?' : Option (Except Fault (List Entry))} (calm : p.IsCalm spec? answer?)
    (hrole : p'.role = p.role) (hstage : p'.stage = p.stage) (hstopping : p'.stopping = p.stopping)
    (hspec : ∀ {spec}, spec? = some spec → spec?' = some spec)
    (hanswer : ∀ {answer}, answer? = some answer → answer?' = some answer) :
    p'.IsCalm spec?' answer?' where
  going := hstopping.trans calm.going
  role := by
    rw [hrole, hstage]
    exact calm.role
  gate := fun answer h => hanswer (calm.gate answer (hstage ▸ h))
  network := fun url response h => by
    obtain ⟨spec, hs, ha⟩ := calm.network url response (hstage ▸ h)
    exact ⟨spec, hspec hs, hanswer ha⟩

theorem Post.isCalm_of_isOwners {p : Post} {spec? : Option JobSpec}
    {answer? : Option (Except Fault (List Entry))} (hgoing : p.stopping = false)
    (hrole : p.role.job?.isSome = true ∨ ∃ r, p.role = .round r)
    (hstage : p.stage.isOwners = true) : p.IsCalm spec? answer? where
  going := hgoing
  role := hrole.imp_right fun hround => ⟨hround, hstage⟩
  gate := fun answer h => by
    rw [h] at hstage
    cases hstage
  network := fun url response h => by
    rw [h] at hstage
    cases hstage

theorem Stays.calmAt {b : ActivityId} {w w' : Intake} (stays : Stays b w w')
    (h : w'.plan.Extends w.plan) (calm : w.CalmAt b) : w'.CalmAt b where
  calls := fun calledOff hmem => (stays.calls calledOff hmem).elim (calm.calls calledOff) id
  post := fun p' hp' => by
    obtain ⟨p, hp, hrole, hstage, hstopping⟩ := stays.exists_post hp'
    exact (calm.post p hp).congr hrole hstage hstopping h.spec h.answer

namespace Uncalled

variable {w w' : Intake} {a : ActivityId}

theorem keep (uncalled : Uncalled w)
    (hrosters : w'.rosters.map Roster.frame = w.rosters.map Roster.frame)
    (hroles : ∀ b role, w'.role? b = some role → w.role? b = some role ∨
      (∀ r, role ≠ .round r) ∧ ∀ r j, role = .member r j → r < w.rosters.length)
    (each : ∀ b, w'.CalmAt b) : Uncalled w' where
  each := each
  going := by
    intro roster' hmem
    have hframe := List.mem_map_of_mem (f := Roster.frame) hmem
    rw [hrosters] at hframe
    obtain ⟨roster, hroster, heq⟩ := List.mem_map.mp hframe
    have hstopping : roster.stopping = roster'.stopping := congrArg (·.2.2) heq
    rw [← hstopping]
    exact uncalled.going roster hroster
  owners := by
    intro b r hrole
    rcases hroles b _ hrole with hold | ⟨hnew, -⟩
    · obtain ⟨roster, hr, howner⟩ := uncalled.owners b r hold
      have hframe : (w'.rosters.map Roster.frame)[r]? = (w.rosters.map Roster.frame)[r]? := by
        rw [hrosters]
      rw [List.getElem?_map, List.getElem?_map, hr, Option.map_some,
        Option.map_eq_some_iff] at hframe
      obtain ⟨roster', hr', heq⟩ := hframe
      exact ⟨roster', hr', (congrArg (·.2.1) heq).trans howner⟩
    · exact absurd rfl (hnew r)
  members := by
    intro b r j hrole
    have hlength := congrArg List.length hrosters
    rw [List.length_map, List.length_map] at hlength
    rw [hlength]
    rcases hroles b _ hrole with hold | ⟨-, hlt⟩
    · exact uncalled.members b r j hold
    · exact hlt r j rfl

theorem of_outline (uncalled : Uncalled w) (houtline : w'.outline = w.outline)
    (hroles : ∀ b, w'.role? b = w.role? b) (each : ∀ b, w'.CalmAt b) : Uncalled w' := by
  have hrosters : w'.rosters = w.rosters := congrArg Outline.rosters houtline
  exact uncalled.keep (by rw [hrosters]) (fun b _ h => .inl ((hroles b).symm.trans h)) each

theorem of_stays (uncalled : Uncalled w) (houtline : w'.outline = w.outline)
    (hall : ∀ b, Stays b w w') : Uncalled w' :=
  uncalled.of_outline houtline (fun b => (hall b).role?) fun b => (hall b).calmAt
    (plan_extends_of_outline houtline fun b => (hall b).role?) (uncalled.each b)

/-- All but one stay where they are. -/
theorem but (uncalled : Uncalled w) (houtline : w'.outline = w.outline)
    (hrole : w'.role? a = w.role? a) (hothers : ∀ b, b ≠ a → Stays b w w')
    (ha : w'.CalmAt a) : Uncalled w' := by
  have hroles (b : ActivityId) : w'.role? b = w.role? b := by
    by_cases hb : b = a
    · rw [hb, hrole]
    · exact (hothers b hb).role?
  refine uncalled.of_outline houtline hroles fun b => ?_
  by_cases hb : b = a
  · rw [hb]
    exact ha
  · exact (hothers b hb).calmAt (plan_extends_of_outline houtline hroles) (uncalled.each b)

end Uncalled

theorem Calm.of_uncalled {w w' : Intake} (calm : Calm w) (uncalled : Uncalled w')
    (hrefuses : w'.queue.refuses = w.queue.refuses) : Calm w' where
  toUncalled := uncalled
  refusal := by
    rw [← RecordQueue.refuses_eq_none_iff, hrefuses, RecordQueue.refuses_eq_none_iff]
    exact calm.refusal

/-! ## Moves of runs -/

/-- A run that halts waits for what was promised. -/
theorem Halt.calmAt {a : ActivityId} {w w' : Intake} (halt : Halt a w w') {p : Post}
    (hp : w.post? a = some p) (hrun : p.role.job?.isSome = true) (calm : w.CalmAt a)
    (hrole : w'.role? a = w.role? a) : w'.CalmAt a := by
  have hspec := specOf?_of_outline halt.outline hrole
  have hanswer := answer?_of_outline halt.outline hrole
  have hgoing := (calm.post p hp).going
  -- At a stage where nothing is awaited there is no promise to keep.
  have hplain {q : Post} (hq : w'.post? a = some q) (hcalls : ∀ f ∈ w'.calls a, f = false)
      (hqrole : q.role = p.role) (hstopping : q.stopping = p.stopping)
      (hgate : ∀ answer, q.stage ≠ .atGate answer)
      (hnetwork : ∀ url response, q.stage ≠ .onNetwork url response) : w'.CalmAt a := by
    refine ⟨hcalls, fun q' hq' => ?_⟩
    rw [hq] at hq'
    cases hq'
    exact {
      going := hstopping.trans hgoing
      role := .inl (hqrole ▸ hrun)
      gate := fun answer h => absurd h (hgate answer)
      network := fun url response h => absurd h (hnetwork url response) }
  cases halt with
  | rest => exact calm
  | finish outcome =>
      exact hplain (post?_close hp outcome) (by rw [calls_close]; exact calm.calls) rfl rfl
        (fun _ h => by cases h) fun _ _ h => by cases h
  | gate source answer promise =>
      refine ⟨calm.calls, fun q hq => ?_⟩
      rw [post?_suspend (w := { w with gateLine := w.gateLine ++ [(source, a)] }) hp] at hq
      cases hq
      exact {
        going := hgoing
        role := .inl hrun
        gate := fun given h => by
          cases h
          exact hanswer.trans promise
        network := fun _ _ h => by cases h }
  | network spec url response hs promise =>
      refine ⟨?_, fun q hq => ?_⟩
      · rw [calls_call]
        intro f hf
        rcases List.mem_append.mp hf with hold | hnew
        · exact calm.calls f hold
        · rw [Call.calledOff?, if_pos rfl] at hnew
          simpa using hnew
      · rw [post?_call, post?_enter hp] at hq
        cases hq
        exact {
          going := hgoing
          role := .inl hrun
          gate := fun _ h => by cases h
          network := fun _ _ h => by
            cases h
            exact ⟨spec, hspec.trans hs, hanswer.trans promise⟩ }
  | room record rest full =>
      exact hplain (post?_suspend (w := { w with queue := _ }) hp _) calm.calls rfl rfl
        (fun _ h => by cases h) fun _ _ h => by cases h
  | line role hr taken =>
      exact hplain (post?_suspend (w := w.onRound _ _) hp _) calm.calls rfl rfl
        (fun _ h => by cases h) fun _ _ h => by cases h

namespace Intake

section

variable {w : Intake} {a : ActivityId} {answer : Option (Except Fault (List Entry))}
  {trouble : Prop}

theorem goOn_foreseen {f : JobSpec → RunResult → Intake}
    (hf : ∀ spec r, w.view.spec? a = some spec → w.view.result? a = some r →
      ForeseenTurns answer trouble a spec w.affairs (f spec r).affairs) :
    RunsForeseen answer trouble a w (w.goOn a f) := by
  rcases goOn_cases w a f with heq | ⟨spec, r, hs, hr, heq⟩
  · rw [heq]
    exact .inl rfl
  · rw [heq]
    exact .inr ⟨spec, hs, hf spec r hs hr⟩

/-- A run that acts takes turns as its fetch was promised to come out. -/
theorem act_foreseen (htidy : w.affairs.Tidy) (hrefusal : w.queue.refusal = none) {x : Activity}
    (hx : w.activity? a = some x) (calm : x.post.IsCalm (w.specOf? a) (w.answer? a)) {j : JobId}
    (hj : x.role.job? = some j) (hstage : x.stage.isBesideTaking = true) :
    RunsForeseen (w.answer? a) False a w (w.act a x.role false false x.stage) := by
  have hc : w.view.core a = some x.core := by rw [view_core, hx, Option.map_some]
  have hrole : w.role? a = some x.role := by rw [role?, hx, Option.map_some]
  have hjob : w.jobOf? a = some j := by rw [jobOf?, hrole, Option.bind_some, hj]
  have promises := promises_answer? hjob
  have hsound : w.queue.refusal ≠ none → False := fun h => h hrefusal
  have hidle (h : ∀ spec r, View.standing spec r x.stage = .astray) :
      w.affairs.phase a = .idle := View.phase_eq_idle_of_standing hc h (htidy a)
  have hplace {spec : JobSpec} {r : RunResult} (hs : w.view.spec? a = some spec)
      (hr : w.view.result? a = some r) :
      w.affairs = w.affairs.set a (View.standing spec r x.stage) :=
    (set_eq_self (View.phase_eq_standing hc hs hr)).symm
  unfold act
  cases hat : x.stage with
  | fresh =>
      have hfresh := hidle (by rw [hat]; exact fun _ _ => rfl)
      dsimp only
      rw [if_neg (by simp)]
      cases hrun : x.role with
      | run i =>
          rw [hrun] at hj
          cases hj
          exact beginRun_foreseen hjob promises hsound hfresh
      | member r i =>
          rw [hrun] at hj
          cases hj
          exact beginMember_foreseen hjob promises hsound hfresh
      | round | collector | taker =>
          rw [hrun] at hj
          cases hj
  | inLine =>
      dsimp only
      split
      · rename_i r i hmember
        rw [hmember] at hj
        cases hj
        exact leaveLine_foreseen hjob promises hsound
          (hidle (by rw [hat]; exact fun _ _ => rfl)) _ _
      · exact .inl rfl
  | atGate given =>
      refine goOn_foreseen fun spec r hs hr => ?_
      have hhere := hplace hs hr
      rw [hat] at hhere
      rw [hhere, calm.gate given hat, if_neg (by simp)]
      exact deliver_foreseen hs hsound hr _
  | onNetwork url response =>
      refine goOn_foreseen fun spec r hs hr => ?_
      have hhere := hplace hs hr
      rw [hat] at hhere
      obtain ⟨known, hknown, promised⟩ := calm.network url response hat
      rw [← view_spec?, hs] at hknown
      cases hknown
      rw [hhere, promised, if_neg (by simp)]
      exact receive_foreseen hs hsound hr url response
  | atQueue record rest =>
      refine goOn_foreseen fun spec r hs hr => ?_
      have hhere := hplace hs hr
      rw [hat] at hhere
      rw [hhere, if_neg (by simp)]
      exact resumePut_foreseen hs hsound hr record rest
  | gathering =>
      dsimp only
      rw [if_neg (by simp)]
      cases hrun : x.role with
      | run | member => exact .inl rfl
      | round | collector | taker =>
          rw [hrun] at hj
          cases hj
  | awaitingRecord | joining =>
      rw [hat] at hstage
      cases hstage
  | finished outcome => exact .inl rfl

end

end Intake

namespace Uncalled

variable {S : ActivityId → Prop} {w : Intake} {a : ActivityId} {before after : List Call}

theorem forget_stays {c : Call} (hready : w.ready = before ++ c :: after) (b : ActivityId) :
    Stays b w { w with ready := before ++ after } :=
  ⟨fun _ hmem => .inl (mem_calls_of_ready hready hmem), rfl⟩

theorem not_calledOff (uncalled : Uncalled w) {calledOff : Bool}
    (hready : w.ready = before ++ .move a calledOff :: after) : calledOff = false :=
  (uncalled.each a).calls calledOff (by
    simp [calls, hready, List.filterMap_append, Call.calledOff?])

theorem attend (uncalled : Uncalled w) {c : Call} (hready : w.ready = before ++ c :: after)
    {p : Post} (hp : w.post? a = some p) :
    (w.attend a (before ++ after)).post? a = some p ∧
      ∀ b, Stays b w (w.attend a (before ++ after)) := by
  have hpost : (w.attend a (before ++ after)).post? a = some p := by
    rw [post?_attend hp, ← ((uncalled.each a).post p hp).going]
  refine ⟨hpost, fun b => ⟨(forget_stays hready b).calls, ?_⟩⟩
  by_cases hb : b = a
  · rw [hb, hpost, hp]
  · rw [Intake.attend, post?_onActivity_of_ne _ a b hb]
    rfl

theorem move_apart (uncalled : Uncalled w) (order : Orderly S w) {calledOff : Bool}
    (hready : w.ready = before ++ .move a calledOff :: after) {p : Post}
    (hp : w.post? a = some p) (hrun : p.role.job?.isSome = true) :
    (({ w with ready := before ++ after } : Intake).move a calledOff).outline = w.outline ∧
      (({ w with ready := before ++ after } : Intake).move a calledOff).role? a = w.role? a ∧
      ∀ b, b ≠ a → Stays b w (({ w with ready := before ++ after } : Intake).move a calledOff) := by
  obtain ⟨-, -, u, motions, halt⟩ := order.move_pursuit hready hp hrun
  obtain ⟨-, hstays⟩ := uncalled.attend hready hp
  have houtline : (w.attend a (before ++ after)).outline = w.outline := rfl
  have hmoved (b : ActivityId) : Stays b w u := (hstays b).trans (.of_beside (motions.beside b))
  refine ⟨(halt.outline.trans motions.outline).trans houtline,
    (halt.keeps.role? a).trans (hmoved a).role?, fun b hb => ?_⟩
  exact (hmoved b).trans (.of_beside (halt.beside hb))

theorem move_run (uncalled : Uncalled w) (order : Orderly S w) {calledOff : Bool}
    (hready : w.ready = before ++ .move a calledOff :: after) {p : Post}
    (hp : w.post? a = some p) (hrun : p.role.job?.isSome = true) :
    Uncalled (({ w with ready := before ++ after } : Intake).move a calledOff) := by
  obtain ⟨houtline, hrole, hothers⟩ := uncalled.move_apart order hready hp hrun
  obtain ⟨-, -, u, motions, halt⟩ := order.move_pursuit hready hp hrun
  obtain ⟨hpost, hstays⟩ := uncalled.attend hready hp
  have hattends : Uncalled (w.attend a (before ++ after)) := uncalled.of_stays rfl hstays
  have hmoved := hattends.of_stays motions.outline fun b => .of_beside (motions.beside b)
  have hseats := order.unseated hp hrun (order.going hready hp hrun).1
  obtain ⟨-, -, hpost'⟩ := (motions.beside a).of_unseated hseats
  exact uncalled.but houtline hrole hothers
    (halt.calmAt (hpost'.trans hpost) hrun (hmoved.each a) (halt.keeps.role? a))

end Uncalled

namespace Calm

variable {S : ActivityId → Prop} {w : Intake} {a : ActivityId} {before after : List Call}

theorem move_foreseen (calm : Calm w) (order : Orderly S w) (htidy : w.affairs.Tidy)
    {calledOff : Bool} (hready : w.ready = before ++ .move a calledOff :: after) {p : Post}
    (hp : w.post? a = some p) (hrun : p.role.job?.isSome = true) :
    RunsForeseen (w.answer? a) False a w
      (({ w with ready := before ++ after } : Intake).move a calledOff) := by
  obtain ⟨hpost, hstays⟩ := calm.attend hready hp
  have houtline : (w.attend a (before ++ after)).outline = w.outline := rfl
  have hcalm := calm.of_uncalled (calm.of_stays houtline hstays) rfl
  have hview : (w.attend a (before ++ after)).view = w.view :=
    view_onActivity_of_unseen _ a fun _ => rfl
  have hstage := ((order.inOrder a).run p hp hrun).stage
  obtain ⟨j, hj⟩ := Option.isSome_iff_exists.mp hrun
  have hgoing := ((calm.each a).post p hp).going
  have hp' := hpost
  rw [post?_eq, Option.map_eq_some_iff] at hp hp'
  obtain ⟨x, hx, rfl⟩ := hp
  obtain ⟨x', hx', hsame⟩ := hp'
  obtain ⟨hrole', hstage', -, -⟩ := Post.mk.inj hsame
  have htidy' : (w.attend a (before ++ after)).affairs.Tidy := by
    rw [affairs, hview]
    exact htidy
  have hact := act_foreseen htidy' hcalm.refusal hx'
    ((hcalm.each a).post _ (by rw [post?_eq, hx', Option.map_some]))
    (by rw [hrole']; exact hj) (by rw [hstage']; exact hstage)
  have hanswer : (w.attend a (before ++ after)).answer? a = w.answer? a :=
    answer?_of_outline houtline (hstays a).role?
  have hstopping : x.stopping = false := hgoing
  rw [hanswer, hrole', hstage'] at hact
  rw [move_eq_act hx, calm.not_calledOff hready, hstopping]
  unfold RunsForeseen at hact ⊢
  rw [affairs, affairs, hview] at hact
  exact hact

end Calm

end FeedIntake
