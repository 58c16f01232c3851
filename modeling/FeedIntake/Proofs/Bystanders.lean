import FeedIntake.Proofs.BoundedQueue

/-! # Bystanders

Whoever moves leaves all others where they are. Jobs and suppliers stay what they are once they are
there, and what was due for others remains due. So whatever a run waits for, it still waits for when
it moves next.
-/

namespace FeedIntake

open Intake

def Supplier.fetcher? : Supplier → Option Fetcher
  | .prepared _ => none
  | .network fetcher => some fetcher

namespace Intake

/-- What somebody is, and what it is to do next. -/
def place? (w : Intake) (b : ActivityId) : Option (Role × Stage) :=
  (w.post? b).map fun p => (p.role, p.stage)

def fetchers (w : Intake) : List (Option Fetcher) := w.suppliers.map Supplier.fetcher?

theorem place?_eq_core (w : Intake) (b : ActivityId) :
    w.place? b = (w.view.core b).map fun c => (c.role, c.stage) := by
  rw [place?, post?_eq, view_core, Option.map_map, Option.map_map]
  rfl

theorem role?_eq_place (w : Intake) (b : ActivityId) : w.role? b = (w.place? b).map (·.1) := by
  rw [role?_eq, place?, Option.map_map]
  rfl

/-- What there is stays what it is. -/
structure Grows (w w' : Intake) : Prop where
  fetchers : w.fetchers <+: w'.fetchers
  jobs : w.jobSpecs <+: w'.jobSpecs
  role : ∀ {b role}, w.role? b = some role → w'.role? b = some role

/-- What else is left as it is when somebody moves. -/
structure Frame (a : ActivityId) (w w' : Intake) : Prop extends Grows w w' where
  due : ∀ {b calledOff}, b ≠ a → .move b calledOff ∈ w.ready → .move b calledOff ∈ w'.ready
  stays : ∀ {b place}, b ≠ a → w.place? b = some place → w'.place? b = some place

namespace Frame

variable {a : ActivityId} {w u w' : Intake}

theorem refl (a : ActivityId) (w : Intake) : Frame a w w where
  fetchers := List.prefix_refl _
  jobs := List.prefix_refl _
  role := id
  due := fun _ => id
  stays := fun _ => id

theorem trans (h : Frame a w u) (h' : Frame a u w') : Frame a w w' where
  fetchers := h.fetchers.trans h'.fetchers
  jobs := h.jobs.trans h'.jobs
  role := fun hrole => h'.role (h.role hrole)
  due := fun hb hmem => h'.due hb (h.due hb hmem)
  stays := fun hb hplace => h'.stays hb (h.stays hb hplace)

theorem of_places (hsuppliers : w'.suppliers = w.suppliers) (hjobs : w'.jobSpecs = w.jobSpecs)
    (hdue : ∀ {b calledOff}, b ≠ a → .move b calledOff ∈ w.ready → .move b calledOff ∈ w'.ready)
    (hplace : ∀ b, b ≠ a → w'.place? b = w.place? b) (hrole : w'.role? a = w.role? a) :
    Frame a w w' where
  fetchers := by
    have hsame : w'.fetchers = w.fetchers := congrArg (List.map Supplier.fetcher?) hsuppliers
    exact hsame ▸ List.prefix_refl _
  jobs := hjobs ▸ List.prefix_refl _
  role := fun {b role} hknown => by
    by_cases hb : b = a
    · rw [hb, hrole, ← hb, hknown]
    · rw [role?_eq_place, hplace b hb, ← role?_eq_place, hknown]
  due := hdue
  stays := fun hb hsome => (hplace _ hb).trans hsome

theorem of_view (a : ActivityId) (hsuppliers : w'.suppliers = w.suppliers)
    (hjobs : w'.jobSpecs = w.jobSpecs) (hdue : w.ready <+: w'.ready)
    (hview : w'.view.core = w.view.core) : Frame a w w' := by
  have hplace (b : ActivityId) : w'.place? b = w.place? b := by
    rw [place?_eq_core, place?_eq_core, hview]
  refine .of_places hsuppliers hjobs (fun _ => (hdue.subset ·)) (fun b _ => hplace b) ?_
  rw [role?_eq_place, role?_eq_place, hplace]

/-! ## What activities do -/

section

variable (a : ActivityId) (w : Intake)

theorem onActivity {f : Activity → Activity} (hf : ∀ x, (f x).role = x.role) :
    Frame a w (w.onActivity a f) := by
  refine .of_places rfl rfl (fun _ => id) (fun b hb => ?_) (role?_onActivity w a a hf)
  rw [place?, place?, post?_onActivity_of_ne w a b hb]

theorem tell {b : ActivityId} {f : Activity → Activity} (hf : ∀ x, (f x).core = x.core) :
    Frame a w (w.onActivity b f) :=
  .of_view a rfl rfl (List.prefix_refl _)
    (congrArg View.core (view_onActivity_of_unseen w b hf))

theorem call (c : Call) : Frame a w (w.call c) :=
  .of_view a rfl rfl (List.prefix_append _ _) rfl

theorem wake (b : ActivityId) : Frame a w (w.wake b) :=
  (tell a w (by exact fun _ => rfl)).trans (call a _ _)

theorem wakeAny (someone : Option ActivityId) : Frame a w (w.wakeAny someone) := by
  cases someone with
  | none => exact .refl a w
  | some b => exact wake a w b

theorem onRound (r : RoundId) (f : Round → Round) : Frame a w (w.onRound r f) :=
  .of_view a rfl rfl (List.prefix_refl _) rfl

theorem queue (q : RecordQueue) : Frame a w { w with queue := q } :=
  .of_view a rfl rfl (List.prefix_refl _) rfl

theorem withQueue (q : RecordQueue × Option ActivityId) : Frame a w (w.withQueue q) :=
  (queue a w q.1).trans (wakeAny a _ q.2)

theorem withPermits (r : RoundId) (p : Permits × Option ActivityId) :
    Frame a w (w.withPermits r p) := (onRound a w r _).trans (wakeAny a _ p.2)

theorem suspend (stage : Stage) : Frame a w (w.suspend a stage) := onActivity a w fun _ => rfl

theorem close (outcome : RunOutcome) : Frame a w (w.close a outcome) := by
  have hentered : Frame a w (w.enter a (.finished outcome)) := onActivity a w fun _ => rfl
  unfold Intake.close
  dsimp only
  split
  · exact hentered.trans (call a _ _)
  · exact hentered

theorem callOff (b : ActivityId) : Frame a w (w.callOff b).1 := by
  obtain ⟨hsuppliers, hjobs, hready⟩ : (w.leaveLines b).suppliers = w.suppliers ∧
      (w.leaveLines b).jobSpecs = w.jobSpecs ∧ (w.leaveLines b).ready = w.ready := by
    unfold leaveLines
    dsimp only
    split <;> exact ⟨rfl, rfl, rfl⟩
  have hleft : Frame a w (w.leaveLines b) :=
    .of_view a hsuppliers hjobs (hready ▸ List.prefix_refl _)
      (congrArg View.core (view_leaveLines w b))
  rcases callOff_cases w b with ⟨heq, -⟩ | ⟨p, -, -, ⟨-, heq⟩ | ⟨-, heq⟩⟩ <;> rw [heq]
  · exact .refl a w
  · exact (hleft.trans (tell a _ (by exact fun _ => rfl))).trans (call a _ _)
  · exact tell a w fun _ => rfl

end

end Frame

end Intake

/-! ## Moves of runs -/

theorem Motion.frame {a : ActivityId} {w w' : Intake} (motion : Motion a w w') :
    Frame a w w' := by
  cases motion with
  | aside h =>
      have hsuppliers : w'.suppliers = w.suppliers := congrArg Scene.suppliers h
      have hjobs : w'.jobSpecs = w.jobSpecs := congrArg Scene.jobs h
      refine .of_places hsuppliers hjobs (fun _ hmem => by rwa [ready_of_scene h])
        (fun b _ => by rw [place?, place?, post?_of_scene h]) ?_
      rw [role?_eq, role?_eq, post?_of_scene h]
  | push record room => exact .withQueue a w _
  | passOn => exact .withQueue a w _
  | take hr free => exact .onRound a w _ _
  | moveOn hr | giveUp hr | release hr => exact .withPermits a w _ _

theorem Motions.frame {a : ActivityId} {w w' : Intake} (motions : Motions a w w') :
    Frame a w w' := by
  induction motions with
  | refl => exact .refl a w
  | tail _ motion ih => exact ih.trans motion.frame

theorem Halt.frame {a : ActivityId} {w w' : Intake} (halt : Halt a w w') : Frame a w w' := by
  cases halt with
  | rest => exact .refl a w
  | finish outcome => exact .close a w outcome
  | gate source answer promise =>
      refine Frame.trans ?_ (.suspend a _ _)
      exact .of_view a rfl rfl (List.prefix_refl _) rfl
  | network spec url response hs promise =>
      exact Frame.trans (.onActivity a w (by exact fun _ => rfl)) (.call a _ _)
  | room record rest full => exact (Frame.queue a w _).trans (.suspend a _ _)
  | line role hr taken => exact (Frame.onRound a w _ _).trans (.suspend a _ _)

theorem Pursuit.frame {a : ActivityId} {w w' : Intake} (pursuit : Pursuit a w w') :
    Frame a w w' := by
  obtain ⟨u, motions, halt⟩ := pursuit
  exact motions.frame.trans halt.frame

namespace Intake

namespace Frame

/-! ## Moves of others -/

section

variable (a : ActivityId) (w : Intake)

theorem endOwner (outcome : RunOutcome) : Frame a w (w.endOwner a outcome) := by
  unfold Intake.endOwner
  split
  · rename_i r taker _
    exact (callOff a w taker).trans (close a _ outcome)
  · exact close a w outcome

theorem endRound (r : RoundId) (results : List RunResult) :
    Frame a w (w.endRound a r results) := by
  unfold Intake.endRound
  dsimp only
  refine (onRound a w r fun x => { x with results }).trans ?_
  split
  · split
    · exact endOwner a _ _
    · exact suspend a _ _
  · exact endOwner a _ _

theorem log (entries : List LogEntry) : Frame a w (w.log entries) :=
  .of_view a rfl rfl (List.prefix_refl _) rfl

theorem gather (r : RoundId) : Frame a w (w.gather a r) := by
  unfold Intake.gather
  split
  · exact .refl a w
  · dsimp only
    split
    · exact (log a w _).trans (endOwner a _ _)
    · exact ((log a w _).trans (log a _ _)).trans (endRound a _ r _)

theorem addJob (spec : JobSpec) (supplier : SupplierId) :
    Frame a w (w.addJob spec supplier).1 where
  fetchers := List.prefix_refl _
  jobs := by
    unfold Intake.addJob jobSpecs
    rw [List.map_append]
    exact List.prefix_append _ _
  role := id
  due := fun _ => id
  stays := fun _ => id

theorem add (role : Role) : Frame a w (w.add role).1 := by
  have hnobody : w.place? w.activities.length = none := by
    rw [place?_eq_core, view_core, activity?, List.getElem?_eq_none (Nat.le_refl _)]
    rfl
  have hstays {b : ActivityId} {place : Role × Stage} (hsome : w.place? b = some place) :
      (w.add role).1.place? b = some place := by
    have hb : b ≠ w.activities.length := by
      rintro rfl
      rw [hnobody] at hsome
      cases hsome
    rw [place?, post?_add_of_ne w hb]
    exact hsome
  exact {
    fetchers := List.prefix_refl _
    jobs := List.prefix_refl _
    role := fun {b known} hknown => by
      rw [role?_eq_place] at hknown ⊢
      obtain ⟨place, hsome, heq⟩ := Option.map_eq_some_iff.mp hknown
      rw [hstays hsome, Option.map_some, heq]
    due := fun _ hmem => List.mem_append_left _ hmem
    stays := fun _ => hstays }

theorem addMember (r : RoundId) (spec : JobSpec) (supplier : SupplierId) :
    Frame a w (w.addMember r spec supplier) :=
  ((addJob a w spec supplier).trans (add a _ _)).trans (onRound a _ r _)

theorem beginRound (r : RoundId) : Frame a w (w.beginRound a r) :=
  beginRound_induction (P := Frame a w) (Q := Frame a w) (.refl a w) (endRound a w r [])
    (fun _ outcome => (log a w _).trans (endOwner a _ outcome))
    (fun _ _ => (log a w _).trans (onRound a _ r _))
    (fun v spec supplier hv => hv.trans (addMember a v r spec supplier))
    fun v hv => hv.trans (suspend a v .gathering)

theorem takeRecord : Frame a w w.takeRecord := by
  refine takeRecord_induction (P := Frame a w) (.refl a w) (fun {record _ _} hpop => ?_)
    fun v b _ hv => hv.trans (wake a v b)
  have htold : Frame a w (({ w with taken := w.taken ++ [record] } : Intake).tell
      (.taken record)) := .of_view a rfl rfl (List.prefix_refl _) rfl
  exact htold.trans (withQueue a _ _)

theorem takeRecords : Frame a w (w.takeRecords a) := by
  have hall : Frame a w (Nat.repeat Intake.takeRecord w.queue.records.length w) :=
    repeat_takeRecord_induction (P := Frame a w) _ (.refl a w) fun v hv => hv.trans (takeRecord a v)
  unfold Intake.takeRecords
  exact (hall.trans (queue a _ _)).trans (suspend a _ _)

theorem stopTaking (woken : Bool) : Frame a w (w.stopTaking a woken) := by
  unfold Intake.stopTaking
  dsimp only
  split
  · exact (withQueue a w _).trans (close a _ _)
  · exact close a w _

theorem note (r : RoundId) : Frame a w (w.note r) := by
  unfold Intake.note
  dsimp only
  refine (onRound a w r fun x => { x with ended := x.ended + 1 }).trans ?_
  split
  · exact .refl a _
  · split
    · exact (tell a _ (by exact fun _ => rfl)).trans (call a _ _)
    · exact .refl a _

theorem openGate (source : String) : Frame a w (w.openGate source) :=
  openGate_induction (P := Frame a w) source
    (fun _ _ => .of_view a rfl rfl (List.prefix_refl _) rfl) fun v b hv => hv.trans (wake a v b)

theorem cancel (b : ActivityId) : Frame a w (w.cancel b).1 :=
  cancel_induction (P := Frame a w) (.refl a w) (fun v m hv => hv.trans (callOff a v m))
    (fun v r hv => hv.trans (onRound a v r _)) fun v hv => hv.trans (tell a v fun _ => rfl)

end

/-! ## Whatever happens -/

variable {w w' : Intake} {a : ActivityId}

theorem act {role : Role} (hrole : w.role? a = some role) (calledOff stop : Bool) (stage : Stage) :
    Frame a w (w.act a role calledOff stop stage) := by
  by_cases h : role.job? = none ∨ stage = .awaitingRecord
  · have move := act_idleMove hrole h calledOff stop
    generalize w.act a role calledOff stop stage = v at move ⊢
    cases move with
    | rest => exact .refl a w
    | ends outcome => exact endOwner a w outcome
    | begins r => exact beginRound a w r
    | gathers r => exact gather a w r
    | takes => exact takeRecords a w
    | stops woken => exact stopTaking a w woken
  · obtain ⟨hrun, hstage⟩ := not_or.mp h
    obtain ⟨j, hj⟩ := Option.ne_none_iff_exists'.mp hrun
    exact (act_pursuit hrole hj calledOff stop hstage).frame

theorem move (w : Intake) (a : ActivityId) (calledOff : Bool) :
    Frame a w (w.move a calledOff) := by
  unfold Intake.move
  split
  · exact .refl a w
  · rename_i x hx
    refine Frame.trans (tell a w (by exact fun _ => rfl)) (act ?_ _ _ _)
    rw [role?_onActivity _ _ _ (by exact fun _ => rfl), role?, hx, Option.map_some]

theorem attend {before after : List Call} {c : Call} (hready : w.ready = before ++ c :: after)
    (hc : ∀ b calledOff, b ≠ a → c ≠ .move b calledOff) :
    Frame a w { w with ready := before ++ after } := by
  refine .of_places rfl rfl (fun {b calledOff} hb hmem => ?_) (fun _ _ => rfl) rfl
  rw [hready, List.mem_append, List.mem_cons] at hmem
  rcases hmem with hbefore | heq | hafter
  · exact List.mem_append_left _ hbefore
  · exact absurd heq.symm (hc b calledOff hb)
  · exact List.mem_append_right _ hafter

end Frame

def Moves (a : ActivityId) (w w' : Intake) : Prop :=
  ∃ before calledOff after, w.ready = before ++ .move a calledOff :: after ∧
    w' = ({ w with ready := before ++ after } : Intake).move a calledOff

theorem Step.moves_or_frame {w w' : Intake} (step : Step w w') :
    (∃ a, Moves a w w' ∧ Frame a w w') ∨ ∀ a, Frame a w w' := by
  have hplain {v : Intake} (hsuppliers : v.suppliers = w.suppliers)
      (hjobs : v.jobSpecs = w.jobSpecs) (hready : v.ready = w.ready)
      (hview : v.view.core = w.view.core) (a : ActivityId) : Frame a w v :=
    .of_view a hsuppliers hjobs (hready ▸ List.prefix_refl _) hview
  cases step with
  | happen before c after hready =>
      cases c with
      | move a calledOff =>
          refine .inl ⟨a, ⟨before, calledOff, after, hready, rfl⟩, ?_⟩
          refine (Frame.attend hready fun b _ hb heq => ?_).trans (.move _ a calledOff)
          cases heq
          exact hb rfl
      | note r =>
          exact .inr fun a => (Frame.attend hready fun _ _ _ heq => by cases heq).trans
            (.note a _ r)
  | addSupplier s =>
      refine .inr fun a => { Frame.refl a w with fetchers := ?_ }
      unfold Intake.addSupplier Intake.fetchers
      rw [List.map_append]
      exact List.prefix_append _ _
  | prepare s answers =>
      have hsame : (w.prepare s answers).fetchers = w.fetchers := by
        unfold Intake.prepare Intake.fetchers
        exact List.map_modify_of_unseen (by rintro (_ | _) <;> rfl) _ _
      exact .inr fun a => { Frame.refl a w with fetchers := hsame ▸ List.prefix_refl _ }
  | addJob spec supplier => exact .inr fun a => .addJob a w spec supplier
  | startRun j => exact .inr fun a => .add a w _
  | startRound spec =>
      exact .inr fun a => (Frame.add a w _).trans (.of_view a rfl rfl (List.prefix_refl _) rfl)
  | startCollecting spec =>
      have hadded (a : ActivityId) := (Frame.add a w
        (.collector w.rounds.length (w.activities.length + 1))).trans (.add a _ .taker)
      exact .inr fun a => (hadded a).trans (.of_view a rfl rfl (List.prefix_refl _) rfl)
  | openGate source => exact .inr fun a => .openGate a w source
  | cancel b => exact .inr fun a => .cancel a w b
  | takeOne htake =>
      obtain ⟨⟨first, queue, putter⟩, hpop, heq⟩ := Option.map_eq_some_iff.mp htake
      cases heq
      refine .inr fun a => Frame.trans ?_ (.withQueue a (w.tell _) _)
      exact .of_view a rfl rfl (List.prefix_refl _) rfl
  | _ => exact .inr (hplain rfl rfl rfl rfl)

/-! ## What there is -/

section

variable {w w' : Intake}

theorem Step.grows (step : Step w w') : Grows w w' := by
  rcases step.moves_or_frame with ⟨a, -, frame⟩ | hframe
  · exact frame.toGrows
  · exact (hframe 0).toGrows

theorem Reaches.grows (reach : Reaches w w') : Grows w w' := by
  induction reach with
  | refl => exact (Frame.refl 0 w).toGrows
  | tail _ step ih =>
      exact ⟨ih.fetchers.trans step.grows.fetchers, ih.jobs.trans step.grows.jobs,
        fun hrole => step.grows.role (ih.role hrole)⟩

theorem getElem?_of_prefix {α : Type} {l l' : List α} (h : l <+: l') {i : Nat} {x : α}
    (hx : l[i]? = some x) : l'[i]? = some x := by
  obtain ⟨hi, rfl⟩ := List.getElem?_eq_some_iff.mp hx
  exact List.prefix_iff_getElem?.mp h i hi

theorem Grows.network (grows : Grows w w') {s : SupplierId} {supplier : Supplier}
    {fetcher : Fetcher} (h : w.suppliers[s]? = some supplier)
    (h' : w'.suppliers[s]? = some (.network fetcher)) : supplier = .network fetcher := by
  have hsome : w.fetchers[s]? = some supplier.fetcher? := by
    rw [Intake.fetchers, List.getElem?_map, h, Option.map_some]
  have hsame := getElem?_of_prefix grows.fetchers hsome
  rw [Intake.fetchers, List.getElem?_map, h', Option.map_some, Option.some.injEq] at hsame
  cases supplier with
  | prepared answers => cases hsame
  | network known =>
      cases hsame
      rfl

end

/-! ## Those who wait -/

structure Rests (b : ActivityId) (w w' : Intake) : Prop where
  phase : w'.affairs.phase b = w.affairs.phase b
  deeds : w'.history.deedsOf b = w.history.deedsOf b
  due : ∀ {calledOff}, .move b calledOff ∈ w.ready → .move b calledOff ∈ w'.ready
  stays : ∀ {place}, w.place? b = some place → w'.place? b = some place

section

variable {w w' : Intake} {a b : ActivityId}

theorem Frame.rests (frame : Frame a w w') (hb : b ≠ a)
    (hphase : w'.affairs.phase b = w.affairs.phase b)
    (hdeeds : w'.history.deedsOf b = w.history.deedsOf b) : Rests b w w' where
  phase := hphase
  deeds := hdeeds
  due := frame.due hb
  stays := frame.stays hb

theorem Turns.phase_of_ne {spec : JobSpec} {s t : Affairs} (turns : Affairs.Turns a spec s t)
    (hb : b ≠ a) : t.phase b = s.phase b := by
  induction turns with
  | refl => rfl
  | tail _ turn ih => rw [turn.phase_of_ne hb, ih]

theorem Step.moves_or_rests (step : Step w w') (htidy : w.affairs.Tidy) (b : ActivityId) :
    Moves b w w' ∨ Rests b w w' := by
  have hframe : Moves b w w' ∨ ∃ a, b ≠ a ∧ Frame a w w' := by
    rcases step.moves_or_frame with ⟨a, moves, frame⟩ | hall
    · by_cases hb : b = a
      · exact .inl (hb ▸ moves)
      · exact .inr ⟨a, hb, frame⟩
    · exact .inr ⟨b + 1, (Nat.succ_ne_self b).symm, hall _⟩
  rcases hframe with moves | ⟨a, hb, frame⟩
  · exact .inl moves
  · rcases step.takes_or_moves htidy with takes |
      ⟨before, mover, calledOff, after, spec, hready, hmove, -, turns⟩
    · exact .inr (frame.rests hb (takes.phase b) (takes.deedsOf b))
    · by_cases hmover : b = mover
      · exact .inl ⟨before, calledOff, after, hmover ▸ hready, hmover ▸ hmove⟩
      · exact .inr (frame.rests hb (Turns.phase_of_ne turns hmover)
          (turns.deedsOf_of_ne hmover))

end

end Intake

end FeedIntake
