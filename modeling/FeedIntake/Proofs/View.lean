import FeedIntake.Intake.Control
import FeedIntake.Proofs.Affairs

/-! # An intake seen as the affairs of its runs

The view of an intake keeps what the standing of its runs depends on. Most of what moves an intake
about, such as waking, waiting in lines, permits and logs, changes nothing in the view. What does
change it changes the stage or the result of one activity, and that shows in the standing of this
activity alone.
-/

namespace FeedIntake

structure Core where
  role : Role
  stage : Stage
  result : Option RunResult

def Activity.core (x : Activity) : Core := ⟨x.role, x.stage, x.result⟩

structure View where
  store : Snapshots
  records : List Record
  history : History
  spec : JobId → Option JobSpec
  core : ActivityId → Option Core

namespace View

def spec? (v : View) (a : ActivityId) : Option JobSpec :=
  (v.core a).bind fun c => c.role.job?.bind v.spec

def result? (v : View) (a : ActivityId) : Option RunResult := (v.core a).bind (·.result)

/-- Where a run with a result stands. -/
def standing (spec : JobSpec) (r : RunResult) : Stage → Phase
  | .atGate _ | .onNetwork _ _ => .asking spec r
  | .atQueue record rest => .offering spec r record rest
  | .finished outcome => .ended spec r outcome
  | _ => .astray

def phase (v : View) (a : ActivityId) : Phase :=
  match v.core a with
  | some ⟨_, stage, some r⟩ =>
      match v.spec? a with
      | some spec => standing spec r stage
      | none => .astray
  | _ => .idle

def affairs (v : View) : Affairs := ⟨v.store, v.records, v.history, v.phase⟩

def onCore (v : View) (a : ActivityId) (f : Core → Core) : View :=
  { v with core := Function.update v.core a ((v.core a).map f) }

def setStage (v : View) (a : ActivityId) (stage : Stage) : View :=
  v.onCore a fun c => { c with stage }

def setResult (v : View) (a : ActivityId) (r : RunResult) : View :=
  v.onCore a fun c => { c with result := some r }

def tell (v : View) (e : Event) : View := { v with history := e :: v.history }

theorem onCore_id (v : View) (a : ActivityId) : v.onCore a id = v := by
  simp [onCore]

@[simp] theorem onCore_core_self (v : View) (a : ActivityId) (f : Core → Core) :
    (v.onCore a f).core a = (v.core a).map f := by
  simp [onCore]

theorem onCore_core_of_ne (v : View) {a b : ActivityId} (h : b ≠ a) (f : Core → Core) :
    (v.onCore a f).core b = v.core b := by
  simp [onCore, h]

theorem spec?_onCore {f : Core → Core} (hf : ∀ c, (f c).role = c.role) (v : View)
    (a b : ActivityId) : (v.onCore a f).spec? b = v.spec? b := by
  by_cases hb : b = a
  · subst hb
    simp only [spec?, onCore_core_self]
    cases v.core b <;> simp [hf, onCore]
  · simp only [spec?, onCore_core_of_ne v hb]
    rfl

@[simp] theorem spec?_setStage (v : View) (a b : ActivityId) (stage : Stage) :
    (v.setStage a stage).spec? b = v.spec? b := by
  unfold setStage
  refine spec?_onCore ?_ v a b
  exact fun _ => rfl

@[simp] theorem spec?_setResult (v : View) (a b : ActivityId) (r : RunResult) :
    (v.setResult a r).spec? b = v.spec? b := by
  unfold setResult
  refine spec?_onCore ?_ v a b
  exact fun _ => rfl

@[simp] theorem spec?_tell (v : View) (e : Event) (b : ActivityId) :
    (v.tell e).spec? b = v.spec? b := rfl

@[simp] theorem affairs_tell (v : View) (e : Event) : (v.tell e).affairs = v.affairs.tell e := rfl

theorem exists_core_of_spec? {v : View} {a : ActivityId} {spec : JobSpec}
    (h : v.spec? a = some spec) : ∃ c, v.core a = some c := by
  obtain ⟨c, hc, -⟩ := Option.bind_eq_some_iff.mp h
  exact ⟨c, hc⟩

@[simp] theorem result?_setResult_of_spec? {v : View} {a : ActivityId} {spec : JobSpec}
    (h : v.spec? a = some spec) (r : RunResult) : (v.setResult a r).result? a = some r := by
  obtain ⟨c, hc⟩ := exists_core_of_spec? h
  simp [result?, setResult, hc]

@[simp] theorem result?_setStage (v : View) (a : ActivityId) (stage : Stage) :
    (v.setStage a stage).result? a = v.result? a := by
  simp only [result?, setStage, onCore_core_self]
  cases v.core a <;> rfl

theorem phase_eq_standing {v : View} {a : ActivityId} {c : Core} {spec : JobSpec} {r : RunResult}
    (hc : v.core a = some c) (hs : v.spec? a = some spec) (hr : v.result? a = some r) :
    v.phase a = standing spec r c.stage := by
  obtain ⟨role, stage, result⟩ := c
  simp only [result?, hc, Option.bind_some] at hr
  subst hr
  simp [phase, hc, hs]

/-- Whoever has begun to run and is at a place where a run can be stands there with its result. -/
theorem phase_spec?_result? {v : View} {a : ActivityId} {spec : JobSpec} {r : RunResult}
    (hs : v.spec? a = some spec) (hr : v.result? a = some r) (h : v.phase a ≠ .astray) :
    (v.phase a).spec? = some spec ∧ (v.phase a).result? = some r := by
  obtain ⟨⟨role, stage, result⟩, hc⟩ := exists_core_of_spec? hs
  rw [phase_eq_standing hc hs hr] at h ⊢
  cases stage <;> first | exact ⟨rfl, rfl⟩ | exact absurd rfl h

theorem phase_congr {v v' : View} {a : ActivityId} (hcore : v'.core a = v.core a)
    (hspec : v'.spec? a = v.spec? a) : v'.phase a = v.phase a := by
  unfold phase
  rw [hcore, hspec]

theorem phase_eq_idle_iff {v : View} {a : ActivityId} :
    v.phase a = .idle ↔ ∀ c, v.core a = some c → c.result = none := by
  constructor
  · intro h c hc
    obtain ⟨role, stage, result⟩ := c
    cases result with
    | none => rfl
    | some r =>
        unfold phase at h
        rw [hc] at h
        dsimp only at h
        split at h
        · unfold standing at h
          split at h <;> cases h
        · cases h
  · intro h
    unfold phase
    split
    · rename_i hc
      cases h _ hc
    · rfl

/-- What is done to one activity shows in its own standing alone. -/
theorem affairs_onCore_set {f : Core → Core} (hf : ∀ c, (f c).role = c.role) (v : View)
    (a : ActivityId) (p : Phase) : (v.onCore a f).affairs.set a p = v.affairs.set a p := by
  have hphase : Function.update (v.onCore a f).phase a p = Function.update v.phase a p := by
    funext b
    by_cases hb : b = a
    · simp [hb]
    · simp only [Function.update_of_ne hb]
      unfold phase
      rw [onCore_core_of_ne v hb, spec?_onCore hf]
  simp only [affairs, Affairs.set, hphase]
  rfl

@[simp] theorem affairs_setStage_set (v : View) (a : ActivityId) (stage : Stage) (p : Phase) :
    (v.setStage a stage).affairs.set a p = v.affairs.set a p := by
  unfold setStage
  refine affairs_onCore_set ?_ v a p
  exact fun _ => rfl

@[simp] theorem affairs_setResult_set (v : View) (a : ActivityId) (r : RunResult) (p : Phase) :
    (v.setResult a r).affairs.set a p = v.affairs.set a p := by
  unfold setResult
  refine affairs_onCore_set ?_ v a p
  exact fun _ => rfl

/-- A run that has a result and comes to a stage stands where these two say. -/
theorem affairs_setStage {v : View} {a : ActivityId} {spec : JobSpec} {r : RunResult}
    (hs : v.spec? a = some spec) (hr : v.result? a = some r) (stage : Stage) :
    (v.setStage a stage).affairs = v.affairs.set a (standing spec r stage) := by
  obtain ⟨c, hc⟩ := exists_core_of_spec? hs
  have hcore : (v.setStage a stage).core a = some { c with stage } := by
    simp [setStage, hc]
  have hphase := phase_eq_standing hcore (by simpa using hs) (by simpa using hr)
  rw [← Affairs.set_eq_self (s := (v.setStage a stage).affairs) hphase, affairs_setStage_set]

theorem affairs_setResult_setStage {v : View} {a : ActivityId} {spec : JobSpec}
    (h : v.spec? a = some spec) (r : RunResult) (stage : Stage) :
    ((v.setResult a r).setStage a stage).affairs = v.affairs.set a (standing spec r stage) := by
  rw [affairs_setStage (by simpa using h) (result?_setResult_of_spec? h r), affairs_setResult_set]

theorem of_phase {v : View} {a : ActivityId} {spec : JobSpec} {r : RunResult}
    (hs : (v.phase a).spec? = some spec) (hr : (v.phase a).result? = some r) :
    v.spec? a = some spec ∧ v.result? a = some r ∧
      ∃ c, v.core a = some c ∧ v.phase a = standing spec r c.stage := by
  obtain ⟨c, hc, r', hres⟩ : ∃ c, v.core a = some c ∧ ∃ r', c.result = some r' := by
    by_contra hnone
    have hidle : v.phase a = .idle := phase_eq_idle_iff.mpr fun c hc => by
      cases hres : c.result with
      | none => rfl
      | some r' => exact absurd ⟨c, hc, r', hres⟩ hnone
    rw [hidle] at hs
    cases hs
  have hr' : v.result? a = some r' := by simp [result?, hc, hres]
  cases hspec : v.spec? a with
  | none =>
      have hastray : v.phase a = .astray := by
        obtain ⟨role, stage, result⟩ := c
        subst hres
        simp [phase, hc, hspec]
      rw [hastray] at hs
      cases hs
  | some spec' =>
      have hphase := phase_eq_standing hc hspec hr'
      obtain ⟨hs', hres'⟩ := phase_spec?_result? hspec hr' fun hastray => by
        rw [hastray] at hs
        cases hs
      rw [hs] at hs'
      rw [hr] at hres'
      cases hs'
      cases hres'
      exact ⟨rfl, hr', c, hc, hphase⟩

theorem of_phase_ended {v : View} {a : ActivityId} {spec : JobSpec} {r : RunResult}
    {outcome : RunOutcome} (h : v.phase a = .ended spec r outcome) :
    v.spec? a = some spec ∧ v.result? a = some r ∧
      ∃ c, v.core a = some c ∧ c.stage = .finished outcome := by
  obtain ⟨hs, hr, ⟨role, stage, result⟩, hc, hstanding⟩ :=
    of_phase (v := v) (a := a) (by rw [h]; rfl) (by rw [h]; rfl)
  rw [h] at hstanding
  refine ⟨hs, hr, _, hc, ?_⟩
  cases stage <;> cases hstanding
  rfl

theorem of_phase_offering {v : View} {a : ActivityId} {spec : JobSpec} {r : RunResult}
    {record : Record} {rest : List Entry} (h : v.phase a = .offering spec r record rest) :
    v.spec? a = some spec ∧ v.result? a = some r ∧
      ∃ c, v.core a = some c ∧ c.stage = .atQueue record rest := by
  obtain ⟨hs, hr, ⟨role, stage, result⟩, hc, hstanding⟩ :=
    of_phase (v := v) (a := a) (by rw [h]; rfl) (by rw [h]; rfl)
  rw [h] at hstanding
  refine ⟨hs, hr, _, hc, ?_⟩
  cases stage <;> cases hstanding
  rfl

theorem spec?_isSome_of_phase {v : View} {a : ActivityId} (hidle : v.phase a ≠ .idle)
    (h : v.phase a ≠ .astray) : (v.spec? a).isSome = true := by
  unfold phase at hidle h
  split at h
  · split at h
    · rename_i hs
      simp [hs]
    · exact absurd rfl h
  · rename_i hnone
    split at hidle
    · rename_i hsome
      exact absurd hsome (hnone _ _ _)
    · exact absurd rfl hidle

/-- Who is at a stage at which no run can be has not begun to run. -/
theorem phase_eq_idle_of_standing {v : View} {a : ActivityId} {c : Core} (hc : v.core a = some c)
    (hstage : ∀ spec r, standing spec r c.stage = .astray) (h : v.phase a ≠ .astray) :
    v.phase a = .idle := by
  obtain ⟨role, stage, result⟩ := c
  cases result with
  | none => simp [phase, hc]
  | some r =>
      have hr : v.result? a = some r := by simp [result?, hc]
      cases hs : v.spec? a with
      | none => exact absurd (by simp [phase, hc, hs]) h
      | some spec => exact absurd ((phase_eq_standing hc hs hr).trans (hstage spec r)) h

/-- Who has not begun to run may change its stage unnoticed. -/
theorem affairs_setStage_of_idle {v : View} {a : ActivityId} (h : v.phase a = .idle)
    (stage : Stage) : (v.setStage a stage).affairs = v.affairs := by
  have hidle : (v.setStage a stage).phase a = .idle := by
    rw [phase_eq_idle_iff] at h ⊢
    intro c hc
    simp only [setStage, onCore_core_self, Option.map_eq_some_iff] at hc
    obtain ⟨c', hc', rfl⟩ := hc
    exact h c' hc'
  rw [← Affairs.set_eq_self (s := (v.setStage a stage).affairs) hidle, affairs_setStage_set]
  exact Affairs.set_eq_self h

end View

namespace Intake

def view (w : Intake) : View where
  store := w.store
  records := w.queue.records
  history := w.history
  spec j := (w.jobs[j]?).map (·.spec)
  core a := (w.activities[a]?).map Activity.core

def affairs (w : Intake) : Affairs := w.view.affairs

def specOf? (w : Intake) (a : ActivityId) : Option JobSpec :=
  ((w.jobOf? a).bind fun j => w.jobs[j]?).map (·.spec)

/-! ## One after the other -/

/-- Members are called off one after the other, whoever of them was hit. -/
theorem callOffAll_eq (w : Intake) (members : List ActivityId) :
    (w.callOffAll members).1 = members.foldl (fun v m => (v.callOff m).1) w :=
  (List.foldl_hom Prod.fst fun _ _ => rfl).symm

theorem callOffAll_cons (w : Intake) (m : ActivityId) (rest : List ActivityId) :
    (w.callOffAll (m :: rest)).1 = ((w.callOff m).1.callOffAll rest).1 := by
  rw [callOffAll_eq, callOffAll_eq, List.foldl_cons]

section

variable {P Q : Intake → Prop} {w : Intake} {a : ActivityId} {r : RoundId}

/-- The owner of a round that begins ends it at once, or adds its members and waits for them. -/
theorem beginRound_induction (hrest : P w) (hends : P (w.endRound a r []))
    (hbreaks : ∀ entries outcome, P ((w.log entries).endOwner a outcome))
    (hopens : ∀ entries count, Q ((w.log entries).onRound r fun x =>
      { x with permits := .ofCount count }))
    (hadds : ∀ v spec supplier, Q v → Q (v.addMember r spec supplier))
    (hwaits : ∀ v, Q v → P (v.suspend a .gathering)) : P (w.beginRound a r) := by
  unfold beginRound
  split
  · exact hrest
  · dsimp only
    split
    · exact hends
    · split
      · exact hbreaks _ _
      · split
        · exact hbreaks _ _
        · exact hwaits _ (List.foldlRecOn _ _ (hopens _ _) fun v hv source _ => hadds v _ _ hv)

/-- What is kept as one is called off is kept as many are. -/
theorem callOffAll_induction (members : List ActivityId) (h : P w)
    (hone : ∀ v m, P v → P (v.callOff m).1) : P (w.callOffAll members).1 := by
  rw [callOffAll_eq]
  exact List.foldlRecOn members _ h fun v hv m _ => hone v m hv

theorem cancel_induction (h : P w) (hone : ∀ v m, P v → P (v.callOff m).1)
    (hround : ∀ v r, P v → P (v.onRound r fun x => { x with stopping := true }))
    (hself : ∀ v, P v → P (v.onActivity a fun x => { x with stopping := true })) :
    P (w.cancel a).1 := by
  unfold cancel
  split
  · exact hone w a h
  · dsimp only
    split
    · exact hround _ _ (callOffAll_induction _ h hone)
    · exact hself _ (callOffAll_induction _ h hone)

/-- What is kept as one is woken holds of an open gate, if it holds when its line has gone. -/
theorem openGate_induction (source : String)
    (hopen : ∀ gates line, P { w with openGates := gates, gateLine := line })
    (hwake : ∀ v b, P v → P (v.wake b)) : P (w.openGate source) := by
  unfold openGate
  exact List.foldlRecOn _ _ (hopen _ _) fun v hv e _ => hwake v e.2 hv

/-- When all records are taken nobody is woken but those who wait for that. -/
theorem wakeJoining_induction (h : P w) (hwake : ∀ v b,
      (∃ x, v.activity? b = some x ∧ x.stage = .joining) → P v → P (v.wake b)) :
    P w.wakeJoining := by
  unfold wakeJoining
  refine List.foldlRecOn _ _ h fun v hv b _ => ?_
  split
  · exact hwake v b ⟨_, ‹_›, rfl⟩ hv
  · exact hv

/-- A record is taken out of the queue, and after the last one those are woken who wait for that. -/
theorem takeRecord_induction (h : P w)
    (htake : ∀ {record queue putter}, w.queue.pop = some (record, queue, putter) →
      P ((({ w with taken := w.taken ++ [record] } : Intake).tell (.taken record)).withQueue
        (queue.settleOne, putter)))
    (hwake : ∀ v b, (∃ x, v.activity? b = some x ∧ x.stage = .joining) → P v → P (v.wake b)) :
    P w.takeRecord := by
  unfold takeRecord
  split
  · exact h
  · rename_i hpop
    dsimp only
    split
    · exact wakeJoining_induction (htake hpop) hwake
    · exact htake hpop

theorem repeat_takeRecord_induction (n : Nat) (h : P w) (hone : ∀ v, P v → P v.takeRecord) :
    P (Nat.repeat takeRecord n w) := by
  induction n with
  | zero => exact h
  | succ n ih => exact hone _ ih

end

/-! ## What shows in the view -/

section

variable (w : Intake) (a : ActivityId)

theorem view_core : w.view.core a = (w.activity? a).map Activity.core := rfl

theorem view_jobOf? : ((w.view.core a).bind fun c => c.role.job?) = w.jobOf? a := by
  unfold jobOf? role?
  rw [view_core]
  cases w.activity? a <;> rfl

theorem view_spec? : w.view.spec? a = w.specOf? a := by
  unfold View.spec? specOf? jobOf? role?
  rw [view_core]
  cases w.activity? a with
  | none => rfl
  | some x =>
      show x.role.job?.bind _ = (x.role.job?.bind _).map _
      cases x.role.job? <;> rfl

theorem view_result? : w.view.result? a = w.result? a := by
  unfold View.result? result?
  rw [view_core]
  cases w.activity? a <;> rfl

theorem phase_idle_iff : w.affairs.phase a = .idle ↔ w.result? a = none := by
  show w.view.phase a = .idle ↔ _
  rw [View.phase_eq_idle_iff, ← view_result?, View.result?]
  cases w.view.core a <;> simp

theorem phase_of_outcome? {spec : JobSpec} {r : RunResult} {outcome : RunOutcome}
    (hs : w.specOf? a = some spec) (hr : w.result? a = some r)
    (ho : w.outcome? a = some outcome) : w.view.phase a = .ended spec r outcome := by
  obtain ⟨x, hx, hstage⟩ := Option.bind_eq_some_iff.mp ho
  have hc : w.view.core a = some x.core := by rw [view_core, hx, Option.map_some]
  have hfinished : x.stage = .finished outcome := by
    split at hstage
    · rename_i heq
      rw [heq, Option.some.inj hstage]
    · cases hstage
  rw [View.phase_eq_standing hc (by rw [view_spec?, hs]) (by rw [view_result?, hr])]
  show View.standing spec r x.stage = _
  rw [hfinished]
  rfl

theorem of_phase_ended {spec : JobSpec} {r : RunResult} {outcome : RunOutcome}
    (h : w.affairs.phase a = .ended spec r outcome) :
    w.specOf? a = some spec ∧ w.result? a = some r ∧ w.outcome? a = some outcome := by
  obtain ⟨hs, hr, c, hc, hstage⟩ := View.of_phase_ended h
  refine ⟨(view_spec? w a).symm.trans hs, (view_result? w a).symm.trans hr, ?_⟩
  rw [view_core, Option.map_eq_some_iff] at hc
  obtain ⟨x, hx, rfl⟩ := hc
  have hfinished : x.stage = .finished outcome := hstage
  rw [outcome?, hx, Option.bind_some, hfinished]

theorem view_onActivity {f : Activity → Activity} {g : Core → Core}
    (h : ∀ x, (f x).core = g x.core) : (w.onActivity a f).view = w.view.onCore a g := by
  unfold view View.onCore
  congr 1
  funext b
  simp only [onActivity, List.getElem?_modify]
  by_cases hb : b = a
  · subst hb
    cases w.activities[b]? <;> simp [h]
  · simp [hb, Ne.symm hb]

theorem view_onActivity_of_unseen {f : Activity → Activity} (h : ∀ x, (f x).core = x.core) :
    (w.onActivity a f).view = w.view := by
  rw [view_onActivity w a (g := id) h, View.onCore_id]

@[simp] theorem view_enter (stage : Stage) : (w.enter a stage).view = w.view.setStage a stage :=
  view_onActivity w a fun _ => rfl

@[simp] theorem view_suspend (stage : Stage) :
    (w.suspend a stage).view = w.view.setStage a stage :=
  view_onActivity w a fun _ => rfl

@[simp] theorem view_keep (r : RunResult) : (w.keep a r).view = w.view.setResult a r :=
  view_onActivity w a fun _ => rfl

theorem view_onJob {f : Job → Job} (h : ∀ job, (f job).spec = job.spec) (j : JobId) :
    (w.onJob j f).view = w.view := by
  unfold view
  congr 1
  funext i
  simp only [onJob, List.getElem?_modify]
  cases w.jobs[i]? with
  | none => simp
  | some job => by_cases hj : j = i <;> simp [hj, h]

@[simp] theorem view_advance (r : RunResult) : (w.advance a r).view = w.view.setResult a r := by
  unfold advance
  dsimp only
  split
  · exact (view_onJob _ (by exact fun _ => rfl) _).trans (view_keep w a r)
  · exact view_keep w a r

@[simp] theorem view_tell (e : Event) : (w.tell e).view = w.view.tell e := rfl

/-! ## What does not -/

@[simp] theorem view_log (entries : List LogEntry) : (w.log entries).view = w.view := rfl

theorem view_queue {q : RecordQueue} (h : q.records = w.queue.records) :
    ({ w with queue := q } : Intake).view = w.view := by
  unfold view
  rw [h]

@[simp] theorem view_call (c : Call) : (w.call c).view = w.view := rfl

@[simp] theorem view_onRound (r : RoundId) (f : Round → Round) :
    (w.onRound r f).view = w.view := rfl

@[simp] theorem view_wake : (w.wake a).view = w.view :=
  view_onActivity_of_unseen w a fun _ => rfl

@[simp] theorem view_wakeAny (someone : Option ActivityId) : (w.wakeAny someone).view = w.view := by
  cases someone with
  | none => rfl
  | some a => exact view_wake w a

theorem queue_wakeAny (someone : Option ActivityId) : (w.wakeAny someone).queue = w.queue := by
  cases someone <;> rfl

theorem queue_advance (r : RunResult) :
    (w.advance a r).queue = w.queue := by
  unfold advance
  dsimp only
  split <;> rfl

@[simp] theorem view_withQueue (q : RecordQueue × Option ActivityId) :
    (w.withQueue q).view = { w.view with records := q.1.records } := by
  rw [withQueue, view_wakeAny]
  rfl

@[simp] theorem view_withPermits (r : RoundId) (p : Permits × Option ActivityId) :
    (w.withPermits r p).view = w.view := by
  rw [withPermits, view_wakeAny, view_onRound]

@[simp] theorem view_release (r : RoundId) : (w.release r).view = w.view := by
  unfold release
  split
  · exact view_withPermits w r _
  · rfl

@[simp] theorem view_close (outcome : RunOutcome) :
    (w.close a outcome).view = w.view.setStage a (.finished outcome) := by
  unfold close
  dsimp only
  split
  · rw [view_call, view_enter]
  · exact view_enter w a _

@[simp] theorem view_endRun (outcome : RunOutcome) :
    (w.endRun a outcome).view = w.view.setStage a (.finished outcome) := by
  unfold endRun
  split
  · rw [view_close, view_release]
  · exact view_close w a outcome

theorem view_leaveLines : (w.leaveLines a).view = w.view := by
  unfold leaveLines
  dsimp only
  split <;> rfl

@[simp] theorem view_callOff : (w.callOff a).1.view = w.view := by
  unfold callOff
  split
  · rfl
  · split
    · rfl
    · split
      · rw [view_call]
        refine (view_onActivity_of_unseen _ a ?_).trans (view_leaveLines w a)
        exact fun _ => rfl
      · exact view_onActivity_of_unseen w a fun _ => rfl

@[simp] theorem view_cancel : (w.cancel a).1.view = w.view :=
  cancel_induction (P := fun v => v.view = w.view) rfl (fun v m hv => (view_callOff v m).trans hv)
    (fun _ _ hv => hv) fun v hv => (view_onActivity_of_unseen v a (by exact fun _ => rfl)).trans hv

end

end Intake

end FeedIntake
