import FeedIntake.Proofs.View

/-! # What a move is made of

A run that moves does many things in one go, but each of them is one of a few. It writes to the
books, which nobody waits for; it puts a record or gives up a place, which may wake someone; it
takes or gives a permit. These are its motions. A move ends in a halt: the run is through, or it
waits for something, or it has been passed on to the network. Whatever is kept by every motion and
every halt is kept by every move.
-/

namespace FeedIntake

theorem List.map_modify {α β : Type} {f : α → α} {g : α → β} {f' : β → β}
    (h : ∀ x, g (f x) = f' (g x)) (l : List α) (i : Nat) :
    (l.modify i f).map g = (l.map g).modify i f' := by
  refine List.ext_getElem? fun j => ?_
  rw [List.getElem?_map, List.getElem?_modify, List.getElem?_modify, List.getElem?_map]
  by_cases hj : i = j <;> cases l[j]? <;> simp [hj, h]

theorem List.map_modify_of_unseen {α β : Type} {f : α → α} {g : α → β} (h : ∀ x, g (f x) = g x)
    (l : List α) (i : Nat) : (l.modify i f).map g = l.map g := by
  rw [List.map_modify (show ∀ x, g (f x) = id (g x) from h), List.modify_id]

structure Post where
  role : Role
  stage : Stage
  waiting : Bool
  stopping : Bool

def Activity.post (x : Activity) : Post := ⟨x.role, x.stage, x.waiting, x.stopping⟩

/-- What is settled about a round when it begins, and what comes of it. Permits are left out, and
how many members have ended. -/
structure Roster where
  spec : RoundSpec
  owner : ActivityId
  members : List ActivityId
  stopping : Bool
  results : List RunResult

def Round.roster (x : Round) : Roster := ⟨x.spec, x.owner, x.members, x.stopping, x.results⟩

def JobSpec.conclusion (spec : JobSpec) (url : String) (response : Response) :
    Except Fault (List Entry) :=
  (Fetcher.conclude (.text spec.source) url spec.timeoutMs 0 response).result.map
    fun entries => entries.map fun v => ⟨.derived, v⟩

def Supplier.answerFor (web : List (String × Response)) (spec : JobSpec) :
    Supplier → Except Fault (List Entry)
  | .prepared answers =>
      ((answers.lookup spec.source).getD ⟨.error (.missingKey spec.source), false⟩).outcome
  | .network _ =>
      match Fetcher.target (.text spec.source) with
      | .error failure => .error (.failure failure)
      | .ok url => spec.conclusion url ((web.lookup url).getD .unreachable)

/-- What shows of an intake besides its books: who is where and who is to move. The results of runs,
the history, the store and the logs are left out, and how many puts the queue will still take. -/
structure Scene where
  suppliers : List Supplier
  web : List (String × Response)
  jobs : List (JobSpec × SupplierId)
  rounds : List Round
  posts : List Post
  queue : RecordQueue
  refuses : Option Fault
  gateLine : List (String × ActivityId)
  ready : List Call

/-- The fault with which a queue fails puts, sooner or later. -/
def RecordQueue.refuses (q : RecordQueue) : Option Fault := q.refusal.map (·.2)

theorem RecordQueue.refuses_eq_none_iff (q : RecordQueue) : q.refuses = none ↔ q.refusal = none :=
  Option.map_eq_none_iff

theorem RecordQueue.refuses_of_accept {q q' : RecordQueue} (h : q.accept = .ok q') :
    q'.refuses = q.refuses := by
  unfold accept at h
  split at h
  · cases h
    rfl
  · cases h
  · rename_i hrefusal
    cases h
    rw [refuses, refuses, hrefusal]
    rfl

theorem RecordQueue.refuses_of_error {q : RecordQueue} {fault : Fault}
    (h : q.accept = .error fault) : q.refuses = some fault := by
  unfold accept at h
  split at h
  · cases h
  · rename_i hrefusal
    cases h
    rw [refuses, hrefusal]
    rfl
  · cases h

namespace Intake

def posts (w : Intake) : List Post := w.activities.map Activity.post

def post? (w : Intake) (a : ActivityId) : Option Post := w.posts[a]?

def jobSpecs (w : Intake) : List (JobSpec × SupplierId) := w.jobs.map fun j => (j.spec, j.supplier)

def rosters (w : Intake) : List Roster := w.rounds.map Round.roster

def scene (w : Intake) : Scene where
  suppliers := w.suppliers
  web := w.web
  jobs := w.jobSpecs
  rounds := w.rounds
  posts := w.posts
  queue := { w.queue with refusal := none }
  refuses := w.queue.refuses
  gateLine := w.gateLine
  ready := w.ready

/-- What comes of the fetch of a run. -/
def answer? (w : Intake) (a : ActivityId) : Option (Except Fault (List Entry)) :=
  ((w.post? a).bind (·.role.job?)).bind fun j => (w.jobSpecs[j]?).bind fun job =>
    (w.suppliers[job.2]?).map (·.answerFor w.web job.1)

section

variable (w : Intake) (a : ActivityId)

theorem post?_eq : w.post? a = (w.activity? a).map Activity.post := by
  rw [post?, posts, List.getElem?_map, activity?]

theorem role?_eq : w.role? a = (w.post? a).map (·.role) := by
  rw [post?_eq, role?, Option.map_map]
  rfl

theorem jobOf?_eq : w.jobOf? a = (w.post? a).bind (·.role.job?) := by
  rw [jobOf?, role?_eq]
  cases w.post? a <;> rfl

theorem specOf?_eq : w.specOf? a = ((w.post? a).bind (·.role.job?)).bind fun j =>
    (w.jobSpecs[j]?).map (·.1) := by
  rw [specOf?, jobOf?_eq]
  cases (w.post? a).bind (·.role.job?) with
  | none => rfl
  | some j =>
      simp only [Option.bind_some, jobSpecs, List.getElem?_map, Option.map_map]
      rfl

theorem outcome?_eq_some_iff {outcome : RunOutcome} : w.outcome? a = some outcome ↔
    ∃ p, w.post? a = some p ∧ p.stage = .finished outcome := by
  rw [outcome?, post?_eq]
  cases w.activity? a with
  | none => simp
  | some x =>
      simp only [Option.bind_some, Option.map_some, Option.some.injEq, exists_eq_left']
      show _ ↔ x.stage = .finished outcome
      cases x.stage <;> simp

theorem stage_of_phase_ended {spec : JobSpec} {r : RunResult} {outcome : RunOutcome}
    (h : w.affairs.phase a = .ended spec r outcome) {p : Post} (hp : w.post? a = some p) :
    p.stage = .finished outcome := by
  obtain ⟨q, hq, hstage⟩ := (outcome?_eq_some_iff w a).mp (of_phase_ended w a h).2.2
  cases hp.symm.trans hq
  exact hstage

/-! ## What is done to posts -/

theorem posts_onActivity {f : Activity → Activity} {g : Post → Post}
    (h : ∀ x, (f x).post = g x.post) : (w.onActivity a f).posts = w.posts.modify a g :=
  List.map_modify h w.activities a

theorem posts_onActivity_of_unseen {f : Activity → Activity} (h : ∀ x, (f x).post = x.post) :
    (w.onActivity a f).posts = w.posts :=
  List.map_modify_of_unseen h w.activities a

/-! ## What is written to the books -/

@[simp] theorem scene_keep (r : RunResult) : (w.keep a r).scene = w.scene := by
  have hposts : (w.keep a r).posts = w.posts := posts_onActivity_of_unseen w a fun _ => rfl
  unfold scene
  rw [hposts]
  rfl

@[simp] theorem scene_onJob {f : Job → Job} (hspec : ∀ job, (f job).spec = job.spec)
    (hsupplier : ∀ job, (f job).supplier = job.supplier) (j : JobId) :
    (w.onJob j f).scene = w.scene := by
  have hjobs : (w.onJob j f).jobSpecs = w.jobSpecs :=
    List.map_modify_of_unseen (fun job => by rw [hspec, hsupplier]) w.jobs j
  unfold scene
  rw [hjobs]
  rfl

@[simp] theorem scene_advance (r : RunResult) : (w.advance a r).scene = w.scene := by
  unfold advance
  dsimp only
  split
  · rw [scene_onJob _ (by exact fun _ => rfl) (by exact fun _ => rfl), scene_keep]
  · exact scene_keep w a r

theorem scene_accept {queue : RecordQueue} (h : w.queue.accept = .ok queue) :
    ({ w with queue } : Intake).scene = w.scene := by
  have hrefuses := RecordQueue.refuses_of_accept h
  unfold scene
  rw [hrefuses]
  unfold RecordQueue.accept at h
  split at h <;> cases h <;> rfl

variable {w a} {w' : Intake}

theorem posts_of_scene (h : w'.scene = w.scene) : w'.posts = w.posts := congrArg Scene.posts h

theorem post?_of_scene (h : w'.scene = w.scene) (b : ActivityId) : w'.post? b = w.post? b := by
  rw [post?, post?, posts_of_scene h]

theorem rounds_of_scene (h : w'.scene = w.scene) : w'.rounds = w.rounds := congrArg Scene.rounds h

theorem ready_of_scene (h : w'.scene = w.scene) : w'.ready = w.ready := congrArg Scene.ready h

theorem answer?_of_scene (h : w'.scene = w.scene) (b : ActivityId) :
    w'.answer? b = w.answer? b := by
  have hjobs : w'.jobSpecs = w.jobSpecs := congrArg Scene.jobs h
  have hsuppliers : w'.suppliers = w.suppliers := congrArg Scene.suppliers h
  have hweb : w'.web = w.web := congrArg Scene.web h
  rw [answer?, answer?, post?_of_scene h, hjobs, hsuppliers, hweb]

theorem specOf?_of_scene (h : w'.scene = w.scene) (b : ActivityId) :
    w'.specOf? b = w.specOf? b := by
  have hjobs : w'.jobSpecs = w.jobSpecs := congrArg Scene.jobs h
  rw [specOf?_eq, specOf?_eq, post?_of_scene h, hjobs]

end

end Intake

open Intake

/-! ## Motions and halts -/

/-- Something that a run does on its way. -/
inductive Motion (a : ActivityId) : Intake → Intake → Prop where
  /-- It writes to the books. -/
  | aside {w w' : Intake} (h : w'.scene = w.scene) : Motion a w w'
  | push {w : Intake} (record : Record) (room : w.queue.isFull = false) :
      Motion a w (w.withQueue (w.queue.push record))
  /-- It leaves a place in the queue to the next in line. -/
  | passOn (w : Intake) : Motion a w (w.withQueue w.queue.nextPutter)
  | take {w : Intake} {r : RoundId} {round : Round} (hr : w.rounds[r]? = some round)
      (free : round.permits.isTaken = false) :
      Motion a w (w.onRound r fun x => { x with permits := x.permits.take })
  | moveOn {w : Intake} {r : RoundId} {round : Round} (hr : w.rounds[r]? = some round) :
      Motion a w (w.withPermits r (round.permits.moveOn a))
  | giveUp {w : Intake} {r : RoundId} {round : Round} (hr : w.rounds[r]? = some round) :
      Motion a w (w.withPermits r (round.permits.giveUp a))
  | release {w : Intake} {r : RoundId} {round : Round} (hr : w.rounds[r]? = some round) :
      Motion a w (w.withPermits r round.permits.release)

abbrev Motions (a : ActivityId) : Intake → Intake → Prop := Relation.ReflTransGen (Motion a)

/-- How a move of a run ends. -/
inductive Halt (a : ActivityId) : Intake → Intake → Prop where
  /-- There is nothing to do. -/
  | rest (w : Intake) : Halt a w w
  | finish (w : Intake) (outcome : RunOutcome) : Halt a w (w.close a outcome)
  | gate {w : Intake} (source : String) (answer : Answer)
      (promise : w.answer? a = some answer.outcome) :
      Halt a w (({ w with gateLine := w.gateLine ++ [(source, a)] } : Intake).suspend a
        (.atGate answer))
  | network {w : Intake} (spec : JobSpec) (url : String) (response : Response)
      (hs : w.specOf? a = some spec)
      (promise : w.answer? a = some (spec.conclusion url response)) :
      Halt a w ((w.enter a (.onNetwork url response)).call (.move a false))
  | room {w : Intake} (record : Record) (rest : List Entry) (full : w.queue.isFull = true) :
      Halt a w (w.awaitRoom a record rest)
  | line {w : Intake} {r : RoundId} {j : JobId} {round : Round}
      (role : w.role? a = some (.member r j)) (hr : w.rounds[r]? = some round)
      (taken : round.permits.isTaken = true) :
      Halt a w ((w.onRound r fun x => { x with permits := x.permits.join a }).suspend a .inLine)

def Pursuit (a : ActivityId) (w w' : Intake) : Prop := ∃ u, Motions a w u ∧ Halt a u w'

namespace Pursuit

variable {a : ActivityId} {w u w' : Intake}

theorem of_halt (h : Halt a w w') : Pursuit a w w' := ⟨w, .refl, h⟩

theorem rest (a : ActivityId) (w : Intake) : Pursuit a w w := .of_halt (.rest w)

theorem after (motion : Motion a w u) (pursuit : Pursuit a u w') : Pursuit a w w' := by
  obtain ⟨v, motions, halt⟩ := pursuit
  exact ⟨v, .head motion motions, halt⟩

theorem aside (pursuit : Pursuit a u w') (h : u.scene = w.scene) : Pursuit a w w' :=
  pursuit.after (.aside h)

end Pursuit

/-- How a run waits that has begun and is not through: at a gate, for the network or for room. -/
inductive Pause (a : ActivityId) : Intake → Intake → Prop where
  | gate {w : Intake} (source : String) (answer : Answer)
      (promise : w.answer? a = some answer.outcome) :
      Pause a w (({ w with gateLine := w.gateLine ++ [(source, a)] } : Intake).suspend a
        (.atGate answer))
  | network {w : Intake} (spec : JobSpec) (url : String) (response : Response)
      (hs : w.specOf? a = some spec)
      (promise : w.answer? a = some (spec.conclusion url response)) :
      Pause a w ((w.enter a (.onNetwork url response)).call (.move a false))
  | room {w : Intake} (record : Record) (rest : List Entry) (full : w.queue.isFull = true) :
      Pause a w (w.awaitRoom a record rest)

theorem Pause.halt {a : ActivityId} {w w' : Intake} (pause : Pause a w w') : Halt a w w' := by
  cases pause with
  | gate source answer promise => exact .gate source answer promise
  | network spec url response hs promise => exact .network spec url response hs promise
  | room record rest full => exact .room record rest full

def Fault.outcome (fault : Fault) : RunOutcome :=
  if fault.isCancellation then .cancelled else .failed fault

/-- Some ways in which a run at work may end, with its result. It fails as its work does, and is
cancelled at most where the queue raises a cancellation. -/
structure Intake.Grants (w : Intake) (may : RunOutcome → Option RunResult → Prop) : Prop where
  done : ∀ r?, may .done r?
  working : ∀ (spec : JobSpec) (fault : Fault) (r? : Option RunResult),
    (∀ r, r? = some r → r.failed = true) →
      may (.failed (.failure (spec.processingFailure fault))) r?
  putting : ∀ fault r?, w.queue.refuses = some fault → fault.isCancellation = true →
    may .cancelled r?

theorem Intake.Grants.congr {w w' : Intake} {may : RunOutcome → Option RunResult → Prop}
    (grants : w.Grants may) (h : w'.queue.refuses = w.queue.refuses) : w'.Grants may where
  done := grants.done
  working := grants.working
  putting := fun fault r? hfault => grants.putting fault r? (h.symm.trans hfault)

theorem Intake.grants_any (w : Intake) : w.Grants fun _ _ => True :=
  ⟨fun _ => trivial, fun _ _ _ _ => trivial, fun _ _ _ _ => trivial⟩

/-- What a run does from its beginning, or from where it waited, until it waits or ends in a way
that it may. Only its end does something to a round. -/
def Stint (a : ActivityId) (may : RunOutcome → Option RunResult → Prop) (w w' : Intake) : Prop :=
  ∃ u, Motions a w u ∧ u.rounds = w.rounds ∧
    (Pause a u w' ∨ ∃ outcome, may outcome (u.result? a) ∧ w' = u.endRun a outcome)

namespace Stint

variable {a : ActivityId} {may : RunOutcome → Option RunResult → Prop} {w u w' : Intake}

theorem of_pause (h : Pause a w w') : Stint a may w w' := ⟨w, .refl, rfl, .inl h⟩

theorem of_end (w : Intake) (a : ActivityId) {outcome : RunOutcome}
    (h : may outcome (w.result? a)) : Stint a may w (w.endRun a outcome) :=
  ⟨w, .refl, rfl, .inr ⟨outcome, h, rfl⟩⟩

theorem after (motion : Motion a w u) (hrounds : u.rounds = w.rounds)
    (stint : Stint a may u w') : Stint a may w w' := by
  obtain ⟨v, motions, hv, ends⟩ := stint
  exact ⟨v, .head motion motions, hv.trans hrounds, ends⟩

theorem aside (stint : Stint a may u w') (h : u.scene = w.scene) : Stint a may w w' :=
  stint.after (.aside h) (rounds_of_scene h)

end Stint

/-! ## Moves of runs -/

namespace Intake

section

variable {w : Intake} {a : ActivityId} {spec : JobSpec}

/-- The end of a run is to close it when its permit is given back. -/
theorem endRun_closes (w : Intake) (a : ActivityId) (outcome : RunOutcome) :
    ∃ u, Motions a w u ∧ w.endRun a outcome = u.close a outcome := by
  unfold endRun
  split
  · rename_i r j _
    unfold release
    split
    · rename_i round hr
      exact ⟨_, .single (.release hr), rfl⟩
    · exact ⟨w, .refl, rfl⟩
  · exact ⟨w, .refl, rfl⟩

theorem advance_endRun_closes (w : Intake) (a : ActivityId) (r : RunResult)
    (entries : List LogEntry) (outcome : RunOutcome) :
    ∃ u, Motions a w u ∧ ((w.advance a r).log entries).endRun a outcome = u.close a outcome := by
  obtain ⟨u, motions, heq⟩ := endRun_closes ((w.advance a r).log entries) a outcome
  have hscene : ((w.advance a r).log entries).scene = w.scene := scene_advance w a r
  exact ⟨u, .head (.aside hscene) motions, heq⟩

theorem abandonPut_closes (w : Intake) (a : ActivityId) (spec : JobSpec) (r : RunResult)
    (woken : Bool) :
    ∃ u, Motions a w u ∧ w.abandonPut a spec r woken = u.close a .cancelled := by
  unfold abandonPut
  dsimp only
  split
  · obtain ⟨u, motions, heq⟩ := advance_endRun_closes (w.withQueue w.queue.nextPutter) a
      (r.cancel _) [spec.cancellationEntry (r.cancel _) _] .cancelled
    exact ⟨u, .head (.passOn w) motions, heq⟩
  · exact advance_endRun_closes w a _ _ _

end

end Intake

theorem Stint.pursuit {a : ActivityId} {may : RunOutcome → Option RunResult → Prop}
    {w w' : Intake} (stint : Stint a may w w') : Pursuit a w w' := by
  obtain ⟨u, motions, -, pause | ⟨outcome, -, rfl⟩⟩ := stint
  · exact ⟨u, motions, pause.halt⟩
  · obtain ⟨v, motions', heq⟩ := endRun_closes u a outcome
    exact ⟨v, motions.trans motions', heq ▸ .finish v outcome⟩

namespace Intake

section

variable {w : Intake} {a : ActivityId} {spec : JobSpec}

theorem advance_endRun_pursuit (w : Intake) (a : ActivityId) (r : RunResult)
    (entries : List LogEntry) (outcome : RunOutcome) :
    Pursuit a w (((w.advance a r).log entries).endRun a outcome) := by
  obtain ⟨u, motions, heq⟩ := advance_endRun_closes w a r entries outcome
  exact ⟨u, motions, heq ▸ .finish u outcome⟩

theorem abandonPut_pursuit (w : Intake) (a : ActivityId) (spec : JobSpec) (r : RunResult)
    (woken : Bool) : Pursuit a w (w.abandonPut a spec r woken) := by
  obtain ⟨u, motions, heq⟩ := abandonPut_closes w a spec r woken
  exact ⟨u, motions, heq ▸ .finish u .cancelled⟩

/-! ### Stints -/

section

variable {may : RunOutcome → Option RunResult → Prop}

theorem eq_of_result?_advance {w : Intake} {a : ActivityId} {r known : RunResult}
    (h : (w.advance a r).result? a = some known) : known = r := by
  have hkeep : (w.advance a r).result? a = (w.keep a r).result? a := by
    unfold advance
    dsimp only
    split <;> rfl
  rw [hkeep, result?, activity?, keep, onActivity, List.getElem?_modify, Option.map_eq_map,
    Option.bind_map] at h
  obtain ⟨x, -, heq⟩ := Option.bind_eq_some_iff.mp h
  simpa using heq.symm

theorem advance_endRun_stint (w : Intake) (a : ActivityId) (r : RunResult)
    (entries : List LogEntry) {outcome : RunOutcome}
    (h : may outcome ((w.advance a r).result? a)) :
    Stint a may w (((w.advance a r).log entries).endRun a outcome) :=
  .aside (.of_end _ a h) (scene_advance w a r)

theorem breakOff_stint (grants : w.Grants may) (a : ActivityId) (spec : JobSpec) (r : RunResult)
    {fault : Fault} (h : fault.isCancellation = true → ∀ r?, may .cancelled r?) :
    Stint a may w (w.breakOff a spec r fault) := by
  unfold breakOff
  split
  · rename_i hc
    exact advance_endRun_stint w a _ _ (h hc _)
  · refine advance_endRun_stint w a _ _ (grants.working spec fault _ fun known hknown => ?_)
    rw [eq_of_result?_advance hknown]
    simp [RunResult.failed, RunResult.fail, RunResult.finish, RunResult.enter]

theorem complete_stint (grants : w.Grants may) (a : ActivityId) (spec : JobSpec) (r : RunResult) :
    Stint a may w (w.complete a spec r) := by
  unfold complete
  dsimp only
  refine .aside (advance_endRun_stint _ a _ _ (grants.done _)) ?_
  split <;> rfl

theorem put_stint (room : w.queue.isFull = false) (spec : JobSpec) (record : Record)
    {w' : Intake} (next : Stint a may (w.put a spec record) w') : Stint a may w w' := by
  refine .after (.push record room) ?_ (.aside next rfl)
  unfold withQueue wakeAny
  split <;> rfl

theorem refuses_put (w : Intake) (a : ActivityId) (spec : JobSpec) (record : Record) :
    (w.put a spec record).queue.refuses = w.queue.refuses := by
  show ((w.withQueue (w.queue.push record)).queue).refuses = _
  unfold withQueue wakeAny
  split <;> rfl

/-- The induction is on the entries that are still to be examined. Of the faults that end a run on
its way only that of the queue may be a request to stop. -/
theorem process_stint (grants : w.Grants may) (a : ActivityId) (spec : JobSpec) (r : RunResult)
    (entries : List Entry) : Stint a may w (w.process a spec r entries) := by
  induction entries generalizing w r with
  | nil => exact complete_stint grants a spec r
  | cons e rest ih =>
      unfold process
      split
      · rename_i fault he
        refine breakOff_stint grants a spec r fun hc => ?_
        rw [Entry.toRecord_not_cancellation he] at hc
        cases hc
      · rename_i record _
        dsimp only
        generalize hv : (w.log _).tell _ = v
        have hscene : v.scene = w.scene := by
          rw [← hv]
          rfl
        have grants' : v.Grants may := grants.congr (congrArg Scene.refuses hscene)
        refine .aside ?_ hscene
        split
        · exact ih grants' _
        · split
          · rename_i fault hqueue
            exact breakOff_stint grants' a spec _
              fun hc r? => grants'.putting fault r? (RecordQueue.refuses_of_error hqueue) hc
          · rename_i queue hqueue
            refine .aside (u := { v with queue }) ?_ (scene_accept v hqueue)
            split
            · rename_i hfull
              exact .aside (.of_pause (.room record rest hfull)) (scene_keep _ a _)
            · rename_i hroom
              refine put_stint (by simpa using hroom) spec record (ih (grants'.congr ?_) _)
              rw [refuses_put]
              exact RecordQueue.refuses_of_accept hqueue

theorem resumePut_stint (grants : w.Grants may) (a : ActivityId) (spec : JobSpec) (r : RunResult)
    (record : Record) (rest : List Entry) :
    Stint a may w (w.resumePut a spec r record rest) := by
  unfold resumePut
  split
  · rename_i hfull
    exact .of_pause (.room record rest hfull)
  · rename_i hroom
    exact put_stint (by simpa using hroom) spec record
      (process_stint (grants.congr (refuses_put w a spec record)) a spec _ rest)

theorem deliver_stint (grants : w.Grants may) (a : ActivityId) (spec : JobSpec) (r : RunResult)
    {given : Except Fault (List Entry)}
    (hgiven : ∀ fault r?, given = .error fault → may fault.outcome r?) :
    Stint a may w (w.deliver a spec r given) := by
  unfold deliver
  split
  · rename_i entries
    have hscene := scene_advance w a (r.takeUp entries.length)
    have hsame : (w.advance a (r.takeUp entries.length)).queue.refuses = w.queue.refuses :=
      congrArg Scene.refuses hscene
    exact .aside (process_stint (by exact grants.congr hsame) a spec _ _) hscene
  · have hfault (r? : Option RunResult) := hgiven _ r? rfl
    split
    · split
      · exact advance_endRun_stint w a _ _ (grants.done _)
      · exact .of_end w a (hfault _)
    · unfold Fault.outcome at hfault
      split
      · rename_i hc
        rw [if_pos hc] at hfault
        exact advance_endRun_stint w a _ _ (hfault _)
      · rename_i hc
        rw [if_neg hc] at hfault
        exact .of_end w a (hfault _)

theorem ask_stint (grants : w.Grants may) (spec : JobSpec) (r : RunResult)
    {answers : List (String × Answer)}
    (promise : w.answer? a = some ((answers.lookup spec.source).getD
      ⟨.error (.missingKey spec.source), false⟩).outcome)
    (hanswer : ∀ fault r?, w.answer? a = some (.error fault) → may fault.outcome r?) :
    Stint a may w (w.ask a spec r answers) := by
  unfold ask
  dsimp only
  split
  · exact .of_pause (.gate spec.source _ promise)
  · exact deliver_stint grants a spec r fun fault r? hfault => hanswer fault r? (hfault ▸ promise)

theorem receive_stint (grants : w.Grants may) (a : ActivityId) (spec : JobSpec) (r : RunResult)
    (url : String) {response : Response}
    (hgiven : ∀ fault r?, spec.conclusion url response = .error fault → may fault.outcome r?) :
    Stint a may w (w.receive a spec r url response) :=
  .aside (deliver_stint (by exact grants.congr rfl) a spec r hgiven) rfl

theorem request_stint (grants : w.Grants may) (hs : w.specOf? a = some spec) (r : RunResult)
    {fetcher : Fetcher}
    (promise : w.answer? a = some ((Supplier.network fetcher).answerFor w.web spec))
    (hanswer : ∀ fault r?, w.answer? a = some (.error fault) → may fault.outcome r?) :
    Stint a may w (w.request a spec r fetcher) := by
  unfold request
  rw [Supplier.answerFor] at promise
  split
  · rename_i failure htarget
    rw [htarget] at promise
    exact deliver_stint grants a spec r fun fault r? hfault => hanswer fault r? (hfault ▸ promise)
  · rename_i url htarget
    rw [htarget] at promise
    exact .aside (.of_pause (.network spec url _ hs promise)) rfl

/-- What comes of the fetch of a run is settled when its job is. -/
theorem answer?_eq {j : JobId} {job : Job} {supplier : Supplier} (hj : w.jobOf? a = some j)
    (hjob : w.jobs[j]? = some job) (hsupplier : w.suppliers[job.supplier]? = some supplier) :
    w.answer? a = some (supplier.answerFor w.web job.spec) := by
  rw [jobOf?_eq] at hj
  rw [answer?, hj, Option.bind_some, jobSpecs, List.getElem?_map, hjob, Option.map_some,
    Option.bind_some, hsupplier, Option.map_some]

theorem fetch_stint (grants : w.Grants may) {j : JobId} {job : Job} {supplier : Supplier}
    (hj : w.jobOf? a = some j) (hjob : w.jobs[j]? = some job)
    (hsupplier : w.suppliers[job.supplier]? = some supplier)
    (hanswer : ∀ fault r?, w.answer? a = some (.error fault) → may fault.outcome r?) :
    Stint a may w (w.fetch a j job supplier) := by
  have promise := answer?_eq hj hjob hsupplier
  have hs : w.specOf? a = some job.spec := by
    rw [specOf?, hj, Option.bind_some, hjob, Option.map_some]
  unfold fetch
  dsimp only
  generalize hv : ((w.onJob j fun job => { job with latest := some a }).advance a
    (job.spec.begun w.now)) = v
  have hscene : v.scene = w.scene := by
    rw [← hv, scene_advance, scene_onJob w (by exact fun _ => rfl) (by exact fun _ => rfl)]
  have grants' : v.Grants may := grants.congr (congrArg Scene.refuses hscene)
  have hweb : v.web = w.web := congrArg Scene.web hscene
  rw [← answer?_of_scene hscene] at promise hanswer
  rw [← hweb] at promise
  refine .aside ?_ hscene
  cases supplier with
  | prepared answers =>
      exact .aside (ask_stint (by exact grants'.congr rfl) job.spec _ promise (by exact hanswer))
        rfl
  | network fetcher =>
      exact request_stint grants' ((specOf?_of_scene hscene a).trans hs) _ promise hanswer

theorem beginRun_stint (grants : w.Grants may) {j : JobId} (hj : w.jobOf? a = some j)
    (hanswers : (w.answer? a).isSome = true)
    (hanswer : ∀ fault r?, w.answer? a = some (.error fault) → may fault.outcome r?) :
    Stint a may w (w.beginRun a j) := by
  have hasked := hanswers
  rw [jobOf?_eq] at hj
  rw [answer?, hj, Option.bind_some, jobSpecs, List.getElem?_map] at hasked
  rw [← jobOf?_eq] at hj
  unfold beginRun
  split
  · rename_i hjob
    simp [hjob] at hasked
  · rename_i job hjob
    split
    · rename_i hsupplier
      simp [hjob, hsupplier] at hasked
    · rename_i supplier hsupplier
      exact fetch_stint grants hj hjob hsupplier hanswer

end

/-! ### Pursuits -/

theorem deliver_pursuit (w : Intake) (a : ActivityId) (spec : JobSpec) (r : RunResult)
    (given : Except Fault (List Entry)) : Pursuit a w (w.deliver a spec r given) := by
  have stint : Stint a (fun _ _ => True) w (w.deliver a spec r given) :=
    deliver_stint w.grants_any a spec r fun _ _ _ => trivial
  exact stint.pursuit

theorem beginRun_pursuit {j : JobId} (hj : w.jobOf? a = some j) :
    Pursuit a w (w.beginRun a j) := by
  unfold beginRun
  split
  · exact .rest a w
  · rename_i job hjob
    split
    · exact .rest a w
    · rename_i supplier hsupplier
      have stint : Stint a (fun _ _ => True) w (w.fetch a j job supplier) :=
        fetch_stint w.grants_any hj hjob hsupplier fun _ _ _ => trivial
      exact stint.pursuit

theorem beginMember_pursuit {r : RoundId} {j : JobId} (role : w.role? a = some (.member r j)) :
    Pursuit a w (w.beginMember a r j) := by
  have hj : w.jobOf? a = some j := by rw [jobOf?, role]; rfl
  unfold beginMember
  split
  · exact .rest a w
  · rename_i round hr
    split
    · rename_i htaken
      exact .of_halt (.line role hr htaken)
    · rename_i hfree
      exact .after (.take hr (by simpa using hfree)) (beginRun_pursuit hj)

theorem leaveLine_pursuit {r : RoundId} {j : JobId} (hj : w.jobOf? a = some j)
    (calledOff stop : Bool) : Pursuit a w (w.leaveLine a r j calledOff stop) := by
  unfold leaveLine
  split
  · exact .rest a w
  · rename_i round hr
    split
    · exact .of_halt (.finish w .cancelled)
    · split
      · exact .after (.giveUp hr) (.of_halt (.finish _ .cancelled))
      · refine .after (.moveOn hr) (beginRun_pursuit ?_)
        rw [← view_jobOf?, view_withPermits, view_jobOf?, hj]

theorem goOn_pursuit {f : JobSpec → RunResult → Intake}
    (h : ∀ spec r, Pursuit a w (f spec r)) : Pursuit a w (w.goOn a f) := by
  unfold goOn
  split
  · exact h _ _
  · exact .rest a w

theorem act_pursuit {role : Role} (hrole : w.role? a = some role) {j : JobId}
    (hj : role.job? = some j) (calledOff stop : Bool) {stage : Stage}
    (hstage : stage ≠ .awaitingRecord) : Pursuit a w (w.act a role calledOff stop stage) := by
  have hjob : w.jobOf? a = some j := by rw [jobOf?, hrole, Option.bind_some, hj]
  have hend (outcome : RunOutcome) : Pursuit a w (w.endOwner a outcome) := by
    have hclose : w.endOwner a outcome = w.close a outcome := by
      unfold endOwner
      rw [hrole]
      cases role <;> first | rfl | cases hj
    rw [hclose]
    exact .of_halt (.finish w outcome)
  unfold act
  cases stage with
  | fresh =>
      dsimp only
      split
      · exact hend _
      · cases role with
        | run i =>
            cases hj
            exact beginRun_pursuit hjob
        | member r i => exact beginMember_pursuit hrole
        | _ => cases hj
  | inLine =>
      cases role with
      | member r i =>
          cases hj
          exact leaveLine_pursuit hjob calledOff stop
      | _ => exact .rest a w
  | atGate answer =>
      refine goOn_pursuit fun spec r => ?_
      split
      · exact advance_endRun_pursuit w a _ _ _
      · exact deliver_pursuit w a spec r _
  | onNetwork url response =>
      exact goOn_pursuit fun spec r => .aside (u := w.log _) (deliver_pursuit _ a spec r _) rfl
  | atQueue record rest =>
      refine goOn_pursuit fun spec r => ?_
      split
      · exact abandonPut_pursuit w a spec r _
      · have stint : Stint a (fun _ _ => True) w (w.resumePut a spec r record rest) :=
          resumePut_stint w.grants_any a spec r record rest
        exact stint.pursuit
  | gathering =>
      dsimp only
      split
      · exact hend _
      · split
        · rename_i r howner
          cases role with
          | round _ | collector _ _ | taker => cases hj
          | _ => cases howner
        · exact .rest a w
  | awaitingRecord => exact absurd rfl hstage
  | joining => exact hend _
  | finished outcome => exact .rest a w

end

end Intake

end FeedIntake
