import FeedIntake.Proofs.Foresight
import FeedIntake.Proofs.Motions

/-! # Moves as turns

Whatever one activity does when it moves is a number of turns of its run, and of nobody else's. It
takes them in one go, from the place where it waited to the place where it waits next. A turn leads
on from the middle of such a move as well, where the activity has no stage to show for it: the
statements below put the run there by hand. The turns are foreseen where the answer of the fetch is
known, but for the trouble that a queue which fails puts may make.
-/

namespace FeedIntake

open Affairs

/-- The affairs are left as they are, or an activity takes turns of its job. -/
def View.RunsOn (a : ActivityId) (v v' : View) : Prop :=
  v'.affairs = v.affairs ∨ ∃ spec, v.spec? a = some spec ∧ Turns a spec v.affairs v'.affairs

theorem View.RunsOn.refl (a : ActivityId) (v : View) : v.RunsOn a v := .inl rfl

theorem RecordQueue.refusal_of_error {q : RecordQueue} {fault : Fault}
    (h : q.accept = .error fault) : q.refusal ≠ none := by
  intro hnone
  rw [accept_of_refusal hnone] at h
  cases h

theorem RecordQueue.refusal_of_accept {q q' : RecordQueue} (h : q.accept = .ok q')
    (hrefusal : q'.refusal ≠ none) : q.refusal ≠ none := by
  intro hnone
  rw [accept_of_refusal hnone] at h
  cases h
  exact hrefusal hnone

namespace Intake

/-- What comes of the fetch of a run of a job is this. -/
def Promises (w : Intake) (j : JobId) (answer : Option (Except Fault (List Entry))) : Prop :=
  ∀ job supplier, w.jobs[j]? = some job → w.suppliers[job.supplier]? = some supplier →
    answer = some (supplier.answerFor w.web job.spec)

theorem promises_answer? {w : Intake} {a : ActivityId} {j : JobId} (hj : w.jobOf? a = some j) :
    w.Promises j (w.answer? a) := fun _ _ hjob hsupplier => answer?_eq hj hjob hsupplier

/-- The affairs are left as they are, or an activity takes turns of its job that are foreseen. -/
def RunsForeseen (answer : Option (Except Fault (List Entry))) (trouble : Prop) (a : ActivityId)
    (w w' : Intake) : Prop :=
  w'.affairs = w.affairs ∨
    ∃ spec, w.view.spec? a = some spec ∧ ForeseenTurns answer trouble a spec w.affairs w'.affairs

theorem RunsForeseen.runsOn {answer : Option (Except Fault (List Entry))} {trouble : Prop}
    {a : ActivityId} {w w' : Intake} (h : RunsForeseen answer trouble a w w') :
    w.view.RunsOn a w'.view := by
  rcases h with hsame | ⟨spec, hs, turns⟩
  · exact .inl hsame
  · exact .inr ⟨spec, hs, turns.turns⟩

section

variable {w : Intake} {a : ActivityId} {spec : JobSpec}
  {answer : Option (Except Fault (List Entry))} {trouble : Prop}

/-! ## The end of a run -/

theorem affairs_endRun (h : w.view.spec? a = some spec) (r : RunResult) (entries : List LogEntry)
    (outcome : RunOutcome) :
    (((w.advance a r).log entries).endRun a outcome).affairs =
      w.affairs.set a (.ended spec r outcome) := by
  unfold affairs
  rw [view_endRun, view_log, view_advance]
  exact View.affairs_setResult_setStage h r (.finished outcome)

theorem stop_foreseen {p : Phase} {r : RunResult} {outcome : RunOutcome} {w' : Intake}
    (h : w'.affairs = w.affairs.set a (.ended spec r outcome))
    (stop : Phase.Stop spec p r outcome)
    (foreseen : p.Foreseen answer trouble (.ended spec r outcome)) :
    ForeseenTurns answer trouble a spec (w.affairs.set a p) w'.affairs := by
  have turn : Turn a spec (w.affairs.set a p) ((w.affairs.set a p).set a (.ended spec r outcome)) :=
    .stop (by simpa using stop)
  rw [set_set] at turn
  rw [h]
  exact .of_turn turn foreseen

theorem cancelRun_turns (h : w.view.spec? a = some spec) {p : Phase} {r : RunResult}
    (stop : ∀ now, Phase.Stop spec p (r.cancel now) .cancelled) :
    Turns a spec (w.affairs.set a p) (w.cancelRun a spec r).affairs := by
  have turns : ForeseenTurns none True a spec (w.affairs.set a p) (w.cancelRun a spec r).affairs :=
    stop_foreseen (affairs_endRun h _ _ _) (stop w.now) (.disturbed _ trivial)
  exact turns.turns

theorem breakOff_foreseen (h : w.view.spec? a = some spec) {p : Phase} {r : RunResult}
    {fault : Fault}
    (hcancel : fault.isCancellation = true → ∀ now, Phase.Stop spec p (r.cancel now) .cancelled)
    (hfail : fault.isCancellation = false → ∀ now,
      Phase.Stop spec p (r.fail (JobSpec.processingError fault) now)
        (.failed (.failure (spec.processingFailure fault))))
    (foreseen : ∀ r outcome, p.Foreseen answer trouble (.ended spec r outcome)) :
    ForeseenTurns answer trouble a spec (w.affairs.set a p)
      (w.breakOff a spec r fault).affairs := by
  unfold breakOff
  split
  · rename_i hc
    exact stop_foreseen (affairs_endRun h _ _ _) (hcancel hc w.now) (foreseen _ _)
  · rename_i hc
    exact stop_foreseen (affairs_endRun h _ _ _) (hfail (by simpa using hc) w.now) (foreseen _ _)

theorem affairs_complete (h : w.view.spec? a = some spec) (r : RunResult) :
    (w.complete a spec r).affairs = (w.affairs.commit a spec r.seen).set a
      (.ended spec (r.conclude spec.perpetual w.now) .done) := by
  unfold complete
  dsimp only
  cases hp : spec.perpetual with
  | false =>
      simp only [Affairs.commit, hp, Bool.false_eq_true, if_false]
      exact affairs_endRun h _ _ _
  | true =>
      simp only [Affairs.commit, hp, if_true]
      exact affairs_endRun (w := (w.commit spec.source r.seen).tell _) h _ _ _

theorem complete_foreseen (h : w.view.spec? a = some spec) (r : RunResult) :
    ForeseenTurns answer trouble a spec (w.affairs.set a (.working spec r []))
      (w.complete a spec r).affairs := by
  have turn : Turn a spec (w.affairs.set a (.working spec r [])) _ :=
    .conclude w.now (set_phase_self _ _ _)
  rw [commit_set, set_set] at turn
  rw [affairs_complete h]
  exact .of_turn turn (.works _)

/-! ## Entries on their way into the queue -/

theorem affairs_put (record : Record) :
    (w.put a spec record).affairs = (w.affairs.push record).tell (.did a spec (.put record)) := by
  unfold affairs put
  rw [view_tell, view_log, view_withQueue]
  rfl

theorem spec?_put (record : Record) (b : ActivityId) :
    (w.put a spec record).view.spec? b = w.view.spec? b := by
  unfold put
  rw [view_tell, view_log, view_withQueue]
  rfl

theorem refusal_put (w : Intake) (a : ActivityId) (spec : JobSpec) (record : Record) :
    (w.put a spec record).queue.refusal = w.queue.refusal := by
  show ((w.withQueue (w.queue.push record)).queue).refusal = _
  rw [withQueue, queue_wakeAny]
  rfl

theorem affairs_awaitRoom (hs : w.view.spec? a = some spec) {r : RunResult}
    (hr : w.view.result? a = some r) (record : Record) (rest : List Entry) :
    (w.awaitRoom a record rest).affairs = w.affairs.set a (.offering spec r record rest) := by
  unfold affairs awaitRoom
  rw [view_suspend]
  exact View.affairs_setStage (v := w.view) hs hr (.atQueue record rest)

theorem put_foreseen {r : RunResult} {record : Record} {rest : List Entry} :
    ForeseenTurns answer trouble a spec (w.affairs.set a (.offering spec r record rest))
      ((w.put a spec record).affairs.set a (.working spec r.publish rest)) := by
  have turn : Turn a spec (w.affairs.set a (.offering spec r record rest)) _ :=
    .put (set_phase_self _ _ _)
  rw [push_set, tell_set, set_set, ← affairs_put] at turn
  exact .of_turn turn .puts

theorem affairs_keep_awaitRoom (h : w.view.spec? a = some spec) (r : RunResult) (record : Record)
    (rest : List Entry) : ((w.keep a r).awaitRoom a record rest).affairs =
      w.affairs.set a (.offering spec r record rest) := by
  have hspec : (w.keep a r).view.spec? a = some spec := by simpa using h
  have hresult : (w.keep a r).view.result? a = some r := by
    simpa using View.result?_setResult_of_spec? h r
  rw [affairs_awaitRoom hspec hresult, affairs, view_keep, View.affairs_setResult_set]
  rfl

theorem offer_foreseen (h : w.view.spec? a = some spec)
    (htrouble : w.queue.refusal ≠ none → trouble) (r : RunResult) (record : Record)
    {rest : List Entry}
    (next : ∀ v : Intake, v.view.spec? a = some spec → (v.queue.refusal ≠ none → trouble) →
      ForeseenTurns answer trouble a spec (v.affairs.set a (.working spec r.publish rest))
        (v.process a spec r.publish rest).affairs) :
    ForeseenTurns answer trouble a spec (w.affairs.set a (.offering spec r record rest))
      (if w.queue.isFull then (w.keep a r).awaitRoom a record rest
        else (w.put a spec record).process a spec r.publish rest).affairs := by
  split
  · rw [affairs_keep_awaitRoom h]
  · refine put_foreseen.trans (next _ ((spec?_put record a).trans h) ?_)
    rw [refusal_put]
    exact htrouble

/-- The whole pass over the entries, as far as it comes without waiting. -/
theorem process_foreseen (h : w.view.spec? a = some spec)
    (htrouble : w.queue.refusal ≠ none → trouble) (r : RunResult) (entries : List Entry) :
    ForeseenTurns answer trouble a spec (w.affairs.set a (.working spec r entries))
      (w.process a spec r entries).affairs := by
  induction entries generalizing w r with
  | nil => exact complete_foreseen h r
  | cons e rest ih =>
      unfold process
      cases he : e.toRecord spec.source with
      | error fault =>
          refine breakOff_foreseen h (fun hc => ?_) (fun _ now => .unreadable fault he now)
            fun _ _ => .works _
          rw [Entry.toRecord_not_cancellation he] at hc
          cases hc
      | ok record =>
          have hphase : (w.affairs.set a (.working spec r (e :: rest))).phase a = _ :=
            set_phase_self _ _ _
          have hspec (entries : List LogEntry) (event : Event) :
              ((w.log entries).tell event).view.spec? a = some spec := h
          dsimp only
          by_cases hv : spec.judge w.store record = .admitted
          · have turn := Turn.offer hphase he hv
            rw [tell_set, set_set] at turn
            rw [hv, if_neg (by simp)]
            refine .after turn (.works _) ?_
            split
            · rename_i hqueue
              exact breakOff_foreseen (hspec _ _) (fun _ now => .cancelledOffering now)
                (fun hc now => .putFailed _ hc now)
                fun _ _ => .disturbed _ (htrouble (RecordQueue.refusal_of_error hqueue))
            · rename_i queue hqueue
              have hview := view_queue ((w.log (spec.examineEntries record)).tell
                (.did a spec (.judged record .admitted))) (RecordQueue.accept_records hqueue)
              have hqueued := (congrArg (View.spec? · a) hview).trans (hspec _ _)
              have turns : ForeseenTurns answer trouble a spec _ _ := offer_foreseen hqueued
                (fun hrefusal => htrouble (RecordQueue.refusal_of_accept hqueue hrefusal))
                (r.examine record .admitted) record fun v hv hvt => ih hv hvt _
              rw [affairs, hview] at turns
              exact turns
          · have turn := Turn.reject hphase he hv
            rw [tell_set, set_set] at turn
            rw [if_pos hv]
            exact .after turn (.works _) (ih (hspec _ _) htrouble _)

theorem resumePut_foreseen (hs : w.view.spec? a = some spec)
    (htrouble : w.queue.refusal ≠ none → trouble) {r : RunResult}
    (hr : w.view.result? a = some r) (record : Record) (rest : List Entry) :
    ForeseenTurns answer trouble a spec (w.affairs.set a (.offering spec r record rest))
      (w.resumePut a spec r record rest).affairs := by
  unfold resumePut
  split
  · rw [affairs_awaitRoom hs hr]
  · refine put_foreseen.trans (process_foreseen ((spec?_put record a).trans hs) ?_ _ _)
    rw [refusal_put]
    exact htrouble

theorem resumePut_turns (hs : w.view.spec? a = some spec) {r : RunResult}
    (hr : w.view.result? a = some r) (record : Record) (rest : List Entry) :
    Turns a spec (w.affairs.set a (.offering spec r record rest))
      (w.resumePut a spec r record rest).affairs := by
  have turns : ForeseenTurns none True a spec _ _ :=
    resumePut_foreseen hs (fun _ => trivial) hr record rest
  exact turns.turns

theorem abandonPut_turns (h : w.view.spec? a = some spec) (r : RunResult) (record : Record)
    (rest : List Entry) (woken : Bool) :
    Turns a spec (w.affairs.set a (.offering spec r record rest))
      (w.abandonPut a spec r woken).affairs := by
  unfold abandonPut
  dsimp only
  split
  · have hview : (w.withQueue w.queue.nextPutter).view = w.view := view_withQueue w _
    have turns := cancelRun_turns (w := w.withQueue w.queue.nextPutter) (hview ▸ h)
      (p := .offering spec r record rest) fun now => .cancelledOffering now
    rw [affairs, hview] at turns
    exact turns
  · exact cancelRun_turns h fun now => .cancelledOffering now

/-! ## The beginning of a run -/

theorem deliver_ok_foreseen (hs : w.view.spec? a = some spec)
    (htrouble : w.queue.refusal ≠ none → trouble) (r : RunResult) (entries : List Entry) :
    ForeseenTurns answer trouble a spec ((w.affairs.tell (.did a spec (.fetched entries))).set a
      (.working spec (r.takeUp entries.length) entries))
      (w.deliver a spec r (.ok entries)).affairs := by
  have hfetched : ((w.advance a (r.takeUp entries.length)).tell
      (.did a spec (.fetched entries))).view.spec? a = some spec := by
    rw [view_tell, view_advance]
    simpa using hs
  have hqueue : (w.advance a (r.takeUp entries.length)).queue = w.queue := queue_advance w a _
  have turns : ForeseenTurns answer trouble a spec _ _ := process_foreseen hfetched
    (fun hrefusal => htrouble (hqueue ▸ hrefusal)) (r.takeUp entries.length) entries
  rw [affairs, view_tell, view_advance, View.affairs_tell, ← tell_set,
    View.affairs_setResult_set, tell_set] at turns
  exact turns

theorem affairs_deliver_error (hs : w.view.spec? a = some spec) {r : RunResult}
    (hr : w.view.result? a = some r) (fault : Fault) :
    (w.deliver a spec r (.error fault)).affairs =
      w.affairs.set a (.ended spec (r.upon fault w.now).1 (r.upon fault w.now).2) := by
  have hforeign : (w.endRun a (.failed fault)).affairs =
      w.affairs.set a (.ended spec r (.failed fault)) := by
    rw [affairs, view_endRun]
    exact View.affairs_setStage (v := w.view) hs hr (.finished (.failed fault))
  unfold deliver RunResult.upon
  cases fault with
  | failure f =>
      dsimp only
      split
      · exact affairs_endRun hs _ _ _
      · exact hforeign
  | outside kind message =>
      dsimp only
      split
      · exact affairs_endRun hs _ _ _
      · exact hforeign

theorem deliver_foreseen (hs : w.view.spec? a = some spec)
    (htrouble : w.queue.refusal ≠ none → trouble) {r : RunResult}
    (hr : w.view.result? a = some r) (given : Except Fault (List Entry)) :
    ForeseenTurns (some given) trouble a spec (w.affairs.set a (.asking spec r))
      (w.deliver a spec r given).affairs := by
  cases given with
  | ok entries =>
      have turn : Turn a spec (w.affairs.set a (.asking spec r)) _ :=
        .fetch entries (set_phase_self _ _ _)
      rw [tell_set, set_set] at turn
      exact .after turn (.fetches entries rfl) (deliver_ok_foreseen hs htrouble r entries)
  | error fault =>
      exact stop_foreseen (affairs_deliver_error hs hr fault) (Phase.stop_upon fault w.now)
        (.fails fault rfl w.now)

theorem deliver_turns (hs : w.view.spec? a = some spec) {r : RunResult}
    (hr : w.view.result? a = some r) (given : Except Fault (List Entry)) :
    Turns a spec (w.affairs.set a (.asking spec r)) (w.deliver a spec r given).affairs :=
  (deliver_foreseen hs (fun _ => trivial) hr given).turns

theorem ask_foreseen (hs : w.view.spec? a = some spec)
    (htrouble : w.queue.refusal ≠ none → trouble) {r : RunResult}
    (hr : w.view.result? a = some r) (answers : List (String × Answer)) :
    ForeseenTurns (some ((Supplier.prepared answers).answerFor w.web spec)) trouble a spec
      (w.affairs.set a (.asking spec r)) (w.ask a spec r answers).affairs := by
  unfold ask
  dsimp only
  split
  · rw [affairs, affairs, view_suspend]
    exact (View.affairs_setStage (v := w.view) hs hr (.atGate _)) ▸ .refl
  · exact deliver_foreseen hs htrouble hr _

theorem request_foreseen (hs : w.view.spec? a = some spec)
    (htrouble : w.queue.refusal ≠ none → trouble) {r : RunResult}
    (hr : w.view.result? a = some r) (fetcher : Fetcher) :
    ForeseenTurns (some ((Supplier.network fetcher).answerFor w.web spec)) trouble a spec
      (w.affairs.set a (.asking spec r)) (w.request a spec r fetcher).affairs := by
  unfold request
  split
  · rename_i failure htarget
    rw [Supplier.answerFor, htarget]
    exact deliver_foreseen hs htrouble hr _
  · rw [affairs, affairs, view_call, view_enter]
    exact (View.affairs_setStage (v := w.view) hs hr (.onNetwork _ _)) ▸ .refl

theorem receive_foreseen (hs : w.view.spec? a = some spec)
    (htrouble : w.queue.refusal ≠ none → trouble) {r : RunResult}
    (hr : w.view.result? a = some r) (url : String) (response : Response) :
    ForeseenTurns (some (spec.conclusion url response)) trouble a spec
      (w.affairs.set a (.asking spec r)) (w.receive a spec r url response).affairs :=
  deliver_foreseen (w := w.log _) hs htrouble hr _

theorem receive_turns (hs : w.view.spec? a = some spec) {r : RunResult}
    (hr : w.view.result? a = some r) (url : String) (response : Response) :
    Turns a spec (w.affairs.set a (.asking spec r)) (w.receive a spec r url response).affairs :=
  (receive_foreseen hs (fun _ => trivial) hr url response).turns

theorem fetch_foreseen {j : JobId} {job : Job} (hs : w.view.spec? a = some job.spec)
    (htrouble : w.queue.refusal ≠ none → trouble) (hidle : w.affairs.phase a = .idle)
    (supplier : Supplier) :
    ForeseenTurns (some (supplier.answerFor w.web job.spec)) trouble a job.spec w.affairs
      (w.fetch a j job supplier).affairs := by
  have begins : ForeseenTurns (some (supplier.answerFor w.web job.spec)) trouble a job.spec
      w.affairs (w.affairs.set a (.asking job.spec (job.spec.begun w.now))) :=
    .single ⟨.begin w.now hidle, by rw [hidle]; exact .begins _⟩
  refine begins.trans ?_
  unfold fetch
  dsimp only
  generalize hv : ((w.onJob j fun job => { job with latest := some a }).advance a
    (job.spec.begun w.now)) = v
  have hview : v.view = w.view.setResult a (job.spec.begun w.now) := by
    rw [← hv, view_advance, view_onJob w (by exact fun _ => rfl)]
  have hvs : v.view.spec? a = some job.spec := by
    rw [hview]
    simpa using hs
  have hvr : v.view.result? a = some (job.spec.begun w.now) := by
    rw [hview]
    exact View.result?_setResult_of_spec? hs _
  have hset : w.affairs.set a (.asking job.spec (job.spec.begun w.now)) =
      v.affairs.set a (.asking job.spec (job.spec.begun w.now)) := by
    rw [affairs, affairs, hview, View.affairs_setResult_set]
  have hscene : v.scene = w.scene := by
    rw [← hv, scene_advance, scene_onJob w (by exact fun _ => rfl) (by exact fun _ => rfl)]
  have hweb : v.web = w.web := congrArg Scene.web hscene
  have hqueue : v.queue = w.queue := by rw [← hv]; exact queue_advance _ a _
  rw [← hqueue] at htrouble
  rw [hset, ← hweb]
  cases supplier with
  | prepared answers =>
      exact ask_foreseen (w := { v with fetches := v.fetches ++ [_] }) hvs htrouble hvr answers
  | network fetcher => exact request_foreseen hvs htrouble hvr fetcher

theorem fetch_turns {j : JobId} {job : Job} (hs : w.view.spec? a = some job.spec)
    (hidle : w.affairs.phase a = .idle) (supplier : Supplier) :
    Turns a job.spec w.affairs (w.fetch a j job supplier).affairs :=
  (fetch_foreseen hs (fun _ => trivial) hidle supplier).turns

theorem beginRun_foreseen {j : JobId} (hj : w.jobOf? a = some j) (promises : w.Promises j answer)
    (htrouble : w.queue.refusal ≠ none → trouble) (hidle : w.affairs.phase a = .idle) :
    RunsForeseen answer trouble a w (w.beginRun a j) := by
  unfold beginRun
  split
  · exact .inl rfl
  · rename_i job hjob
    have hs : w.view.spec? a = some job.spec := by
      rw [view_spec?, specOf?, hj, Option.bind_some, hjob, Option.map_some]
    split
    · exact .inl rfl
    · rename_i supplier hsupplier
      rw [promises job supplier hjob hsupplier]
      exact .inr ⟨job.spec, hs, fetch_foreseen hs htrouble hidle supplier⟩

end

end Intake

end FeedIntake
