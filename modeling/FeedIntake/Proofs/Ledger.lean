import FeedIntake.Proofs.Owners

/-! # The states of jobs

A job shows the state that one of its runs entered last. What a run enters it enters in its own
result as well, so the two agree as long as no other run of the job is under way. The ledger holds
the states of all jobs and the results of all runs, and nothing else. Every move of a run is a
number of entries in it, and anything else that happens only adds to it.
-/

namespace FeedIntake

open Affairs

structure Ledger where
  state : JobId → Option RunState
  job : ActivityId → Option JobId
  result : ActivityId → Option RunResult

namespace Ledger

def revise (l : Ledger) (a : ActivityId) (r : RunResult) : Ledger :=
  { l with result := Function.update l.result a (some r) }

def write (l : Ledger) (a : ActivityId) (j : JobId) (r : RunResult) : Ledger :=
  { l.revise a r with state := Function.update l.state j ((l.state j).map fun _ => r.state) }

/-- What a run of a job may do to the ledger. -/
inductive Entry (a : ActivityId) (j : JobId) : Ledger → Ledger → Prop where
  | write (l : Ledger) (r : RunResult) : Entry a j l (l.write a j r)
  | revise {l : Ledger} {r₀ r : RunResult} (h : l.result a = some r₀)
      (hstate : r.state = r₀.state) : Entry a j l (l.revise a r)

abbrev Entries (a : ActivityId) (j : JobId) : Ledger → Ledger → Prop :=
  Relation.ReflTransGen (Entry a j)

/-- The later ledger has all that the earlier one has, and no other results. -/
structure Extends (l l' : Ledger) : Prop where
  job : ∀ a j, l.job a = some j → l'.job a = some j
  result : l'.result = l.result
  state : ∀ j s, l.state j = some s → l'.state j = some s

theorem Extends.refl (l : Ledger) : l.Extends l := ⟨fun _ _ h => h, rfl, fun _ _ h => h⟩

theorem Extends.of_eq {l l' : Ledger} (h : l' = l) : l.Extends l' := h ▸ .refl l

theorem Extends.trans {l l' l'' : Ledger} (h : l.Extends l') (h' : l'.Extends l'') :
    l.Extends l'' where
  job a j hj := h'.job a j (h.job a j hj)
  result := h'.result.trans h.result
  state j s hs := h'.state j s (h.state j s hs)

def Accords (l : Ledger) (a : ActivityId) (j : JobId) : Prop :=
  ∀ r s, l.result a = some r → l.state j = some s → s = r.state

variable {l l' : Ledger} {a b : ActivityId} {i j : JobId}

namespace Entry

theorem job (entry : Entry a j l l') : l'.job = l.job := by
  cases entry <;> rfl

theorem result_self (entry : Entry a j l l') : (l'.result a).isSome = true := by
  cases entry <;> simp [Ledger.write, Ledger.revise]

theorem result_of_ne (entry : Entry a j l l') (h : b ≠ a) : l'.result b = l.result b := by
  cases entry <;> simp [Ledger.write, Ledger.revise, h]

theorem state_of_ne (entry : Entry a j l l') (h : i ≠ j) : l'.state i = l.state i := by
  cases entry with
  | write r => simp [Ledger.write, h]
  | revise => rfl

theorem accords (entry : Entry a j l l') (h : l.Accords a j) : l'.Accords a j := by
  intro r' s hr hs
  cases entry with
  | write r =>
      simp only [Ledger.write, Ledger.revise, Function.update_self, Option.some.injEq] at hr hs
      subst hr
      obtain ⟨_, -, rfl⟩ := Option.map_eq_some_iff.mp hs
      rfl
  | revise hr₀ hstate =>
      simp only [Ledger.revise, Function.update_self, Option.some.injEq] at hr
      subst hr
      rw [hstate]
      exact h _ s hr₀ hs

end Entry

namespace Entries

theorem job (entries : Entries a j l l') : l'.job = l.job := by
  induction entries with
  | refl => rfl
  | tail _ entry ih => rw [entry.job, ih]

theorem result_of_ne (entries : Entries a j l l') (h : b ≠ a) : l'.result b = l.result b := by
  induction entries with
  | refl => rfl
  | tail _ entry ih => rw [entry.result_of_ne h, ih]

theorem state_of_ne (entries : Entries a j l l') (h : i ≠ j) : l'.state i = l.state i := by
  induction entries with
  | refl => rfl
  | tail _ entry ih => rw [entry.state_of_ne h, ih]

theorem eq_of_result (entries : Entries a j l l') (h : l'.result a = none) : l' = l := by
  cases entries with
  | refl => rfl
  | tail _ entry =>
      have hsome := entry.result_self
      rw [h] at hsome
      cases hsome

theorem result_mono (entries : Entries a j l l') (h : (l.result b).isSome = true) :
    (l'.result b).isSome = true := by
  cases entries with
  | refl => exact h
  | tail before entry =>
      by_cases hb : b = a
      · subst hb
        exact entry.result_self
      · rw [entry.result_of_ne hb, Entries.result_of_ne before hb]
        exact h

theorem accords (entries : Entries a j l l') (h : l.Accords a j) : l'.Accords a j := by
  induction entries with
  | refl => exact h
  | tail _ entry ih => exact entry.accords ih

end Entries

end Ledger

open Ledger

namespace Intake

def ledger (w : Intake) : Ledger where
  state j := (w.jobs[j]?).map (·.state)
  job := w.jobOf?
  result := w.result?

section

variable (w : Intake) (a : ActivityId)

/-! ## What is not written down -/

theorem jobOf?_onActivity {f : Activity → Activity} (hf : ∀ x, (f x).role = x.role)
    (b : ActivityId) : (w.onActivity a f).jobOf? b = w.jobOf? b := by
  simp only [jobOf?, role?, activity?, onActivity, List.getElem?_modify]
  by_cases hb : a = b <;> cases w.activities[b]? <;> simp [hb, hf]

theorem ledger_onActivity {f : Activity → Activity} (hrole : ∀ x, (f x).role = x.role)
    (hresult : ∀ x, (f x).result = x.result) : (w.onActivity a f).ledger = w.ledger := by
  have hjob : (w.onActivity a f).jobOf? = w.jobOf? := funext (jobOf?_onActivity w a hrole)
  have hres : (w.onActivity a f).result? = w.result? := by
    funext b
    simp only [result?, activity?, onActivity, List.getElem?_modify]
    by_cases hb : a = b <;> cases w.activities[b]? <;> simp [hb, hresult]
  unfold ledger
  rw [hjob, hres]
  rfl

@[simp] theorem ledger_enter (stage : Stage) : (w.enter a stage).ledger = w.ledger :=
  ledger_onActivity w a (by exact fun _ => rfl) (by exact fun _ => rfl)

@[simp] theorem ledger_suspend (stage : Stage) : (w.suspend a stage).ledger = w.ledger :=
  ledger_onActivity w a (by exact fun _ => rfl) (by exact fun _ => rfl)

@[simp] theorem ledger_log (entries : List LogEntry) : (w.log entries).ledger = w.ledger := rfl

@[simp] theorem ledger_tell (e : Event) : (w.tell e).ledger = w.ledger := rfl

@[simp] theorem ledger_call (c : Call) : (w.call c).ledger = w.ledger := rfl

@[simp] theorem ledger_onRound (r : RoundId) (f : Round → Round) :
    (w.onRound r f).ledger = w.ledger := rfl

@[simp] theorem ledger_wake : (w.wake a).ledger = w.ledger :=
  ledger_onActivity w a (by exact fun _ => rfl) (by exact fun _ => rfl)

@[simp] theorem ledger_wakeAny (who : Option ActivityId) : (w.wakeAny who).ledger = w.ledger := by
  cases who with
  | none => rfl
  | some b => exact ledger_wake w b

@[simp] theorem ledger_withQueue (q : RecordQueue × Option ActivityId) :
    (w.withQueue q).ledger = w.ledger := ledger_wakeAny _ q.2

@[simp] theorem ledger_withPermits (r : RoundId) (p : Permits × Option ActivityId) :
    (w.withPermits r p).ledger = w.ledger := ledger_wakeAny _ p.2

@[simp] theorem ledger_release (r : RoundId) : (w.release r).ledger = w.ledger := by
  unfold release
  split
  · exact ledger_withPermits w r _
  · rfl

@[simp] theorem ledger_close (outcome : RunOutcome) : (w.close a outcome).ledger = w.ledger := by
  unfold close
  dsimp only
  split
  · exact ledger_enter w a _
  · exact ledger_enter w a _

@[simp] theorem ledger_endRun (outcome : RunOutcome) : (w.endRun a outcome).ledger = w.ledger := by
  unfold endRun
  split
  · rw [ledger_close, ledger_release]
  · exact ledger_close w a outcome

@[simp] theorem ledger_awaitRoom (record : Record) (rest : List Entry) :
    (w.awaitRoom a record rest).ledger = w.ledger := ledger_suspend _ a _

@[simp] theorem ledger_put (spec : JobSpec) (record : Record) :
    (w.put a spec record).ledger = w.ledger := ledger_withQueue w _

theorem ledger_onJob {f : Job → Job} (hf : ∀ job, (f job).state = job.state) (j : JobId) :
    (w.onJob j f).ledger = w.ledger := by
  unfold ledger
  congr 1
  funext i
  simp only [onJob, List.getElem?_modify]
  by_cases hi : j = i <;> cases w.jobs[i]? <;> simp [hi, hf]

/-! ## What is -/

variable {w a} {j : JobId}

theorem ledger_keep (hj : w.jobOf? a = some j) (r : RunResult) :
    (w.keep a r).ledger = w.ledger.revise a r := by
  have hjob : (w.keep a r).jobOf? = w.jobOf? :=
    funext (jobOf?_onActivity w a (by exact fun _ => rfl))
  have hres : (w.keep a r).result? = Function.update w.result? a (some r) := by
    funext b
    simp only [result?, activity?, keep, onActivity, List.getElem?_modify]
    by_cases hb : b = a
    · subst hb
      obtain ⟨role, hrole, -⟩ := Option.bind_eq_some_iff.mp hj
      obtain ⟨x, hx, -⟩ := Option.map_eq_some_iff.mp hrole
      rw [activity?] at hx
      simp [hx]
    · simp only [Function.update_of_ne hb, if_neg (Ne.symm hb), result?, activity?]
      cases w.activities[b]? <;> rfl
  unfold ledger revise
  rw [hjob, hres]
  rfl

theorem ledger_advance (hj : w.jobOf? a = some j) (r : RunResult) :
    (w.advance a r).ledger = w.ledger.write a j r := by
  have hkeep := ledger_keep hj r
  have hjob : (w.keep a r).jobOf? a = some j :=
    (jobOf?_onActivity w a (by exact fun _ => rfl) a).trans hj
  unfold advance
  dsimp only
  rw [hjob]
  dsimp only
  unfold write
  rw [← hkeep]
  unfold ledger
  congr 1
  funext i
  simp only [onJob, keep, onActivity, List.getElem?_modify]
  by_cases hi : i = j
  · subst hi
    cases w.jobs[i]? <;> simp
  · simp only [Function.update_of_ne hi, if_neg (Ne.symm hi)]
    cases w.jobs[i]? <;> rfl

theorem jobOf?_of_ledger {w' : Intake} (h : w'.ledger = w.ledger) : w'.jobOf? = w.jobOf? :=
  congrArg Ledger.job h

theorem result?_of_ledger {w' : Intake} (h : w'.ledger = w.ledger) : w'.result? = w.result? :=
  congrArg Ledger.result h

theorem entries_advance (hj : w.jobOf? a = some j) (r : RunResult) :
    Entries a j w.ledger (w.advance a r).ledger := by
  rw [ledger_advance hj]
  exact .single (.write _ r)

end

/-! ## The entries of runs -/

section

variable {w : Intake} {a : ActivityId} {j : JobId} {spec : JobSpec} {r : RunResult}

theorem entries_advance_endRun (hj : w.jobOf? a = some j) (r : RunResult)
    (entries : List LogEntry) (outcome : RunOutcome) :
    Entries a j w.ledger (((w.advance a r).log entries).endRun a outcome).ledger := by
  rw [ledger_endRun, ledger_log]
  exact entries_advance hj r

theorem entries_breakOff (hj : w.jobOf? a = some j) (spec : JobSpec) (r : RunResult)
    (fault : Fault) : Entries a j w.ledger (w.breakOff a spec r fault).ledger := by
  unfold breakOff
  split
  · exact entries_advance_endRun hj _ _ _
  · exact entries_advance_endRun hj _ _ _

theorem entries_complete (hj : w.jobOf? a = some j) (spec : JobSpec) (r : RunResult) :
    Entries a j w.ledger (w.complete a spec r).ledger := by
  unfold complete
  dsimp only
  split
  · exact entries_advance_endRun (w := (w.commit spec.source r.seen).tell _) hj _ _ _
  · exact entries_advance_endRun hj _ _ _

theorem state_examine (r : RunResult) (record : Record) (verdict : Verdict) :
    (r.examine record verdict).state = r.state := by
  unfold RunResult.examine RunResult.meet
  cases verdict <;> dsimp only <;> split <;> split <;> rfl

/-- The induction is on the entries that are still to be examined. The result in the ledger may lag
behind in its figures, but not in its state. -/
theorem entries_process (hj : w.jobOf? a = some j) (spec : JobSpec) {r₀ : RunResult}
    (hr : w.result? a = some r₀) (r : RunResult) (hstate : r.state = r₀.state)
    (entries : List Entry) : Entries a j w.ledger (w.process a spec r entries).ledger := by
  induction entries generalizing w r with
  | nil => exact entries_complete hj spec r
  | cons e rest ih =>
      unfold process
      split
      · exact entries_breakOff hj spec r _
      · rename_i record _
        dsimp only
        generalize hv : (w.log _).tell _ = v
        have hledger : v.ledger = w.ledger := by
          rw [← hv]
          rfl
        have hj : v.jobOf? a = some j := by rw [jobOf?_of_ledger hledger, hj]
        have hr : v.result? a = some r₀ := by rw [result?_of_ledger hledger, hr]
        have hexamined := (state_examine r record (spec.judge w.store record)).trans hstate
        rw [← hledger]
        split
        · exact ih hj hr _ hexamined
        · split
          · exact entries_breakOff hj spec _ _
          · rename_i queue _
            split
            · rw [ledger_awaitRoom, ledger_keep (w := { v with queue }) hj]
              exact .single (.revise hr hexamined)
            · have hput := ledger_put { v with queue } a spec record
              have next := ih (w := Intake.put { v with queue } a spec record)
                (by rw [jobOf?_of_ledger hput]; exact hj)
                (by rw [result?_of_ledger hput]; exact hr)
                (r.examine record (spec.judge w.store record)).publish hexamined
              rw [hput] at next
              exact next

theorem entries_resumePut (hj : w.jobOf? a = some j) (spec : JobSpec) (hr : w.result? a = some r)
    (record : Record) (rest : List Entry) :
    Entries a j w.ledger (w.resumePut a spec r record rest).ledger := by
  unfold resumePut
  split
  · rw [ledger_awaitRoom]
  · have hput := ledger_put w a spec record
    have hj' : (w.put a spec record).jobOf? a = some j := by rw [jobOf?_of_ledger hput, hj]
    have hr' : (w.put a spec record).result? a = some r := by rw [result?_of_ledger hput, hr]
    have next := entries_process hj' spec hr' r.publish rfl rest
    rw [hput] at next
    exact next

theorem entries_abandonPut (hj : w.jobOf? a = some j) (spec : JobSpec) (r : RunResult)
    (woken : Bool) : Entries a j w.ledger (w.abandonPut a spec r woken).ledger := by
  unfold abandonPut
  dsimp only
  split
  · have hnext := ledger_withQueue w w.queue.nextPutter
    rw [← hnext]
    exact entries_advance_endRun (by rw [jobOf?_of_ledger hnext]; exact hj) _ _ _
  · exact entries_advance_endRun hj _ _ _

theorem entries_deliver (hj : w.jobOf? a = some j) (spec : JobSpec) (r : RunResult)
    (answer : Except Fault (List Entry)) :
    Entries a j w.ledger (w.deliver a spec r answer).ledger := by
  unfold deliver
  split
  · rename_i entries
    dsimp only
    generalize hv : (w.advance a (r.takeUp entries.length)).tell _ = v
    have hledger : v.ledger = w.ledger.write a j (r.takeUp entries.length) := by
      rw [← hv]
      exact ledger_advance hj _
    have hjob : v.jobOf? a = some j := by
      rw [show v.jobOf? = w.jobOf? from congrArg Ledger.job hledger]
      exact hj
    have hr : v.result? a = some (r.takeUp entries.length) := by
      rw [show v.result? = _ from congrArg Ledger.result hledger]
      simp [Ledger.write, Ledger.revise]
    have next := entries_process hjob spec hr _ rfl entries
    rw [hledger] at next
    exact .head (.write _ _) next
  · split
    · split
      · exact entries_advance_endRun hj _ _ _
      · rw [ledger_endRun]
    · split
      · exact entries_advance_endRun hj _ _ _
      · rw [ledger_endRun]

theorem entries_ask (hj : w.jobOf? a = some j) (spec : JobSpec) (r : RunResult)
    (answers : List (String × Answer)) :
    Entries a j w.ledger (w.ask a spec r answers).ledger := by
  unfold ask
  dsimp only
  split
  · rw [ledger_suspend]
    exact .refl
  · exact entries_deliver hj spec r _

theorem entries_request (hj : w.jobOf? a = some j) (spec : JobSpec) (r : RunResult)
    (fetcher : Fetcher) : Entries a j w.ledger (w.request a spec r fetcher).ledger := by
  unfold request
  split
  · exact entries_deliver hj spec r _
  · rw [ledger_call, ledger_enter]
    exact .refl

theorem entries_receive (hj : w.jobOf? a = some j) (spec : JobSpec) (r : RunResult) (url : String)
    (response : Response) : Entries a j w.ledger (w.receive a spec r url response).ledger :=
  entries_deliver (w := w.log _) hj spec r _

/-- A run that begins writes a result before anything else. -/
theorem entries_fetch (hj : w.jobOf? a = some j) (job : Job) (supplier : Supplier) :
    Entries a j (w.ledger.write a j (job.spec.begun w.now)) (w.fetch a j job supplier).ledger := by
  unfold fetch
  dsimp only
  generalize hu : (w.onJob j fun job => { job with latest := some a }) = u
  have hledger : u.ledger = w.ledger := by
    rw [← hu]
    exact ledger_onJob w (by exact fun _ => rfl) j
  have hjob : u.jobOf? a = some j := by
    rw [jobOf?_of_ledger hledger]
    exact hj
  have hadvance := ledger_advance hjob (job.spec.begun w.now)
  have hafter : (u.advance a (job.spec.begun w.now)).jobOf? a = some j := by
    rw [show Intake.jobOf? _ = _ from congrArg Ledger.job hadvance]
    exact hjob
  rw [← hledger, ← hadvance]
  generalize u.advance a (job.spec.begun w.now) = v at hafter
  cases supplier with
  | prepared answers =>
      exact entries_ask (w := { v with fetches := v.fetches ++
        [(job.supplier, job.spec.source, job.spec.timeoutMs)] }) hafter _ _ _
  | network fetcher => exact entries_request hafter _ _ _

theorem entries_beginRun (hj : w.jobOf? a = some j) :
    Entries a j w.ledger (w.beginRun a j).ledger := by
  unfold beginRun
  split
  · exact .refl
  · rename_i job _
    split
    · exact .refl
    · exact .head (.write _ _) (entries_fetch hj job _)

theorem result?_beginRun (hj : w.jobOf? a = some j) (hanswers : (w.answer? a).isSome = true) :
    ((w.beginRun a j).result? a).isSome = true := by
  have hjob := hj
  rw [jobOf?_eq] at hjob
  rw [answer?, hjob, Option.bind_some, jobSpecs, List.getElem?_map] at hanswers
  unfold beginRun
  split
  · rename_i hnone
    simp [hnone] at hanswers
  · rename_i job hsome
    split
    · rename_i hnone
      simp [hsome, hnone] at hanswers
    · exact (entries_fetch hj job _).result_mono
        (Entry.write w.ledger (job.spec.begun w.now)).result_self

theorem entries_beginMember (hj : w.jobOf? a = some j) (r : RoundId) :
    Entries a j w.ledger (w.beginMember a r j).ledger := by
  unfold beginMember
  split
  · exact .refl
  · split
    · rw [ledger_suspend, ledger_onRound]
    · exact entries_beginRun (w := w.onRound r _) hj

theorem entries_leaveLine (hj : w.jobOf? a = some j) (r : RoundId) (calledOff stop : Bool) :
    Entries a j w.ledger (w.leaveLine a r j calledOff stop).ledger := by
  unfold leaveLine
  split
  · exact .refl
  · rename_i round _
    split
    · rw [ledger_close]
    · split
      · rw [ledger_close, ledger_withPermits]
      · have hgiven := ledger_withPermits w r (round.permits.moveOn a)
        have entries := entries_beginRun (w := w.withPermits r (round.permits.moveOn a)) (a := a)
          (by rw [jobOf?_of_ledger hgiven]; exact hj)
        rw [hgiven] at entries
        exact entries

end

/-! ## Those beside the runs -/

section

variable (w : Intake) (a : ActivityId)

@[simp] theorem ledger_leaveLines : (w.leaveLines a).ledger = w.ledger := by
  unfold leaveLines
  dsimp only
  split
  · exact ledger_onRound _ _ _
  · rfl

@[simp] theorem ledger_callOff : (w.callOff a).1.ledger = w.ledger := by
  unfold callOff
  split
  · rfl
  · split
    · rfl
    · split
      · rw [ledger_call, ledger_onActivity _ _ (by exact fun _ => rfl) (by exact fun _ => rfl),
          ledger_leaveLines]
      · exact ledger_onActivity w a (by exact fun _ => rfl) (by exact fun _ => rfl)

@[simp] theorem ledger_cancel : (w.cancel a).1.ledger = w.ledger :=
  cancel_induction (P := fun v => v.ledger = w.ledger) rfl
    (fun v m hv => (ledger_callOff v m).trans hv) (fun v r hv => (ledger_onRound v r _).trans hv)
    fun v hv =>
      (ledger_onActivity v a (by exact fun _ => rfl) (by exact fun _ => rfl)).trans hv

@[simp] theorem ledger_endOwner (outcome : RunOutcome) :
    (w.endOwner a outcome).ledger = w.ledger := by
  unfold endOwner
  split
  · rw [ledger_close, ledger_callOff]
  · exact ledger_close w a outcome

@[simp] theorem ledger_endRound (r : RoundId) (results : List RunResult) :
    (w.endRound a r results).ledger = w.ledger := by
  unfold endRound
  dsimp only
  split
  · split
    · rw [ledger_endOwner, ledger_onRound]
    · rw [ledger_suspend, ledger_onRound]
  · rw [ledger_endOwner, ledger_onRound]

@[simp] theorem ledger_gather (r : RoundId) : (w.gather a r).ledger = w.ledger := by
  unfold gather
  split
  · rfl
  · dsimp only
    split
    · rw [ledger_endOwner, ledger_log]
    · rw [ledger_endRound, ledger_log, ledger_log]

@[simp] theorem ledger_note (r : RoundId) : (w.note r).ledger = w.ledger := by
  unfold note
  dsimp only
  split
  · rfl
  · split
    · rw [ledger_call, ledger_onActivity _ _ (by exact fun _ => rfl) (by exact fun _ => rfl),
        ledger_onRound]
    · rfl

@[simp] theorem ledger_takeRecord : w.takeRecord.ledger = w.ledger := by
  refine takeRecord_induction (P := fun v => v.ledger = w.ledger) rfl (fun _ => ?_) fun v b _ hv =>
    (ledger_wake v b).trans hv
  rw [ledger_withQueue, ledger_tell]
  rfl

@[simp] theorem ledger_takeRecords : (w.takeRecords a).ledger = w.ledger := by
  unfold takeRecords
  dsimp only
  rw [ledger_suspend]
  exact repeat_takeRecord_induction (P := fun v => v.ledger = w.ledger) _ rfl fun v hv =>
    (ledger_takeRecord v).trans hv

@[simp] theorem ledger_stopTaking (woken : Bool) : (w.stopTaking a woken).ledger = w.ledger := by
  unfold stopTaking
  dsimp only
  split
  · rw [ledger_close, ledger_withQueue]
  · exact ledger_close w a _

@[simp] theorem ledger_openGate (source : String) : (w.openGate source).ledger = w.ledger :=
  openGate_induction (P := fun v => v.ledger = w.ledger) source (fun _ _ => rfl) fun v b hv =>
    (ledger_wake v b).trans hv

end

/-! ## Additions -/

theorem ledger_addJob (w : Intake) (spec : JobSpec) (supplier : SupplierId) :
    w.ledger.Extends (w.addJob spec supplier).1.ledger where
  job _ _ h := h
  result := rfl
  state j s h := by
    obtain ⟨job, hjob, hs⟩ := Option.map_eq_some_iff.mp h
    show ((w.jobs ++ [_])[j]?).map _ = some s
    rw [List.getElem?_append_left (List.getElem?_eq_some_iff.mp hjob).choose, hjob, Option.map_some,
      hs]

theorem ledger_add (w : Intake) (role : Role) : w.ledger.Extends (w.add role).1.ledger where
  job a j h := by
    obtain ⟨role', hrole, hj⟩ := Option.bind_eq_some_iff.mp h
    obtain ⟨x, hx, hx'⟩ := Option.map_eq_some_iff.mp hrole
    show (((w.activities ++ [_])[a]?).map _).bind _ = some j
    rw [activity?] at hx
    rw [List.getElem?_append_left (List.getElem?_eq_some_iff.mp hx).choose, hx, Option.map_some,
      hx', Option.bind_some, hj]
  result := by
    funext a
    show ((w.activities ++ [Activity.ofRole role])[a]?).bind _ = (w.activities[a]?).bind _
    rcases Nat.lt_trichotomy a w.activities.length with hlt | rfl | hgt
    · rw [List.getElem?_append_left hlt]
    · rw [List.getElem?_concat_length, List.getElem?_eq_none (Nat.le_refl _)]
      rfl
    · rw [List.getElem?_eq_none (by rw [List.length_append]; exact hgt),
        List.getElem?_eq_none (Nat.le_of_lt hgt)]
  state _ _ h := h

theorem ledger_addMember (w : Intake) (r : RoundId) (spec : JobSpec) (supplier : SupplierId) :
    w.ledger.Extends (w.addMember r spec supplier).ledger :=
  (ledger_addJob w spec supplier).trans (ledger_add (w.addJob spec supplier).1 _)

theorem ledger_beginRound (w : Intake) (a : ActivityId) (r : RoundId) :
    w.ledger.Extends (w.beginRound a r).ledger :=
  beginRound_induction (P := fun v => w.ledger.Extends v.ledger)
    (Q := fun v => w.ledger.Extends v.ledger) (.refl _) (.of_eq (ledger_endRound w a r []))
    (fun _ _ => .of_eq (ledger_endOwner _ a _)) (fun _ _ => .refl _)
    (fun v spec supplier hv => hv.trans (ledger_addMember v r spec supplier)) fun v hv => by
      rw [ledger_suspend]
      exact hv

/-! ## Any step -/

/-- What a move of `a` does to the ledger: it adds, or it makes the entries of a run that has not
ended. -/
def Writes (a : ActivityId) (w w' : Intake) : Prop :=
  w.ledger.Extends w'.ledger ∨
    ∃ j, w.jobOf? a = some j ∧ w.outcome? a = none ∧ Entries a j w.ledger w'.ledger

theorem Writes.of_eq {a : ActivityId} {w w' : Intake} (h : w'.ledger = w.ledger) : Writes a w w' :=
  .inl (.of_eq h)

section

variable {w : Intake} {a : ActivityId}

theorem goOn_entries {j : JobId} {f : JobSpec → RunResult → Intake}
    (h : ∀ spec r, w.result? a = some r → Entries a j w.ledger (f spec r).ledger) :
    Entries a j w.ledger (w.goOn a f).ledger := by
  unfold goOn
  split
  · rename_i hr
    exact h _ _ hr
  · exact .refl

theorem begin_writes {role : Role} (hrole : w.role? a = some role) (hopen : w.outcome? a = none) :
    Writes a w (w.begin a role) := by
  have hjob : w.jobOf? a = role.job? := by rw [jobOf?, hrole, Option.bind_some]
  cases role with
  | run j => exact .inr ⟨j, hjob, hopen, entries_beginRun hjob⟩
  | member r j => exact .inr ⟨j, hjob, hopen, entries_beginMember hjob r⟩
  | round r => exact .inl (ledger_beginRound w a r)
  | collector r taker => exact .inl (ledger_beginRound w a r)
  | taker => exact .of_eq (ledger_takeRecords w a)

theorem goOn_writes (hopen : w.outcome? a = none) {f : JobSpec → RunResult → Intake}
    (h : ∀ j spec r, w.jobOf? a = some j → w.result? a = some r →
      Entries a j w.ledger (f spec r).ledger) : Writes a w (w.goOn a f) := by
  cases hj : w.jobOf? a with
  | none =>
      unfold goOn
      rw [hj]
      exact .of_eq rfl
  | some j => exact .inr ⟨j, hj, hopen, goOn_entries fun spec r hr => h j spec r hj hr⟩

theorem act_writes {x : Activity} (hx : w.activity? a = some x) (calledOff stop : Bool) :
    Writes a w (w.act a x.role calledOff stop x.stage) := by
  have hrole : w.role? a = some x.role := by rw [role?, hx, Option.map_some]
  have hopen (h : ∀ outcome, x.stage ≠ .finished outcome) : w.outcome? a = none := by
    unfold outcome?
    rw [hx, Option.bind_some]
    split
    · rename_i outcome hstage
      exact absurd hstage (h outcome)
    · rfl
  unfold act
  cases hstage : x.stage with
  | fresh =>
      dsimp only
      split
      · exact .of_eq (ledger_endOwner w a _)
      · exact begin_writes hrole (hopen (by simp [hstage]))
  | inLine =>
      dsimp only
      split
      · rename_i r j hmember
        have hjob : w.jobOf? a = some j := by
          rw [jobOf?, hrole, hmember]
          rfl
        exact .inr ⟨j, hjob, hopen (by simp [hstage]), entries_leaveLine hjob r _ _⟩
      · exact .of_eq rfl
  | atGate answer =>
      refine goOn_writes (hopen (by simp [hstage])) fun j spec r hj hr => ?_
      split
      · exact entries_advance_endRun hj _ _ _
      · exact entries_deliver hj spec r _
  | onNetwork url response =>
      exact goOn_writes (hopen (by simp [hstage])) fun j spec r hj hr =>
        entries_receive hj spec r url _
  | atQueue record rest =>
      refine goOn_writes (hopen (by simp [hstage])) fun j spec r hj hr => ?_
      split
      · exact entries_abandonPut hj spec r _
      · exact entries_resumePut hj spec hr record rest
  | gathering =>
      dsimp only
      split
      · exact .of_eq (ledger_endOwner w a _)
      · split
        · exact .of_eq (ledger_gather w a _)
        · exact .of_eq rfl
  | awaitingRecord =>
      dsimp only
      split
      · exact .of_eq (ledger_stopTaking w a _)
      · exact .of_eq (ledger_takeRecords w a)
  | joining => exact .of_eq (ledger_endOwner w a _)
  | finished outcome => exact .of_eq rfl

theorem ledger_attend (w : Intake) (a : ActivityId) (due : List Call) :
    (w.attend a due).ledger = w.ledger :=
  ledger_onActivity { w with ready := due } a (by exact fun _ => rfl) (by exact fun _ => rfl)

theorem move_writes (w : Intake) (a : ActivityId) (calledOff : Bool) :
    Writes a w (w.move a calledOff) := by
  unfold move
  split
  · exact .of_eq rfl
  · rename_i x hx
    have hledger : (w.onActivity a fun x => { x with stopping := false }).ledger = w.ledger :=
      ledger_onActivity w a (by exact fun _ => rfl) (by exact fun _ => rfl)
    have hself : (w.onActivity a fun x => { x with stopping := false }).activity? a =
        some { x with stopping := false } := by
      simp only [activity?, onActivity] at hx ⊢
      simp [hx]
    have writes := act_writes hself calledOff (calledOff || x.stopping)
    have houtcome : (w.onActivity a fun x => { x with stopping := false }).outcome? a =
        w.outcome? a := by
      rw [outcome?, outcome?, hself, hx]
      rfl
    rcases writes with added | ⟨j, hj, hopen, entries⟩
    · rw [hledger] at added
      exact .inl added
    · rw [hledger] at entries
      rw [jobOf?_of_ledger hledger] at hj
      exact .inr ⟨j, hj, houtcome ▸ hopen, entries⟩

theorem result?_move_of_ne {b : ActivityId} (hb : b ≠ a) (ready : List Call) (calledOff : Bool) :
    (({ w with ready } : Intake).move a calledOff).result? b = w.result? b := by
  rcases move_writes { w with ready } a calledOff with added | ⟨j, -, -, entries⟩
  · exact congrFun added.result b
  · exact entries.result_of_ne hb

end

/-- Whatever happens, the ledger gets additions or the entries of one run that has not ended. -/
theorem Step.writes {w w' : Intake} (step : Step w w') : ∃ a, Writes a w w' := by
  cases step with
  | happen before c after h =>
      cases c with
      | move a calledOff =>
          exact ⟨a, move_writes { w with ready := before ++ after } a calledOff⟩
      | note r => exact ⟨0, .of_eq (ledger_note { w with ready := before ++ after } r)⟩
  | clock | web | refusal | addSupplier | prepare => exact ⟨0, .of_eq rfl⟩
  | addJob spec supplier => exact ⟨0, .inl (ledger_addJob w spec supplier)⟩
  | startRun j => exact ⟨0, .inl (ledger_add w _)⟩
  | startRound spec => exact ⟨0, .inl (ledger_add w (.round w.rounds.length))⟩
  | startCollecting spec =>
      have hboth := (ledger_add w (.collector w.rounds.length (w.activities.length + 1))).trans
        (ledger_add _ .taker)
      exact ⟨0, .inl hboth⟩
  | openGate source => exact ⟨0, .of_eq (ledger_openGate w source)⟩
  | cancel a => exact ⟨0, .of_eq (ledger_cancel w a)⟩
  | takeOne h =>
      unfold Intake.takeOne at h
      obtain ⟨⟨first, queue, putter⟩, -, heq⟩ := Option.map_eq_some_iff.mp h
      obtain ⟨-, rfl⟩ := Prod.mk.inj heq
      exact ⟨0, .of_eq (ledger_withQueue _ _)⟩

/-! ## One run at a time -/

/-- Since some moment at which no run of the job was under way, `a` is the only one that has begun.
The moment came after the given origin. -/
def Alone (origin w : Intake) (a : ActivityId) (j : JobId) : Prop :=
  ∃ v, Reaches origin v ∧ Reaches v w ∧ v.result? a = none ∧
    (∀ b, v.jobOf? b = some j → (v.result? b).isSome = true → (v.outcome? b).isSome = true) ∧
    ∀ b, b ≠ a → w.jobOf? b = some j → (w.result? b).isSome = true → (v.result? b).isSome = true

section

variable {w w' : Intake} {a b : ActivityId} {j : JobId}

theorem Step.jobOf? (step : Step w w') (h : w.jobOf? b = some j) : w'.jobOf? b = some j := by
  obtain ⟨a, added | ⟨i, -, -, entries⟩⟩ := step.writes
  · exact added.job b j h
  · exact (congrFun entries.job b).trans h

theorem Step.result?_mono (step : Step w w') (h : (w.result? b).isSome = true) :
    (w'.result? b).isSome = true := by
  obtain ⟨a, added | ⟨i, -, -, entries⟩⟩ := step.writes
  · rw [show w'.result? = w.result? from added.result]
    exact h
  · exact entries.result_mono h

theorem Reaches.jobOf? (reach : Reaches w w') (h : w.jobOf? b = some j) : w'.jobOf? b = some j := by
  induction reach with
  | refl => exact h
  | tail _ step ih => exact step.jobOf? ih

theorem exists_specOf? (htidy : w.affairs.Tidy) {r : RunResult} (hr : w.result? b = some r) :
    ∃ spec, w.specOf? b = some spec := by
  have hidle : w.view.phase b ≠ .idle := fun hidle => by
    obtain ⟨x, hx, hres⟩ := Option.bind_eq_some_iff.mp hr
    have hnone := View.phase_eq_idle_iff.mp hidle x.core (by rw [view_core, hx, Option.map_some])
    rw [show x.core.result = some r from hres] at hnone
    cases hnone
  rw [← view_spec?]
  exact Option.isSome_iff_exists.mp (View.spec?_isSome_of_phase hidle (htidy b))

theorem Reaches.outcome?_isSome (reach : Reaches w w') (htidy : w.affairs.Tidy)
    (hr : (w.result? b).isSome = true) (ho : (w.outcome? b).isSome = true) :
    (w'.outcome? b).isSome = true := by
  obtain ⟨r, hr⟩ := Option.isSome_iff_exists.mp hr
  obtain ⟨outcome, ho⟩ := Option.isSome_iff_exists.mp ho
  obtain ⟨spec, hs⟩ := exists_specOf? htidy hr
  have hphase : w.affairs.phase b = .ended spec r outcome := phase_of_outcome? w b hs hr ho
  have hlater := (reach.course htidy).phase_of_ended hphase
  rw [(of_phase_ended w' b hlater).2.2, Option.isSome_some]

theorem Reaches.jobOf?_of_result? (reach : Reaches w w') (htidy : w.affairs.Tidy)
    (hr : (w.result? b).isSome = true) (hj : w'.jobOf? b = some j) : w.jobOf? b = some j := by
  obtain ⟨r, hr⟩ := Option.isSome_iff_exists.mp hr
  obtain ⟨spec, hs⟩ := exists_specOf? htidy hr
  obtain ⟨job, hjob, -⟩ := Option.map_eq_some_iff.mp hs
  obtain ⟨i, hi, -⟩ := Option.bind_eq_some_iff.mp hjob
  rw [reach.jobOf? hi] at hj
  rw [hi, hj]

/-- What leaves the result of a run and the state of its job as they are leaves them in accord. -/
theorem Step.accords (step : Step w w') (htidy : w.affairs.Tidy) (hj : w'.jobOf? a = some j)
    (accords : w.jobOf? a = some j → w.ledger.Accords a j) (hres : w'.result? a = w.result? a)
    (hstate : ∀ s, w.ledger.state j = some s → w'.ledger.state j = some s) :
    w'.ledger.Accords a j := by
  intro r s hr hs
  have hr : w.result? a = some r := hres.symm.trans hr
  have hj : w.jobOf? a = some j := Reaches.jobOf?_of_result? (.single step) htidy
    (by rw [hr, Option.isSome_some]) hj
  obtain ⟨spec, hspec⟩ := exists_specOf? htidy hr
  obtain ⟨job, hjob, -⟩ := Option.map_eq_some_iff.mp hspec
  rw [hj, Option.bind_some] at hjob
  have hbefore : w.ledger.state j = some job.state := by
    show (w.jobs[j]?).map _ = _
    rw [hjob, Option.map_some]
  rw [hstate _ hbefore] at hs
  cases hs
  exact accords hj r _ hr hbefore

/-- A run that is open had not begun when all runs of its job that had begun were over. -/
theorem Reaches.unbegun {v : Intake} (reach : Reaches v w) (htidy : v.affairs.Tidy)
    (hb : w.jobOf? b = some j) (hopen : w.outcome? b = none)
    (hover : ∀ b, v.jobOf? b = some j → (v.result? b).isSome = true →
      (v.outcome? b).isSome = true) : v.result? b = none := by
  by_contra hbegun
  have hbegun := Option.isSome_iff_ne_none.mpr hbegun
  have hended := Reaches.outcome?_isSome reach htidy hbegun
    (hover b (Reaches.jobOf?_of_result? reach htidy hbegun hb) hbegun)
  rw [hopen] at hended
  cases hended

/-- The state of the job of a run that is alone with it is that of the run. The induction is on what
has happened since nobody ran the job. -/
theorem Alone.accords {origin : Intake} (horigin : origin.affairs.Tidy) (h : Alone origin w a j)
    (hj : w.jobOf? a = some j) : w.ledger.Accords a j := by
  obtain ⟨v, earlier, reach, hnone, hover, hsole⟩ := h
  have htidy : v.affairs.Tidy := (Reaches.course earlier horigin).tidy horigin
  induction reach with
  | refl =>
      intro r s hr
      have hbegun : v.result? a = some r := hr
      rw [hnone] at hbegun
      cases hbegun
  | tail before step ih =>
      rename_i u u'
      have hsole' : ∀ b, b ≠ a → u.jobOf? b = some j → (u.result? b).isSome = true →
          (v.result? b).isSome = true :=
        fun b hb hj hr => hsole b hb (step.jobOf? hj) (step.result?_mono hr)
      have htidy' : u.affairs.Tidy := (Reaches.course before htidy).tidy htidy
      have ih := fun hj => ih hj hsole'
      obtain ⟨b, added | ⟨i, hi, hopen, entries⟩⟩ := step.writes
      · exact step.accords htidy' hj ih (congrFun added.result a) (added.state j)
      · by_cases hba : b = a
        · subst hba
          have hsame : u.jobOf? b = some j := (congrFun entries.job b).symm.trans hj
          rw [hi] at hsame
          cases hsame
          exact entries.accords (ih hi)
        · by_cases hij : j = i
          · -- Another run of the job has not begun, or it had ended before.
            subst hij
            have hunbegun : u'.ledger.result b = none := by
              by_contra hbegun
              have hearly := hsole b hba (step.jobOf? hi) (Option.isSome_iff_ne_none.mpr hbegun)
              rw [Reaches.unbegun before htidy hi hopen hover] at hearly
              cases hearly
            rw [entries.eq_of_result hunbegun]
            refine ih ?_
            rw [← show u'.jobOf? a = u.jobOf? a from congrFun entries.job a]
            exact hj
          · refine step.accords htidy' hj ih (entries.result_of_ne (Ne.symm hba)) fun s hs => ?_
            rw [entries.state_of_ne hij]
            exact hs

/-- A run that is alone with its job shows its state as that of the job. -/
theorem Alone.state_eq {origin : Intake} (h : Alone origin w a j)
    (horigin : origin.affairs.Tidy) (hj : w.jobOf? a = some j) {r : RunResult}
    (hr : w.result? a = some r) {job : Job} (hjob : w.jobs[j]? = some job) :
    job.state = r.state := by
  refine h.accords horigin hj r job.state hr ?_
  show (w.jobs[j]?).map _ = _
  rw [hjob, Option.map_some]

end

end Intake

end FeedIntake
