import FeedIntake.Proofs.Motions

/-! # What runs ask

A run asks as it begins, and never again: those who have prepared its answer for its entries, or the
network for a feed. Whatever else it does until it ends, it asks nobody.
-/

namespace FeedIntake

open Intake

namespace Supplier

/-- The fetch of a run of a job from those who have prepared their answers. -/
def fetchFor (s : SupplierId) (spec : JobSpec) : Supplier → List (SupplierId × String × Int)
  | prepared _ => [(s, spec.source, spec.timeoutMs)]
  | network _ => []

/-- The request that a run of a job makes if there is a network to ask, and a URL. -/
def requestFor (spec : JobSpec) : Supplier → List WebRequest
  | prepared _ => []
  | network fetcher =>
      match Fetcher.target (.text spec.source) with
      | .error _ => []
      | .ok url => [fetcher.request url spec.timeoutMs]

end Supplier

namespace Intake

def asked (w : Intake) : List (SupplierId × String × Int) × List WebRequest :=
  (w.fetches, w.requests)

/-- Somebody asks what a run of its job is to ask. -/
def Asks (a : ActivityId) (w w' : Intake) : Prop :=
  ∃ j spec s supplier, w.jobOf? a = some j ∧ w.jobSpecs[j]? = some (spec, s) ∧
    w.suppliers[s]? = some supplier ∧
    w'.asked = (w.fetches ++ supplier.fetchFor s spec, w.requests ++ supplier.requestFor spec)

section

variable (w : Intake) (a : ActivityId) (spec : JobSpec) (r : RunResult)

/-! ## Where nobody is asked -/

@[simp] theorem asked_log (entries : List LogEntry) : (w.log entries).asked = w.asked := rfl

@[simp] theorem asked_tell (e : Event) : (w.tell e).asked = w.asked := rfl

@[simp] theorem asked_keep : (w.keep a r).asked = w.asked := rfl

@[simp] theorem asked_wakeAny (someone : Option ActivityId) :
    (w.wakeAny someone).asked = w.asked := by
  cases someone <;> rfl

@[simp] theorem asked_withQueue (q : RecordQueue × Option ActivityId) :
    (w.withQueue q).asked = w.asked := asked_wakeAny _ q.2

@[simp] theorem asked_withPermits (r : RoundId) (p : Permits × Option ActivityId) :
    (w.withPermits r p).asked = w.asked := asked_wakeAny _ p.2

@[simp] theorem asked_close (outcome : RunOutcome) : (w.close a outcome).asked = w.asked := by
  unfold close
  dsimp only
  split <;> rfl

@[simp] theorem asked_endRun (outcome : RunOutcome) : (w.endRun a outcome).asked = w.asked := by
  unfold endRun release
  split
  · split
    · rw [asked_close, asked_withPermits]
    · exact asked_close w a outcome
  · exact asked_close w a outcome

@[simp] theorem asked_advance : (w.advance a r).asked = w.asked := by
  unfold advance
  dsimp only
  split <;> rfl

@[simp] theorem asked_put (record : Record) : (w.put a spec record).asked = w.asked :=
  asked_withQueue w _

@[simp] theorem asked_cancelRun : (w.cancelRun a spec r).asked = w.asked := by
  unfold cancelRun
  simp

@[simp] theorem asked_failFetch (f : Failure) : (w.failFetch a spec r f).asked = w.asked := by
  unfold failFetch
  simp

@[simp] theorem asked_breakOff (fault : Fault) : (w.breakOff a spec r fault).asked = w.asked := by
  unfold breakOff
  split <;> simp

@[simp] theorem asked_complete : (w.complete a spec r).asked = w.asked := by
  unfold complete
  split
  · simp
    rfl
  · simp

@[simp] theorem asked_process (entries : List Entry) :
    (w.process a spec r entries).asked = w.asked := by
  induction entries generalizing w r with
  | nil => exact asked_complete w a spec r
  | cons e rest ih =>
      unfold process
      split
      · exact asked_breakOff w a spec r _
      · dsimp only
        split
        · rw [ih, asked_tell, asked_log]
        · split
          · rw [asked_breakOff, asked_tell, asked_log]
          · split
            · rfl
            · rw [ih, asked_put]
              rfl

@[simp] theorem asked_resumePut (record : Record) (rest : List Entry) :
    (w.resumePut a spec r record rest).asked = w.asked := by
  unfold resumePut
  split
  · rfl
  · rw [asked_process, asked_put]

@[simp] theorem asked_deliver (given : Except Fault (List Entry)) :
    (w.deliver a spec r given).asked = w.asked := by
  unfold deliver
  split
  · simp
  · split
    · split <;> simp
    · split <;> simp

@[simp] theorem asked_receive (url : String) (response : Response) :
    (w.receive a spec r url response).asked = w.asked := asked_deliver (w.log _) a spec r _

theorem asked_ask (answers : List (String × Answer)) :
    (w.ask a spec r answers).asked = w.asked := by
  unfold ask
  dsimp only
  split
  · rfl
  · exact asked_deliver w a spec r _

@[simp] theorem asked_note (r : RoundId) : (w.note r).asked = w.asked := by
  unfold note
  dsimp only
  split
  · rfl
  · split <;> rfl

@[simp] theorem asked_openGate (source : String) : (w.openGate source).asked = w.asked :=
  openGate_induction (P := fun v => v.asked = w.asked) source (fun _ _ => rfl) fun _ _ hv => hv

/-! ## Where somebody is -/

theorem asked_request (fetcher : Fetcher) : (w.request a spec r fetcher).asked =
    (w.fetches, w.requests ++ (Supplier.network fetcher).requestFor spec) := by
  have hrequest : (Supplier.network fetcher).requestFor spec =
      match Fetcher.target (.text spec.source) with
      | .error _ => []
      | .ok url => [fetcher.request url spec.timeoutMs] := rfl
  rw [hrequest]
  unfold request
  cases Fetcher.target (.text spec.source) with
  | error failure =>
      dsimp only
      rw [asked_deliver, List.append_nil]
      rfl
  | ok url => rfl

theorem asked_fetch (j : JobId) (job : Job) (supplier : Supplier) :
    (w.fetch a j job supplier).asked = (w.fetches ++ supplier.fetchFor job.supplier job.spec,
      w.requests ++ supplier.requestFor job.spec) := by
  have hasked : ((w.onJob j fun job => { job with latest := some a }).advance a
      (job.spec.begun w.now)).asked = w.asked := asked_advance _ a _
  obtain ⟨hfetches, hrequests⟩ := Prod.mk.inj hasked
  unfold fetch
  cases supplier with
  | prepared answers =>
      refine (asked_ask _ a job.spec _ answers).trans ?_
      rw [asked, hfetches, hrequests]
      simp [Supplier.fetchFor, Supplier.requestFor]
  | network fetcher =>
      refine (asked_request _ a job.spec _ fetcher).trans ?_
      rw [hfetches, hrequests]
      simp [Supplier.fetchFor]

variable {w a}

theorem beginRun_asks {j : JobId} (hj : w.jobOf? a = some j)
    (hanswers : (w.answer? a).isSome = true) : Asks a w (w.beginRun a j) := by
  rw [jobOf?_eq] at hj
  rw [answer?, hj, Option.bind_some, jobSpecs, List.getElem?_map] at hanswers
  rw [← jobOf?_eq] at hj
  cases hjob : w.jobs[j]? with
  | none => simp [hjob] at hanswers
  | some job =>
      cases hsupplier : w.suppliers[job.supplier]? with
      | none => simp [hjob, hsupplier] at hanswers
      | some supplier =>
          refine ⟨j, job.spec, job.supplier, supplier, hj, ?_, hsupplier, ?_⟩
          · rw [jobSpecs, List.getElem?_map, hjob, Option.map_some]
          · rw [beginRun, hjob]
            dsimp only
            rw [hsupplier]
            exact asked_fetch w a j job supplier

end

end Intake

end FeedIntake
