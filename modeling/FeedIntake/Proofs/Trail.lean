import FeedIntake.Proofs.Entries
import FeedIntake.Proofs.History

/-! # The trail of a run

The records that a run is through with, in their order, each with its verdict. The deeds of the run
and its figures follow from the trail. A record that was admitted and is not yet in the queue is met
but not part of the trail: it counts for the identities and the unusable dates, and not among those
published.
-/

namespace FeedIntake

abbrev Trail := List (Record × Verdict)

namespace Trail

def records (trail : Trail) : List Record := trail.map (·.1)

def admitted (trail : Trail) : List Record := (trail.filter (·.2 = .admitted)).map (·.1)

def count (trail : Trail) (verdict : Verdict) : Nat := trail.countP (·.2 = verdict)

def deedsAbout (judgement : Record × Verdict) : List Deed :=
  if judgement.2 = .admitted then [.judged judgement.1 judgement.2, .put judgement.1]
  else [.judged judgement.1 judgement.2]

def deeds (trail : Trail) : List Deed := trail.flatMap deedsAbout

theorem records_concat (trail : Trail) (record : Record) (verdict : Verdict) :
    records (trail ++ [(record, verdict)]) = trail.records ++ [record] := by
  simp [records]

theorem length_records (trail : Trail) : trail.records.length = trail.length := by
  simp [records]

theorem deeds_concat (trail : Trail) (judgement : Record × Verdict) :
    deeds (trail ++ [judgement]) = trail.deeds ++ deedsAbout judgement := by
  simp [deeds]

theorem judged_mem_deeds {trail : Trail} {record : Record} {verdict : Verdict}
    (h : (record, verdict) ∈ trail) : .judged record verdict ∈ trail.deeds := by
  refine List.mem_flatMap.mpr ⟨_, h, ?_⟩
  cases verdict <;> simp [deedsAbout]

theorem count_concat (trail : Trail) (record : Record) (given asked : Verdict) :
    count (trail ++ [(record, given)]) asked =
      trail.count asked + if given = asked then 1 else 0 := by
  simp [count, List.countP_append, List.countP_singleton]

theorem length_admitted (trail : Trail) : trail.admitted.length = trail.count .admitted := by
  simp [admitted, count, List.countP_eq_length_filter]

/-- Every record of a trail is in one of three classes. -/
theorem count_add_count_add_count (trail : Trail) :
    trail.count .admitted + trail.count .tooOld + trail.count .repeated = trail.length := by
  unfold count
  induction trail with
  | nil => rfl
  | cons judgement trail ih =>
      obtain ⟨record, verdict⟩ := judgement
      cases verdict <;> simp <;> omega

theorem filterMap_recordPut?_deeds (trail : Trail) :
    trail.deeds.filterMap Deed.recordPut? = trail.admitted := by
  induction trail with
  | nil => rfl
  | cons judgement trail ih =>
      obtain ⟨record, verdict⟩ := judgement
      rw [deeds, List.flatMap_cons, List.filterMap_append, ← deeds, ih]
      cases verdict <;> rfl

theorem filterMap_judgement?_deeds (trail : Trail) :
    trail.deeds.filterMap Deed.judgement? = trail := by
  induction trail with
  | nil => rfl
  | cons judgement trail ih =>
      obtain ⟨record, verdict⟩ := judgement
      rw [deeds, List.flatMap_cons, List.filterMap_append, ← deeds, ih]
      cases verdict <;> rfl

theorem filterMap_identitiesCommitted?_deeds (trail : Trail) :
    trail.deeds.filterMap Deed.identitiesCommitted? = [] := by
  induction trail with
  | nil => rfl
  | cons judgement trail ih =>
      obtain ⟨record, verdict⟩ := judgement
      rw [deeds, List.flatMap_cons, List.filterMap_append, ← deeds, ih]
      cases verdict <;> rfl

end Trail

namespace RunResult

theorem meet_eq (r : RunResult) (x : String) : r.meet x = { r with seen := (r.meet x).seen } := by
  unfold meet
  split <;> rfl

theorem examine_eq (r : RunResult) (record : Record) (verdict : Verdict) :
    r.examine record verdict =
      { r with
        seen := (r.meet record.identity).seen
        undated := r.undated + if record.publishedAt.isFallback then 1 else 0
        tooOld := r.tooOld + if verdict = .tooOld then 1 else 0
        repeated := r.repeated + if verdict = .repeated then 1 else 0 } := by
  unfold examine
  rw [meet_eq]
  cases verdict <;> cases record.publishedAt.isFallback <;> rfl

end RunResult

@[simp] theorem RunResult.success_fail (r : RunResult) (error : String) (now : Time.DateTime) :
    (r.fail error now).success = false := by
  simp [RunResult.success, RunResult.failed, RunResult.fail, RunResult.finish, RunResult.enter]

@[simp] theorem RunResult.success_cancel (r : RunResult) (now : Time.DateTime) :
    (r.cancel now).success = false := RunResult.success_fail _ _ _

@[simp] theorem RunResult.success_refuse (r : RunResult) (f : Failure) (now : Time.DateTime) :
    (r.refuse f now).success = false := RunResult.success_fail _ _ _

/-- The figures of a run that goes on: what it is through with and what it has met. -/
structure Tally (r : RunResult) (fetched : Nat) (trail : Trail) (met : List Record) : Prop where
  fetched : r.fetched = fetched
  published : r.published = trail.count .admitted
  tooOld : r.tooOld = trail.count .tooOld
  repeated : r.repeated = trail.count .repeated
  undated : r.undated = met.countP (·.publishedAt.isFallback)
  seen : r.seen = Snapshots.setOf (met.map (·.identity))
  error : r.error = none
  cancelled : r.cancelled = false
  committed : r.committed = false
  states : r.states = [.fetching, .processing]
  state : r.state = .processing

namespace Tally

variable {r : RunResult} {n : Nat} {trail : Trail} {met : List Record}

theorem begun (spec : JobSpec) (now : Time.DateTime) (n : Nat) :
    Tally ((spec.begun now).takeUp n) n [] [] :=
  ⟨rfl, rfl, rfl, rfl, rfl, rfl, rfl, rfl, rfl, rfl, rfl⟩

theorem reject (h : Tally r n trail met) (record : Record) {verdict : Verdict}
    (hv : verdict ≠ .admitted) :
    Tally (r.examine record verdict) n (trail ++ [(record, verdict)]) (met ++ [record]) := by
  rw [RunResult.examine_eq]
  exact {
    fetched := h.fetched
    published := by rw [Trail.count_concat, if_neg hv]; exact h.published
    tooOld := by rw [Trail.count_concat, ← h.tooOld]
    repeated := by rw [Trail.count_concat, ← h.repeated]
    undated := by rw [List.countP_append, List.countP_singleton, ← h.undated]
    seen := by rw [List.map_append]; exact RunResult.meet_seen_of_setOf h.seen _
    error := h.error
    cancelled := h.cancelled
    committed := h.committed
    states := h.states
    state := h.state }

theorem offer (h : Tally r n trail met) (record : Record) :
    Tally (r.examine record .admitted) n trail (met ++ [record]) := by
  rw [RunResult.examine_eq]
  exact {
    fetched := h.fetched
    published := h.published
    tooOld := h.tooOld
    repeated := h.repeated
    undated := by rw [List.countP_append, List.countP_singleton, ← h.undated]
    seen := by rw [List.map_append]; exact RunResult.meet_seen_of_setOf h.seen _
    error := h.error
    cancelled := h.cancelled
    committed := h.committed
    states := h.states
    state := h.state }

theorem publish (h : Tally r n trail met) (record : Record) :
    Tally r.publish n (trail ++ [(record, .admitted)]) met where
  fetched := h.fetched
  published := by rw [Trail.count_concat, ← h.published]; rfl
  tooOld := by rw [Trail.count_concat]; exact h.tooOld
  repeated := by rw [Trail.count_concat]; exact h.repeated
  undated := h.undated
  seen := h.seen
  error := h.error
  cancelled := h.cancelled
  committed := h.committed
  states := h.states
  state := h.state

theorem sum (h : Tally r n trail met) : r.published + r.tooOld + r.repeated = trail.length := by
  rw [h.published, h.tooOld, h.repeated, Trail.count_add_count_add_count]

theorem success (h : Tally r n trail met) : r.success = false := by
  simp [RunResult.success, h.state]

theorem success_conclude (h : Tally r n trail met) (committed : Bool) (now : Time.DateTime) :
    (r.conclude committed now).success = true := by
  simp [RunResult.success, RunResult.failed, RunResult.conclude, RunResult.finish, RunResult.enter,
    h.states]

end Tally

end FeedIntake
