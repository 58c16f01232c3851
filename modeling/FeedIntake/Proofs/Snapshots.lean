import FeedIntake.Run.Job
import Mathlib.Data.List.Induction

/-! # Commits and the snapshots they leave

What can be asked of a store after a commit, whatever its size: the snapshot of the source committed
is there, and nothing is held that was neither held before nor committed now. A run that meets
identity after identity has met exactly the set that a commit of all of them would hold.
-/

namespace FeedIntake

namespace Snapshots

/-! ## Sets of identities -/

theorem mem_setOf {identities : List String} {x : String} :
    x ∈ setOf identities ↔ x ≠ "" ∧ x ∈ identities := by
  simp [setOf, and_comm]

theorem eraseDups_append_singleton (identities : List String) (x : String) :
    (identities ++ [x]).eraseDups =
      if x ∈ identities then identities.eraseDups else identities.eraseDups ++ [x] := by
  rw [List.eraseDups_append]
  by_cases h : x ∈ identities
  · simp [List.removeAll, h]
  · simp [List.removeAll, h, List.eraseDups_cons]

/-- Identities join the set one by one, as a run notes them. -/
theorem setOf_append_singleton (identities : List String) (x : String) :
    setOf (identities ++ [x]) =
      if x.isEmpty || (setOf identities).contains x then setOf identities
      else setOf identities ++ [x] := by
  unfold setOf
  rw [List.filter_append]
  by_cases hx : x.isEmpty
  · simp [hx]
  · have hone : [x].filter (!·.isEmpty) = [x] := by simp [hx]
    rw [hone, eraseDups_append_singleton]
    simp [hx]

theorem setOf_nodup (identities : List String) : (setOf identities).Nodup := by
  induction identities using List.reverseRecOn with
  | nil => simp [setOf]
  | append_singleton identities x ih =>
      rw [setOf_append_singleton]
      split
      · exact ih
      · rename_i hnew
        have hfresh : x ∉ setOf identities := by
          intro hx
          simp [hx] at hnew
        exact List.nodup_append.mpr ⟨ih, by simp, by
          intro y hy z hz hyz
          rw [List.mem_singleton.mp hz] at hyz
          exact hfresh (hyz ▸ hy)⟩

theorem setOf_setOf (identities : List String) : setOf (setOf identities) = setOf identities := by
  induction identities using List.reverseRecOn with
  | nil => simp [setOf]
  | append_singleton identities x ih =>
      rw [setOf_append_singleton]
      split
      · exact ih
      · rename_i hnew
        rw [setOf_append_singleton, ih, if_neg hnew]

/-! ## The store after a commit -/

theorem lookup_filter_ne (held : List (String × Snapshot)) (source other : String) :
    (held.filter fun h => h.1 != source).lookup other =
      if other = source then none else held.lookup other := by
  induction held with
  | nil => simp
  | cons h rest ih =>
      obtain ⟨key, ids⟩ := h
      by_cases hk : key = source
      · subst hk
        by_cases ho : other = key
        · simpa [ho] using ih
        · simp [ih, ho, List.lookup_cons, beq_false_of_ne ho]
      · by_cases ho : other = key
        · subst ho
          simp [hk]
        · simp [hk, List.lookup_cons, beq_false_of_ne ho, ih]

theorem lookup_renewed (s : Snapshots) (source other : String) (identities : List String) :
    (s.renewed source identities).lookup other =
      if other = source then some (setOf identities) else s.snapshot? other := by
  unfold renewed snapshot?
  rw [List.lookup_append, lookup_filter_ne]
  by_cases h : other = source
  · simp [h]
  · simp [h, List.lookup_cons, beq_false_of_ne h]

/-- A store that remembers all sources changes one snapshot at a time. -/
theorem snapshot?_commit_of_unbounded {s : Snapshots} (h : s.capacity = none)
    (source other : String) (identities : List String) :
    (s.commit source identities).snapshot? other =
      if other = source then some (setOf identities) else s.snapshot? other := by
  have hheld : (s.commit source identities).held = s.renewed source identities := by
    simp [commit, surplus, h]
  rw [snapshot?, hheld, lookup_renewed]

/-- There is room for one source at least, so the youngest is never among those forgotten. -/
theorem surplus_le_pred (s : Snapshots) (count : Nat) : s.surplus count ≤ count - 1 := by
  unfold surplus
  cases h : s.capacity with
  | none => exact Nat.zero_le _
  | some k =>
      have hk := s.capacity_pos k h
      show count - k ≤ count - 1
      omega

theorem snapshot?_commit_self (s : Snapshots) (source : String) (identities : List String) :
    (s.commit source identities).snapshot? source = some (setOf identities) := by
  have hlen : s.surplus (s.renewed source identities).length ≤
      (s.held.filter fun h => h.1 != source).length := by
    have h := s.surplus_le_pred (s.renewed source identities).length
    simpa [renewed] using h
  have hnone : ((s.held.filter fun h => h.1 != source).drop
      (s.surplus (s.renewed source identities).length)).lookup source = none := by
    refine List.Sublist.lookup_eq_none (List.drop_sublist _ _) ?_
    rw [lookup_filter_ne, if_pos rfl]
  show ((s.renewed source identities).drop _).lookup source = _
  rw [show s.renewed source identities =
    (s.held.filter fun h => h.1 != source) ++ [(source, setOf identities)] from rfl] at hlen hnone ⊢
  rw [List.drop_append_of_le_length hlen, List.lookup_append, hnone]
  simp

theorem mem_held_commit {s : Snapshots} {source : String} {identities : List String}
    {h : String × Snapshot} (hmem : h ∈ (s.commit source identities).held) :
    h ∈ s.held ∨ h = (source, setOf identities) := by
  have hren : h ∈ s.renewed source identities := List.mem_of_mem_drop hmem
  rcases List.mem_append.mp hren with hold | hnew
  · exact .inl (List.mem_filter.mp hold).1
  · exact .inr (List.mem_singleton.mp hnew)

theorem mem_held_of_snapshot? {s : Snapshots} {source : String} {ids : Snapshot}
    (h : s.snapshot? source = some ids) : (source, ids) ∈ s.held := by
  obtain ⟨before, after, heq, -⟩ := List.lookup_eq_some_iff.mp h
  rw [heq]
  exact List.mem_append_right _ List.mem_cons_self

theorem seenBefore_iff {s : Snapshots} {source identity : String} :
    s.seenBefore source identity = true ↔
      identity ≠ "" ∧ ∃ ids, s.snapshot? source = some ids ∧ identity ∈ ids := by
  unfold seenBefore
  cases h : s.snapshot? source <;> simp

theorem seenBefore_congr {s t : Snapshots} {source : String}
    (h : s.snapshot? source = t.snapshot? source) (identity : String) :
    s.seenBefore source identity = t.seenBefore source identity := by
  unfold seenBefore
  rw [h]

end Snapshots

/-! ## Judging against a store -/

namespace JobSpec

theorem judge_congr {spec : JobSpec} {s t : Snapshots}
    (h : s.snapshot? spec.source = t.snapshot? spec.source) (record : Record) :
    spec.judge s record = spec.judge t record := by
  unfold judge
  rw [Snapshots.seenBefore_congr h]

theorem judge_eq_repeated {spec : JobSpec} {s : Snapshots} {record : Record} :
    spec.judge s record = .repeated ↔
      record.publishedAt.passes spec.since = true ∧ spec.perpetual = true ∧
        s.seenBefore spec.source record.identity = true := by
  unfold judge
  cases record.publishedAt.passes spec.since <;> simp

end JobSpec

/-! ## Meeting identities -/

namespace RunResult

theorem meet_seen_of_setOf {r : RunResult} {identities : List String}
    (h : r.seen = Snapshots.setOf identities) (x : String) :
    (r.meet x).seen = Snapshots.setOf (identities ++ [x]) := by
  rw [Snapshots.setOf_append_singleton, meet, h]
  split
  · exact h
  · rfl

end RunResult

end FeedIntake
