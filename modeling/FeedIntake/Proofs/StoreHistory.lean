import FeedIntake.Proofs.Snapshots
import Mathlib.Data.List.Dedup
import Mathlib.Data.List.DropRight

/-! # A store and all that was published to it

A store keeps one ordered list and forgets the rest. The law below speaks of everything that was
published since the store was last cleared: the sources held are the distinct ones among them, each
at the place of its last publication, and of these the youngest for which there is room. What is
held for a source is the set that was published for it last.
-/

namespace FeedIntake

/-! ## The last elements of a list -/

/-- The last elements of a list, as many as there is room for. -/
def youngest {α : Type} (capacity : Option Nat) (l : List α) : List α :=
  match capacity with
  | some k => l.rtake k
  | none => l

section

variable {α : Type}

theorem rtake_append_of_le {k : Nat} (older l : List α) (h : k ≤ l.length) :
    (older ++ l).rtake k = l.rtake k := by
  have hsplit : (older ++ l).length - k = older.length + (l.length - k) := by
    rw [List.length_append]
    omega
  rw [List.rtake, hsplit, List.drop_append, List.drop_eq_nil_of_le (by omega), List.nil_append,
    Nat.add_sub_cancel_left, List.rtake]

theorem length_youngest_le {capacity : Option Nat} {k : Nat} (h : capacity = some k)
    (l : List α) : (youngest capacity l).length ≤ k := by
  rw [h]
  show (l.drop (l.length - k)).length ≤ k
  rw [List.length_drop]
  omega

theorem youngest_sublist (capacity : Option Nat) (l : List α) :
    (youngest capacity l).Sublist l := by
  cases capacity with
  | none => exact List.Sublist.refl l
  | some k => exact List.drop_sublist _ l

variable [DecidableEq α]

theorem length_le_length_filter_ne_add_one {l : List α} (h : l.Nodup) (x : α) :
    l.length ≤ (l.filter (· != x)).length + 1 := by
  have hcount : l.count x ≤ 1 := List.nodup_iff_count_le_one.mp h x
  have hsum := List.length_eq_length_filter_add (l := l) (· != x)
  have hrest : (l.filter fun y => !(y != x)).length = l.count x := by
    rw [List.count_eq_length_filter]
    congr 2
    funext y
    exact Bool.not_not _
  omega

/-- To move an element to the end of the youngest ones, or to add it there, gives the youngest
ones of the whole list treated in the same way. -/
theorem youngest_renew (capacity : Option Nat) {l : List α} (h : l.Nodup) (x : α) :
    youngest capacity ((youngest capacity l).filter (· != x) ++ [x]) =
      youngest capacity (l.filter (· != x) ++ [x]) := by
  cases capacity with
  | none => rfl
  | some k =>
      show ((l.rtake k).filter (· != x) ++ [x]).rtake k = (l.filter (· != x) ++ [x]).rtake k
      by_cases hk : l.length ≤ k
      · have hall : l.rtake k = l := by
          rw [List.rtake, Nat.sub_eq_zero_of_le hk, List.drop_zero]
        rw [hall]
      · -- What is beyond the youngest ones is behind enough others to be beyond them still.
        have hsplit : l = l.take (l.length - k) ++ l.rtake k := (List.take_append_drop _ l).symm
        have hlength : (l.rtake k).length = k := by
          rw [List.rtake, List.length_drop]
          omega
        have hroom := length_le_length_filter_ne_add_one
          (List.Nodup.sublist (List.drop_sublist _ l) h : (l.rtake k).Nodup) x
        conv_rhs => rw [hsplit, List.filter_append, List.append_assoc]
        refine (rtake_append_of_le _ _ ?_).symm
        rw [List.length_append, List.length_singleton]
        omega

/-- Something that comes again moves from its old place to the end. -/
theorem dedup_append_singleton (l : List α) (x : α) :
    (l ++ [x]).dedup = l.dedup.filter (· != x) ++ [x] := by
  induction l with
  | nil => rfl
  | cons y l ih =>
      rw [List.cons_append, List.dedup_cons, List.dedup_cons, ih]
      by_cases hy : y ∈ l
      · rw [if_pos (List.mem_append_left _ hy), if_pos hy]
      · by_cases hx : y = x
        · subst hx
          simp [hy]
        · simp [hy, hx]

end

namespace Snapshots

/-! ## Sources after a commit -/

/-- The source committed is the youngest, and the others keep their order. -/
theorem sources_commit (s : Snapshots) (source : String) (identities : List String) :
    (s.commit source identities).sources =
      youngest s.capacity (s.sources.filter (· != source) ++ [source]) := by
  have hrenewed : (s.renewed source identities).map (·.1) =
      s.sources.filter (· != source) ++ [source] := by
    simp [renewed, sources, List.filter_map, Function.comp_def]
  have hlength : (s.renewed source identities).length =
      (s.sources.filter (· != source) ++ [source]).length := by
    rw [← hrenewed, List.length_map]
  show ((s.renewed source identities).drop _).map (·.1) = _
  rw [List.map_drop, hrenewed, hlength]
  unfold surplus youngest
  cases s.capacity <;> rfl

theorem evicted_append_sources (s : Snapshots) (source : String) (identities : List String) :
    s.evicted source identities ++ (s.commit source identities).sources =
      s.sources.filter (· != source) ++ [source] := by
  have hrenewed : (s.renewed source identities).map (·.1) =
      s.sources.filter (· != source) ++ [source] := by
    simp [renewed, sources, List.filter_map, Function.comp_def]
  rw [← hrenewed]
  show ((s.renewed source identities).take _).map (·.1) ++
    ((s.renewed source identities).drop _).map (·.1) = _
  rw [← List.map_append, List.take_append_drop]

theorem mem_sources_iff {s : Snapshots} {source : String} :
    source ∈ s.sources ↔ ∃ ids, s.snapshot? source = some ids := by
  constructor
  · intro hmem
    obtain ⟨h, hheld, rfl⟩ := List.mem_map.mp hmem
    cases hlookup : s.held.lookup h.1 with
    | some ids => exact ⟨ids, hlookup⟩
    | none =>
        have hne := List.lookup_eq_none_iff.mp hlookup h hheld
        simp at hne
  · rintro ⟨ids, hsome⟩
    exact List.mem_map.mpr ⟨_, mem_held_of_snapshot? hsome, rfl⟩

theorem mem_sources_commit_self (s : Snapshots) (source : String) (identities : List String) :
    source ∈ (s.commit source identities).sources :=
  mem_sources_iff.mpr ⟨_, snapshot?_commit_self s source identities⟩

/-- A source that is held makes no other one leave when it is committed again. -/
theorem evicted_eq_nil {s : Snapshots} (hsize : ∀ k, s.capacity = some k → s.size ≤ k)
    {source : String} (hmem : source ∈ s.sources) (identities : List String) :
    s.evicted source identities = [] := by
  have hshorter : (s.held.filter fun h => h.1 != source).length < s.held.length := by
    obtain ⟨h, hheld, rfl⟩ := List.mem_map.mp hmem
    refine List.length_filter_lt_length_iff_exists.mpr ⟨h, hheld, ?_⟩
    simp
  have hnone : s.surplus (s.renewed source identities).length = 0 := by
    unfold surplus
    cases hcap : s.capacity with
    | none => rfl
    | some k =>
        have hk := hsize k hcap
        unfold size at hk
        simp only [renewed, List.length_append, List.length_singleton]
        omega
  show ((s.renewed source identities).take _).map (·.1) = []
  rw [hnone]
  rfl

/-! ## Stores and their histories -/

/-- What may be done to a store. -/
inductive Operation where
  | publish (source : String) (identities : List String)
  | clear

def perform (s : Snapshots) : Operation → Snapshots
  | .publish source identities => s.commit source identities
  | .clear => s.clear

def after (s : Snapshots) (operations : List Operation) : Snapshots := operations.foldl perform s

def noted (published : List (String × List String)) : Operation → List (String × List String)
  | .publish source identities => published ++ [(source, identities)]
  | .clear => []

/-- What was published since the store was last cleared, in the order in which it was. -/
def published (operations : List Operation) : List (String × List String) :=
  operations.foldl noted []

/-- The store holds the youngest distinct sources, each with the set published for it last. -/
structure Mirrors (s : Snapshots) (published : List (String × List String)) : Prop where
  sources : s.sources = youngest s.capacity (published.map (·.1)).dedup
  held : ∀ h ∈ s.held, ∃ ids, published.reverse.lookup h.1 = some ids ∧ h.2 = setOf ids

namespace Mirrors

variable {s : Snapshots} {published : List (String × List String)}

theorem empty (h : s.held = []) : s.Mirrors [] where
  sources := by
    rw [Snapshots.sources, h]
    unfold youngest
    cases s.capacity <;> simp
  held := by simp [h]

theorem commit (h : s.Mirrors published) (source : String) (identities : List String) :
    (s.commit source identities).Mirrors (published ++ [(source, identities)]) where
  sources := by
    have hnodup := List.nodup_dedup (published.map (·.1))
    rw [sources_commit, h.sources, youngest_renew s.capacity hnodup, List.map_append,
      List.map_cons, List.map_nil, dedup_append_singleton]
    rfl
  held := by
    intro entry hmem
    rw [List.reverse_append]
    rcases List.mem_append.mp (List.mem_of_mem_drop hmem) with hold | hnew
    · -- Others keep what they had, and it was not published for this source.
      obtain ⟨hentry, hne⟩ := List.mem_filter.mp hold
      obtain ⟨ids, hlookup, hids⟩ := h.held entry hentry
      have hother : entry.1 ≠ source := by simpa using hne
      refine ⟨ids, ?_, hids⟩
      simp [List.lookup_cons, beq_false_of_ne hother, hlookup]
    · rw [List.mem_singleton] at hnew
      subst hnew
      exact ⟨identities, by simp, rfl⟩

theorem perform (h : s.Mirrors published) (operation : Operation) :
    (s.perform operation).Mirrors (noted published operation) := by
  cases operation with
  | publish source identities => exact h.commit source identities
  | clear => exact .empty rfl

theorem nodup (h : s.Mirrors published) : s.sources.Nodup := by
  rw [h.sources]
  exact (List.nodup_dedup _).sublist (youngest_sublist _ _)

theorem size_le (h : s.Mirrors published) (k : Nat) (hk : s.capacity = some k) : s.size ≤ k := by
  have hlength : s.size = s.sources.length := (List.length_map _).symm
  rw [hlength, h.sources]
  exact length_youngest_le hk _

end Mirrors

theorem mirrors_after {s : Snapshots} (hempty : s.held = []) (operations : List Operation) :
    (s.after operations).Mirrors (published operations) := by
  induction operations using List.reverseRecOn with
  | nil => exact .empty hempty
  | append_singleton operations operation ih =>
      rw [after, published, List.foldl_append, List.foldl_append]
      exact ih.perform operation

theorem capacity_after (s : Snapshots) (operations : List Operation) :
    (s.after operations).capacity = s.capacity := by
  induction operations using List.reverseRecOn with
  | nil => rfl
  | append_singleton operations operation ih =>
      rw [after, List.foldl_append, ← ih]
      cases operation <;> rfl

/-- What a store of the given capacity tells of all that was published to it. -/
structure Recalls (s : Snapshots) (capacity : Option Nat)
    (published : List (String × List String)) : Prop where
  capacity_eq : s.capacity = capacity
  nodup : s.sources.Nodup
  /-- Distinct sources in the order of their last publication, the youngest for which there is
  room. -/
  sources : s.sources = youngest capacity (published.map (·.1)).dedup
  size_le : ∀ k, capacity = some k → s.size ≤ k
  snapshot : ∀ source ∈ s.sources, ∃ last ids, published.reverse.lookup source = some last ∧
    s.snapshot? source = some ids ∧ ids.Nodup ∧ ∀ x, x ∈ ids ↔ x ≠ "" ∧ x ∈ last
  snapshot_none : ∀ source, source ∉ s.sources → s.snapshot? source = none
  seenBefore_iff : ∀ source identity, s.seenBefore source identity = true ↔
    identity ≠ "" ∧ ∃ ids, s.snapshot? source = some ids ∧ identity ∈ ids
  /-- A commit makes its source the youngest, and forgets no more than is said to be evicted. -/
  evicted_append : ∀ source identities, s.evicted source identities ++
    (s.commit source identities).sources = s.sources.filter (· != source) ++ [source]
  committed_not_evicted : ∀ source identities, source ∉ s.evicted source identities ∧
    source ∈ (s.commit source identities).sources
  held_evicts_none : ∀ source ∈ s.sources, ∀ identities, s.evicted source identities = []

theorem Mirrors.recalls {s : Snapshots} {published : List (String × List String)}
    (h : s.Mirrors published) : s.Recalls s.capacity published where
  capacity_eq := rfl
  nodup := h.nodup
  sources := h.sources
  size_le := h.size_le
  snapshot := by
    intro source hmem
    obtain ⟨ids, hsnapshot⟩ := mem_sources_iff.mp hmem
    obtain ⟨last, hlast, hids⟩ := h.held _ (mem_held_of_snapshot? hsnapshot)
    refine ⟨last, ids, hlast, hsnapshot, ?_, ?_⟩
    · rw [show ids = setOf last from hids]
      exact setOf_nodup last
    · intro x
      rw [show ids = setOf last from hids, mem_setOf]
  snapshot_none := by
    intro source hout
    cases hsnapshot : s.snapshot? source with
    | none => rfl
    | some ids => exact absurd (mem_sources_iff.mpr ⟨ids, hsnapshot⟩) hout
  seenBefore_iff := fun _ _ => Snapshots.seenBefore_iff
  evicted_append := s.evicted_append_sources
  committed_not_evicted := by
    intro source identities
    have hself := s.mem_sources_commit_self source identities
    have hparts := s.evicted_append_sources source identities
    have hnodup : (s.sources.filter (· != source) ++ [source]).Nodup := by
      refine List.nodup_append.mpr ⟨h.nodup.filter _, List.nodup_singleton _, ?_⟩
      intro x hx y hy hxy
      rw [List.mem_singleton] at hy
      simp [hxy, hy] at hx
    rw [← hparts] at hnodup
    refine ⟨fun hevicted => ?_, hself⟩
    exact (List.nodup_append.mp hnodup).2.2 source hevicted source hself rfl
  held_evicts_none := fun _ hmem identities => evicted_eq_nil h.size_le hmem identities

/-- Whatever is published to a new store, and however often it is cleared, it holds the last set of
each of the sources published last. -/
theorem store_recalls_published (maxSources : Option Int)
    (hpos : ∀ n, maxSources = some n → 1 ≤ n) :
    ∃ start, new? maxSources = .ok start ∧ ∀ operations : List Operation,
      (start.after operations).Recalls (maxSources.map Int.toNat) (published operations) := by
  obtain ⟨start, hnew, hempty, hcap⟩ : ∃ start, new? maxSources = .ok start ∧ start.held = [] ∧
      start.capacity = maxSources.map Int.toNat := by
    cases maxSources with
    | none => exact ⟨unbounded, rfl, rfl, rfl⟩
    | some n =>
        have hn : 0 < n := hpos n rfl
        exact ⟨bounded n.toNat (by omega), by simp [new?, hn], rfl, rfl⟩
  refine ⟨start, hnew, fun operations => ?_⟩
  have recalls := (mirrors_after hempty operations).recalls
  rw [capacity_after, hcap] at recalls
  exact recalls

/-- A store with room for two sources. A source published again is not the one that the third one
drives out. -/
theorem store_recalls_published_two : ∃ start, new? (some 2) = .ok start ∧
    (start.after [.publish "a" ["x"], .publish "b" ["", "y"], .publish "a" ["z", "", "z"],
      .publish "c" ["x"]]).Recalls (some 2)
        [("a", ["x"]), ("b", ["", "y"]), ("a", ["z", "", "z"]), ("c", ["x"])] := by
  obtain ⟨start, hnew, recalls⟩ := store_recalls_published (some 2) (by
    intro n hn
    cases hn
    decide)
  exact ⟨start, hnew, recalls _⟩

end Snapshots

end FeedIntake
