import FeedIntake.Proofs.History
import Mathlib.Data.List.Perm.Subperm

/-! # What a store retains

A store that has room for some sources keeps them all, as long as nobody commits for any other: each
commit makes its source the youngest, and so those that have to go are older than all of them. Once
each of the sources was committed none of them is ever forgotten.
-/

namespace FeedIntake

namespace Snapshots

/-- Behind all others the store holds some of the given sources, each once and with the snapshot
that is known for it. -/
structure Layered (sources : List String) (known : String → Snapshot)
    (older younger : List (String × Snapshot)) : Prop where
  nodup : (younger.map (·.1)).Nodup
  among : ∀ h ∈ younger, h.1 ∈ sources ∧ h.2 = known h.1
  apart : ∀ h ∈ older, h.1 ∉ younger.map (·.1)

/-- Those of the given sources of which it is said that they were committed are held, and younger
than any other. -/
def Retains (s : Snapshots) (sources : List String) (known : String → Snapshot)
    (committed : String → Prop) : Prop :=
  ∃ older younger, s.held = older ++ younger ∧ Layered sources known older younger ∧
    ∀ source, committed source → source ∈ younger.map (·.1)

section

variable {s : Snapshots} {sources : List String} {known : String → Snapshot}
  {committed : String → Prop} {older younger : List (String × Snapshot)} {source : String}
  {identities : List String}

theorem Layered.length_le (h : Layered sources known older younger) :
    younger.length ≤ sources.length := by
  rw [← List.length_map (·.1)]
  refine (List.Nodup.subperm h.nodup fun x hx => ?_).length_le
  obtain ⟨entry, hentry, rfl⟩ := List.mem_map.mp hx
  exact (h.among entry hentry).1

/-- A source that is committed moves behind all others. -/
theorem Layered.renew (h : Layered sources known older younger) (hmem : source ∈ sources) :
    Layered sources known (older.filter fun e => e.1 != source)
      ((younger.filter fun e => e.1 != source) ++ [(source, known source)]) where
  nodup := by
    rw [List.map_append]
    refine List.nodup_append.mpr ⟨h.nodup.sublist (List.filter_sublist.map _), by simp, ?_⟩
    intro x hx y hy hxy
    obtain ⟨entry, hentry, rfl⟩ := List.mem_map.mp hx
    have hne := (List.mem_filter.mp hentry).2
    rw [hxy, List.mem_singleton.mp hy] at hne
    simp at hne
  among := by
    intro entry hentry
    rcases List.mem_append.mp hentry with hold | hnew
    · exact h.among entry (List.mem_of_mem_filter hold)
    · rw [List.mem_singleton.mp hnew]
      exact ⟨hmem, rfl⟩
  apart := by
    intro entry hentry hin
    obtain ⟨hold, hne⟩ := List.mem_filter.mp hentry
    rw [List.map_append] at hin
    rcases List.mem_append.mp hin with hyounger | hnew
    · exact h.apart entry hold ((List.filter_sublist.map _).subset hyounger)
    · rw [List.mem_singleton.mp hnew] at hne
      simp at hne

theorem Layered.drop (h : Layered sources known older younger) (n : Nat) :
    Layered sources known (older.drop n) younger :=
  ⟨h.nodup, h.among, fun entry hentry => h.apart entry (List.mem_of_mem_drop hentry)⟩

/-- As there is room for all these sources, it is older ones that have to go. -/
theorem Layered.surplus_le (h : Layered sources known older younger)
    (hcap : ∀ k, s.capacity = some k → sources.length ≤ k) :
    s.surplus (older ++ younger).length ≤ older.length := by
  have hlength := h.length_le
  unfold surplus
  cases hk : s.capacity with
  | none => exact Nat.zero_le _
  | some k =>
      have hroom := hcap k hk
      show (older ++ younger).length - k ≤ _
      rw [List.length_append]
      omega

theorem retains_of_none (s : Snapshots) (sources : List String) (known : String → Snapshot)
    (hnone : ∀ source, ¬committed source) : s.Retains sources known committed :=
  ⟨s.held, [], (List.append_nil _).symm, ⟨List.nodup_nil, by simp, by simp⟩,
    fun source h => absurd h (hnone source)⟩

theorem Retains.mono (h : s.Retains sources known committed) {fewer : String → Prop}
    (hle : ∀ source, fewer source → committed source) : s.Retains sources known fewer := by
  obtain ⟨older, younger, hheld, layered, hall⟩ := h
  exact ⟨older, younger, hheld, layered, fun source hsource => hall source (hle source hsource)⟩

/-- A commit of one of the sources keeps all that were committed before. -/
theorem Retains.commit (h : s.Retains sources known committed)
    (hcap : ∀ k, s.capacity = some k → sources.length ≤ k) (hmem : source ∈ sources)
    (hknown : setOf identities = known source) :
    (s.commit source identities).Retains sources known
        (fun other => committed other ∨ other = source) ∧
      ∀ other, committed other ∨ other = source → other ∉ s.evicted source identities := by
  obtain ⟨older, younger, hheld, layered, hall⟩ := h
  have hrenewed : s.renewed source identities = (older.filter fun e => e.1 != source) ++
      ((younger.filter fun e => e.1 != source) ++ [(source, known source)]) := by
    rw [renewed, hheld, List.filter_append, List.append_assoc, hknown]
  have hlayered := layered.renew hmem
  have hle := hlayered.surplus_le hcap
  have hin (other : String) (hother : committed other ∨ other = source) : other ∈
      ((younger.filter fun e => e.1 != source) ++ [(source, known source)]).map (·.1) := by
    rw [List.map_append]
    by_cases hsource : other = source
    · exact List.mem_append_right _ (by simp [hsource])
    · obtain ⟨entry, hentry, rfl⟩ := List.mem_map.mp (hall other (hother.resolve_right hsource))
      exact List.mem_append_left _ (List.mem_map_of_mem (List.mem_filter.mpr
        ⟨hentry, by simpa using hsource⟩))
  refine ⟨⟨_, _, ?_, hlayered.drop (s.surplus (s.renewed source identities).length), hin⟩, ?_⟩
  · show (s.renewed source identities).drop (s.surplus (s.renewed source identities).length) = _
    rw [hrenewed, List.drop_append_of_le_length hle]
  · intro other hother hevicted
    rw [evicted, hrenewed] at hevicted
    rw [List.take_append_of_le_length hle] at hevicted
    obtain ⟨entry, hentry, rfl⟩ := List.mem_map.mp hevicted
    exact hlayered.apart entry (List.mem_of_mem_take hentry) (hin _ hother)

theorem Retains.snapshot? (h : s.Retains sources known committed) (hsource : committed source) :
    s.snapshot? source = some (known source) := by
  obtain ⟨older, younger, hheld, layered, hall⟩ := h
  have hnone : older.lookup source = none := by
    rw [List.lookup_eq_none_iff]
    intro entry hentry
    have hne : entry.1 ≠ source := fun heq => layered.apart entry hentry (heq ▸ hall source hsource)
    simpa using Ne.symm hne
  rw [Snapshots.snapshot?, hheld, List.lookup_append, hnone, Option.none_or]
  cases hlookup : younger.lookup source with
  | none =>
      obtain ⟨entry, hentry, heq⟩ := List.mem_map.mp (hall source hsource)
      have hne := List.lookup_eq_none_iff.mp hlookup entry hentry
      simp [heq] at hne
  | some ids =>
      obtain ⟨before, after, heq, -⟩ := List.lookup_eq_some_iff.mp hlookup
      have hmem : (source, ids) ∈ younger := by simp [heq]
      rw [show ids = known source from (layered.among _ hmem).2]

end

end Snapshots

/-! ## What a history says of it -/

namespace History

/-- All commits are about some of the given sources, and what they leave is known. -/
def CommitsKnown (h : History) (sources : List String) (known : String → Snapshot) : Prop :=
  ∀ a spec identities, Event.did a spec (.committed identities) ∈ h →
    spec.source ∈ sources ∧ Snapshots.setOf identities = known spec.source

/-- Something was committed for a source. -/
def CommittedFor (h : History) (source : String) : Prop :=
  ∃ a spec identities, Event.did a spec (.committed identities) ∈ h ∧ spec.source = source

variable {h : History} {store : Snapshots} {sources : List String} {known : String → Snapshot}

theorem retains_replay (hcap : ∀ k, store.capacity = some k → sources.length ≤ k)
    (hknown : h.CommitsKnown sources known) :
    (replay store h).Retains sources known h.CommittedFor := by
  induction h with
  | nil =>
      refine Snapshots.retains_of_none store sources known fun source hsource => ?_
      obtain ⟨a, spec, identities, hmem, -⟩ := hsource
      cases hmem
  | cons e h ih =>
      have hpast := ih fun a spec identities hmem =>
        hknown a spec identities (List.mem_cons_of_mem _ hmem)
      rw [replay_cons]
      rcases e.committed_or_unfelt with ⟨a, spec, identities, rfl⟩ | ⟨happly, hnone⟩
      · obtain ⟨hmem, hset⟩ := hknown a spec identities List.mem_cons_self
        rw [Event.apply]
        refine (hpast.commit (by rw [replay_capacity]; exact hcap) hmem hset).1.mono ?_
        rintro source ⟨b, job, ids, hin, rfl⟩
        rcases List.mem_cons.mp hin with heq | hold
        · cases heq
          exact .inr rfl
        · exact .inl ⟨b, job, ids, hold, rfl⟩
      · rw [happly]
        refine hpast.mono ?_
        rintro source ⟨b, job, ids, hin, rfl⟩
        rcases List.mem_cons.mp hin with rfl | hold
        · have hcommit := hnone job.source
          rw [Event.commitOf?, if_pos rfl] at hcommit
          cases hcommit
        · exact ⟨b, job, ids, hold, rfl⟩

section

variable {earlier later past : History} {source : String}

theorem CommitsKnown.of_suffix (hknown : h.CommitsKnown sources known) (hpast : past <:+ h) :
    past.CommitsKnown sources known :=
  fun a spec identities hmem => hknown a spec identities (hpast.subset hmem)

theorem CommittedFor.of_suffix (hcommitted : earlier.CommittedFor source) (h' : earlier <:+ past) :
    past.CommittedFor source := by
  obtain ⟨a, spec, identities, hmem, hsource⟩ := hcommitted
  exact ⟨a, spec, identities, h'.subset hmem, hsource⟩

theorem snapshot?_replay_of_known (hcap : ∀ k, store.capacity = some k → sources.length ≤ k)
    (hknown : h.CommitsKnown sources known) (hcommitted : earlier.CommittedFor source)
    (hlow : earlier <:+ past) (hhigh : past <:+ h) :
    (past.replay store).snapshot? source = some (known source) :=
  (retains_replay hcap (hknown.of_suffix hhigh)).snapshot? (hcommitted.of_suffix hlow)

theorem notMem_evicted_of_known (hcap : ∀ k, store.capacity = some k → sources.length ≤ k)
    (hknown : h.CommitsKnown sources known) (hcommitted : earlier.CommittedFor source)
    (hlow : earlier <:+ past) {a : ActivityId} {spec : JobSpec} {identities : List String}
    (hsplit : h = later ++ .did a spec (.committed identities) :: past) :
    source ∉ (past.replay store).evicted spec.source identities := by
  have hhigh : past <:+ h := ⟨later ++ [.did a spec (.committed identities)], by simp [hsplit]⟩
  obtain ⟨hmem, hset⟩ := hknown a spec identities (by simp [hsplit])
  exact ((retains_replay hcap (hknown.of_suffix hhigh)).commit (by rw [replay_capacity]; exact hcap)
    hmem hset).2 source (.inl (hcommitted.of_suffix hlow))

/-- What is not among what was told earlier was told later. -/
theorem suffix_of_notMem {e : Event} (hsuffix : earlier <:+ later ++ e :: past)
    (hnew : e ∉ earlier) : earlier <:+ past := by
  rcases List.suffix_or_suffix_of_suffix hsuffix (List.suffix_append later (e :: past)) with
    hold | hlong
  · rcases List.suffix_cons_iff.mp hold with rfl | hpast
    · exact absurd List.mem_cons_self hnew
    · exact hpast
  · exact absurd (hlong.subset List.mem_cons_self) hnew

end

end History

end FeedIntake
