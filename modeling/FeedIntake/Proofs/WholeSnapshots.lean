import FeedIntake.Proofs.Commits

/-! # Snapshots are whole

A store that remembers all sources and was empty at the beginning holds for every source the set of
all identities that its last completed run met, and nothing for a source without a completed run.
This is so at every moment, so it is what every run is told in the middle of others. A run that has
not committed shows in no snapshot, and one that has shows in that of its own source alone.
-/

namespace FeedIntake

namespace Event

theorem snapshot?_apply_of_ne {s : Snapshots} (hcap : s.capacity = none) {spec : JobSpec}
    {source : String} (hsource : spec.source ≠ source) (a : ActivityId) (deed : Deed) :
    ((Event.did a spec deed).apply s).snapshot? source = s.snapshot? source := by
  cases deed with
  | committed identities =>
      rw [apply, Snapshots.snapshot?_commit_of_unbounded hcap, if_neg (Ne.symm hsource)]
  | _ => rfl

theorem apply_capacity (e : Event) (s : Snapshots) : (e.apply s).capacity = s.capacity := by
  rcases e.committed_or_unfelt with ⟨a, spec, identities, rfl⟩ | ⟨hunfelt, -⟩
  · rfl
  · rw [hunfelt]

end Event

namespace Affairs

variable {store : Snapshots} {records : List Record} {s t : Affairs} {a : ActivityId}
  {spec : JobSpec}

/-- What a store holds is the set met by the run that committed last, and so at every moment. -/
theorem Sound.snapshot?_replay (h : s.Sound store records) (hcap : store.capacity = none)
    (hempty : store.held = []) {later past : History} (hsplit : s.history = later ++ past)
    (source : String) : (past.replay store).snapshot? source = past.lastMet? source := by
  rw [History.snapshot?_replay_of_unbounded hcap, History.lastMet?]
  cases hlast : past.lastCommit? source with
  | none => simp [Snapshots.snapshot?, hempty]
  | some commit =>
      obtain ⟨b, identities⟩ := commit
      obtain ⟨between, job, older, rfl, rfl⟩ := History.exists_of_lastCommit? hlast
      obtain ⟨r, entries, trail, now, progress, -, -, hdeeds, rfl⟩ :=
        h.of_committed (hsplit.trans (List.append_assoc later between _).symm)
      have hdone : History.deedsOf (between ++ .did b job (.committed r.seen) :: older) b =
          .fetched entries :: (trail.deeds ++ .committed r.seen :: History.deedsOf between b) := by
        rw [History.deedsOf_append, History.deedsOf_did_self, hdeeds]
        simp
      have hentries := History.entriesOf_eq hdone
      rw [Option.map_some, hentries]
      show some (Snapshots.setOf r.seen) = _
      rw [progress.seen_eq, Snapshots.setOf_setOf]

theorem Turns.snapshot?_of_ne (turns : Turns a spec s t) (hcap : s.store.capacity = none)
    {source : String} (hsource : spec.source ≠ source) :
    t.store.capacity = none ∧ t.store.snapshot? source = s.store.snapshot? source := by
  induction turns with
  | refl => exact ⟨hcap, rfl⟩
  | tail _ turn ih =>
      obtain ⟨hcap', hsame⟩ := ih
      rcases turn.effect with ⟨-, hstore, -⟩ | ⟨deed, -, hstore, -⟩
      · rw [hstore]
        exact ⟨hcap', hsame⟩
      · rw [hstore, Event.apply_capacity, Event.snapshot?_apply_of_ne hcap' hsource]
        exact ⟨hcap', hsame⟩

theorem Takes.store_eq (takes : Takes s t) : t.store = s.store := by
  induction takes with
  | refl => rfl
  | tail _ take ih =>
      rw [← ih]
      cases take
      rfl

end Affairs

namespace Intake

def CompletedFor (w : Intake) (a : ActivityId) (source : String) : Prop :=
  ∃ spec r, w.specOf? a = some spec ∧ spec.source = source ∧ spec.perpetual = true ∧
    w.result? a = some r ∧ r.success = true

section

variable {store : Snapshots} {records : List Record} {w : Intake} {a : ActivityId}
  {source : String}

/-- Who has completed for a source has committed for it, and nobody else has. -/
theorem completedFor_iff_committed (h : w.affairs.Sound store records) :
    w.CompletedFor a source ↔ ∃ spec identities, spec.source = source ∧
      Event.did a spec (.committed identities) ∈ w.history := by
  constructor
  · rintro ⟨spec, r, hs, rfl, hperp, hr, hsuccess⟩
    have hexplained := h.explained a
    have hastray : w.view.phase a ≠ .astray := by
      intro heq
      rw [show w.affairs.phase a = .astray from heq] at hexplained
      cases hexplained
    obtain ⟨hps, hpr⟩ := View.phase_spec?_result? (by rw [view_spec?, hs])
      (by rw [view_result?, hr]) hastray
    obtain ⟨spec', r', entries, trail, now, -, hphase, hdeeds⟩ :=
      hexplained.of_success hpr hsuccess
    have hspec : spec' = spec := by
      rw [show w.view.phase a = _ from hphase] at hps
      exact Option.some.inj hps
    have hmem : Deed.committed r'.seen ∈ w.affairs.history.deedsOf a := by
      rw [hdeeds, hspec, hperp]
      simp
    obtain ⟨spec'', hdid⟩ := History.mem_deedsOf.mp hmem
    have howned : (w.view.phase a).spec? = some spec'' := h.owned hdid
    rw [hps] at howned
    cases howned
    exact ⟨spec, _, rfl, hdid⟩
  · rintro ⟨spec, identities, rfl, hmem⟩
    obtain ⟨later, past, hsplit⟩ := List.append_of_mem hmem
    obtain ⟨r, entries, trail, now, progress, hperp, hphase, -⟩ :=
      h.of_committed hsplit
    obtain ⟨hs, hr, -⟩ := View.of_phase_ended hphase
    rw [view_spec?] at hs
    rw [view_result?] at hr
    exact ⟨spec, _, hs, rfl, hperp, hr, progress.tally.success_conclude _ _⟩

theorem Step.store_eq_or_turns {w' : Intake} (step : Step w w') (htidy : w.affairs.Tidy) :
    w'.store = w.store ∨ ∃ a calledOff spec, Call.move a calledOff ∈ w.ready ∧
      w.specOf? a = some spec ∧ Affairs.Turns a spec w.affairs w'.affairs := by
  cases step with
  | happen before c after hready =>
      have hview : ({ w with ready := before ++ after } : Intake).view = w.view := rfl
      have haffairs : ({ w with ready := before ++ after } : Intake).affairs = w.affairs := rfl
      cases c with
      | note r => exact .inl (congrArg Affairs.store (affairs_note { w with ready := _ } r))
      | move a calledOff =>
          rcases move_runsOn_or_takes (w := { w with ready := before ++ after }) htidy a
            calledOff with (hsame | ⟨spec, hs, turns⟩) | takes
          · exact .inl (congrArg Affairs.store hsame)
          · rw [hview, view_spec?] at hs
            exact .inr ⟨a, calledOff, spec, by rw [hready]; simp, hs, turns⟩
          · exact .inl takes.store_eq
  | addJob spec supplier => exact .inl (congrArg Affairs.store (affairs_addJob htidy spec supplier))
  | startRun j => exact .inl (congrArg Affairs.store (affairs_add w (.run j)))
  | openGate source => exact .inl (congrArg Affairs.store (affairs_openGate w source))
  | cancel a => exact .inl (congrArg View.store (view_cancel w a))
  | takeOne htake =>
      exact .inl (Affairs.Takes.store_eq (Relation.ReflTransGen.single (takeOne_take htake)))
  | _ => exact .inl rfl

end

/-- What a store that remembers all sources holds, and what runs are told of it. -/
structure WholeSnapshots (w : Intake) : Prop where
  /-- The snapshot of a source is the whole set met by the run that committed last for it. -/
  held : ∀ source, w.store.snapshot? source = w.history.lastMet? source
  /-- The run that committed last for a source has completed. -/
  completed : ∀ source a identities,
    w.history.lastCommit? source = some (a, identities) → w.CompletedFor a source
  none_iff : ∀ source, w.store.snapshot? source = none ↔ ∀ a, ¬w.CompletedFor a source
  seenBefore_iff : ∀ source identity, w.store.seenBefore source identity = true ↔
    identity ≠ "" ∧ ∃ ids, w.history.lastMet? source = some ids ∧ identity ∈ ids
  /-- A run is told that an entry is known if the run that had committed last by then met it. -/
  repeated_iff : ∀ (later past : History) (a : ActivityId) (spec : JobSpec) (record : Record)
    (verdict : Verdict), w.history = later ++ .did a spec (.judged record verdict) :: past →
    (verdict = .repeated ↔ record.publishedAt.passes spec.since = true ∧ spec.perpetual = true ∧
      record.identity ≠ "" ∧ ∃ ids, past.lastMet? spec.source = some ids ∧ record.identity ∈ ids)
  /-- Whatever changes the snapshot of a source is a run of this source that moves. -/
  alone : ∀ (w' : Intake), Step w w' → ∀ source,
    w'.store.snapshot? source ≠ w.store.snapshot? source →
      ∃ a calledOff spec, Call.move a calledOff ∈ w.ready ∧ w.specOf? a = some spec ∧
        spec.source = source

/-- Snapshots are whole runs in every state that is reached from an empty store that remembers all
sources, in whatever order runs go on, wait, are cancelled and commit. -/
theorem snapshots_whole {now : Time.DateTime} {queue : RecordQueue}
    {web : List (String × Response)} {w : Intake}
    (reach : Reaches (start now queue .unbounded web) w) : w.WholeSnapshots := by
  have h := reach.sound
  have htidy : w.affairs.Tidy := reach.course_of_start.tidy fun a => by simp
  have hmoment (later past : History) (hsplit : w.history = later ++ past) (source : String) :
      (past.replay .unbounded).snapshot? source = past.lastMet? source :=
    h.snapshot?_replay rfl rfl hsplit source
  have hreplayed : w.store = w.history.replay .unbounded := h.replayed
  have hheld (source : String) : w.store.snapshot? source = w.history.lastMet? source := by
    rw [hreplayed]
    exact hmoment [] w.history rfl source
  have hcompleted (source : String) (a : ActivityId) (identities : List String)
      (hlast : w.history.lastCommit? source = some (a, identities)) : w.CompletedFor a source := by
    obtain ⟨later, spec, past, hsplit, hsource⟩ := History.exists_of_lastCommit? hlast
    exact (completedFor_iff_committed h).mpr ⟨spec, identities, hsource, by rw [hsplit]; simp⟩
  exact {
    held := hheld
    completed := hcompleted
    none_iff := by
      intro source
      rw [hheld, History.lastMet?, Option.map_eq_none_iff]
      constructor
      · intro hnone a hdone
        obtain ⟨spec, identities, rfl, hmem⟩ := (completedFor_iff_committed h).mp hdone
        have hsome := History.lastCommit?_isSome hmem
        rw [hnone] at hsome
        cases hsome
      · intro hnobody
        cases hlast : w.history.lastCommit? source with
        | none => rfl
        | some commit => exact absurd (hcompleted source commit.1 commit.2 hlast) (hnobody _)
    seenBefore_iff := by
      intro source identity
      rw [Snapshots.seenBefore_iff, hheld]
    repeated_iff := by
      intro later past a spec record verdict hsplit
      have hpast := hmoment (later ++ [.did a spec (.judged record verdict)]) past
        (by rw [hsplit]; simp) spec.source
      rw [h.judged hsplit, JobSpec.judge_eq_repeated, Snapshots.seenBefore_iff, hpast]
    alone := by
      intro w' step source hchanged
      rcases step.store_eq_or_turns htidy with hsame | ⟨a, calledOff, spec, hready, hs, turns⟩
      · rw [hsame] at hchanged
        exact absurd rfl hchanged
      · refine ⟨a, calledOff, spec, hready, hs, ?_⟩
        by_contra hsource
        have hcap' : w.affairs.store.capacity = none := by
          rw [h.replayed, History.replay_capacity]
          rfl
        exact hchanged (turns.snapshot?_of_ne hcap' hsource).2 }

theorem snapshots_whole_readTwice :
    (readTwice (.ofCapacity 0) (.ofSource "a") [.bare "x", .bare "y"]).WholeSnapshots :=
  snapshots_whole (reaches_readTwice (.ofCapacity 0) (.ofSource "a") [.bare "x", .bare "y"])

end Intake

end FeedIntake
