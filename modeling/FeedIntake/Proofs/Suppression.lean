import FeedIntake.Proofs.Commits

/-! # Nothing is suppressed that was never handled

A record is left out as known only if its identity is in the snapshot of its source. A snapshot may
hold an identity because the run that committed it had left it out as well, on account of an older
snapshot. Going back from commit to commit one comes to a run that put a record with the identity or
found it too old, since there was nothing in the store at the beginning.
-/

namespace FeedIntake

/-- A run put a record with an identity, or found one too old. -/
def History.HandledBy (h : History) (a : ActivityId) (identity : String) : Prop :=
  ∃ spec record, record.identity = identity ∧
    (Event.did a spec (.put record) ∈ h ∨ Event.did a spec (.judged record .tooOld) ∈ h)

/-- A run for a source handled an identity and committed what it met. -/
def History.HandledFor (h : History) (source identity : String) : Prop :=
  ∃ a spec identities, spec.source = source ∧ spec.perpetual = true ∧
    Event.did a spec (.committed identities) ∈ h ∧ h.HandledBy a identity

namespace History

variable {h : History} {a : ActivityId} {source identity : String}

theorem HandledBy.append (handled : HandledBy h a identity) (later : History) :
    HandledBy (later ++ h) a identity := by
  obtain ⟨spec, record, hid, hput | hold⟩ := handled
  · exact ⟨spec, record, hid, .inl (List.mem_append_right _ hput)⟩
  · exact ⟨spec, record, hid, .inr (List.mem_append_right _ hold)⟩

theorem HandledFor.append (handled : HandledFor h source identity) (later : History) :
    HandledFor (later ++ h) source identity := by
  obtain ⟨a, spec, identities, hsource, hperp, hcommit, hby⟩ := handled
  exact ⟨a, spec, identities, hsource, hperp, List.mem_append_right _ hcommit, hby.append later⟩

theorem handledBy_or_repeated {entries : List Entry} {trail : Trail}
    (hdeeds : h.deedsOf a = .fetched entries :: trail.deeds) {record : Record}
    (hmem : record ∈ trail.records) : h.HandledBy a record.identity ∨
      ∃ spec, Event.did a spec (.judged record .repeated) ∈ h := by
  obtain ⟨⟨record, verdict⟩, hjudged, rfl⟩ := List.mem_map.mp hmem
  have hdid (deed : Deed) (hdeed : deed ∈ Trail.deedsAbout (record, verdict)) :
      ∃ spec, Event.did a spec deed ∈ h := by
    rw [← mem_deedsOf, hdeeds]
    exact List.mem_cons_of_mem _ (List.mem_flatMap.mpr ⟨_, hjudged, hdeed⟩)
  cases verdict with
  | tooOld =>
      obtain ⟨spec, hold⟩ := hdid (.judged record .tooOld) (by simp [Trail.deedsAbout])
      exact .inl ⟨spec, record, rfl, .inr hold⟩
  | repeated =>
      exact .inr (hdid (.judged record .repeated) (by simp [Trail.deedsAbout]))
  | admitted =>
      obtain ⟨spec, hput⟩ := hdid (.put record) (by simp [Trail.deedsAbout])
      exact .inl ⟨spec, record, rfl, .inl hput⟩

end History

namespace Affairs

variable {store : Snapshots} {records : List Record} {s : Affairs} {later past : History}
  {a : ActivityId} {spec : JobSpec} {record : Record}

/-- Whatever is left out as known was met by a run that had committed. -/
theorem Sound.exists_commit (h : s.Sound store records) (hempty : store.held = [])
    (hsplit : s.history = later ++ .did a spec (.judged record .repeated) :: past) :
    record.identity ≠ "" ∧ ∃ (b : ActivityId) (job : JobSpec) (identities : List String)
      (between older : History) (entries : List Entry) (trail : Trail) (known : Record),
      past = between ++ .did b job (.committed identities) :: older ∧
        job.source = spec.source ∧ job.perpetual = true ∧
        older.deedsOf b = .fetched entries :: trail.deeds ∧
        known ∈ trail.records ∧ known.identity = record.identity := by
  obtain ⟨-, -, hseen⟩ := JobSpec.judge_eq_repeated.mp (h.judged hsplit).symm
  obtain ⟨hid, ids, hsnapshot, hmem⟩ := Snapshots.seenBefore_iff.mp hseen
  refine ⟨hid, ?_⟩
  rcases History.mem_held_replay (Snapshots.mem_held_of_snapshot? hsnapshot) with hstart |
    ⟨between, b, job, identities, older, rfl, heq⟩
  · rw [hempty] at hstart
    cases hstart
  · obtain ⟨hsource, rfl⟩ := Prod.mk.inj heq
    have hwhole : s.history = (later ++ .did a spec (.judged record .repeated) :: between) ++
        .did b job (.committed identities) :: older := by
      rw [hsplit, List.append_assoc, List.cons_append]
    obtain ⟨r, entries, trail, now, progress, hperp, -, hdeeds, rfl⟩ := h.of_committed hwhole
    have hmet := (Snapshots.mem_setOf.mp hmem).2
    rw [progress.tally.seen] at hmet
    obtain ⟨known, hknown, heq⟩ := List.mem_map.mp (Snapshots.mem_setOf.mp hmet).2
    exact ⟨b, job, r.seen, between, older, entries, trail, known, rfl, hsource.symm, hperp, hdeeds,
      hknown, heq⟩

/-- The induction is on how much had happened before the record was judged. -/
theorem Sound.handledFor (h : s.Sound store records) (hempty : store.held = [])
    (hsplit : s.history = later ++ .did a spec (.judged record .repeated) :: past) :
    past.HandledFor spec.source record.identity := by
  induction hn : past.length using Nat.strongRecOn generalizing later past a spec record with
  | ind n ih =>
      obtain ⟨-, b, job, identities, between, older, entries, trail, known, rfl, hsource, hperp,
        hdeeds, hknown, hid⟩ := h.exists_commit hempty hsplit
      rcases History.handledBy_or_repeated hdeeds hknown with handled | ⟨spec', hrepeated⟩
      · rw [hid] at handled
        have hfor : History.HandledFor (.did b job (.committed identities) :: older) spec.source
            record.identity :=
          ⟨b, job, identities, hsource, hperp, by simp, handled.append [_]⟩
        exact hfor.append between
      · -- The run that committed had left it out itself, when less had happened.
        obtain ⟨late, oldest, rfl⟩ := List.append_of_mem hrepeated
        have hjob : spec' = job := by
          have hleft : Event.did b spec' (.judged known .repeated) ∈ s.history := by
            simp [hsplit]
          have hright : Event.did b job (.committed identities) ∈ s.history := by simp [hsplit]
          exact Option.some.inj ((h.owned hleft).symm.trans (h.owned hright))
        have hearlier : s.history = (later ++ .did a spec (.judged record .repeated) :: between ++
            .did b job (.committed identities) :: late) ++
            .did b spec' (.judged known .repeated) :: oldest := by simp [hsplit]
        have hback := ih oldest.length (by rw [← hn]; simp; omega) hearlier rfl
        rw [hid, hjob, hsource] at hback
        have hall := hback.append (between ++ .did b job (.committed identities) :: late ++
          [.did b spec' (.judged known .repeated)])
        simpa using hall

end Affairs

namespace Intake

/-- In whatever order runs go on and end, a record is left out as known only if it has an identity
and a run of the same source that had committed by then had put one with this identity or found one
too old. -/
theorem repeated_was_handled {now : Time.DateTime} {queue : RecordQueue} {store : Snapshots}
    {web : List (String × Response)} {w : Intake} (hempty : store.held = [])
    (reach : Reaches (start now queue store web) w) {later past : History} {a : ActivityId}
    {spec : JobSpec} {record : Record}
    (h : w.history = later ++ .did a spec (.judged record .repeated) :: past) :
    record.identity ≠ "" ∧ past.HandledFor spec.source record.identity :=
  ⟨(reach.sound.exists_commit hempty h).1, reach.sound.handledFor hempty h⟩

/-- A feed with one entry is read twice. The second run leaves it out. -/
theorem repeated_was_handled_second_run :
    ∃ (w : Intake) (later past : History) (spec : JobSpec) (record : Record),
      Reaches (start Time.Instant.first.toDateTime (.ofCapacity 0) .unbounded []) w ∧
      w.history = later ++ .did 1 spec (.judged record .repeated) :: past ∧
      record.identity ≠ "" ∧ past.HandledFor spec.source record.identity := by
  have hhistory : (readTwice (.ofCapacity 0) (.ofSource "a") [.bare "x"]).history =
      [.did 1 (.ofSource "a") (.committed ["x"])] ++
        .did 1 (.ofSource "a") (.judged (.bare "a" "x") .repeated) ::
        [.did 1 (.ofSource "a") (.fetched [.bare "x"]),
          .did 0 (.ofSource "a") (.committed ["x"]),
          .did 0 (.ofSource "a") (.put (.bare "a" "x")),
          .did 0 (.ofSource "a") (.judged (.bare "a" "x") .admitted),
          .did 0 (.ofSource "a") (.fetched [.bare "x"])] := rfl
  have reach := reaches_readTwice (.ofCapacity 0) (.ofSource "a") [.bare "x"]
  exact ⟨_, _, _, _, _, reach, hhistory, repeated_was_handled rfl reach hhistory⟩

end Intake

end FeedIntake
