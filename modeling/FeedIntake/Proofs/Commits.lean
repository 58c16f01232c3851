import FeedIntake.Proofs.Account
import Mathlib.Data.List.Basic

/-! # What a commit tells

A run commits once, as the last thing that it does, and only if it came through with everything that
it fetched. So whoever finds a commit in the history knows what the run had done before, and that it
stands at its end, a success.
-/

namespace FeedIntake

theorem Trail.committed_notMem_deeds (trail : Trail) (identities : List String) :
    Deed.committed identities ∉ trail.deeds := by
  intro hmem
  have hfound : identities ∈ trail.deeds.filterMap Deed.identitiesCommitted? :=
    List.mem_filterMap.mpr ⟨_, hmem, rfl⟩
  rw [Trail.filterMap_identitiesCommitted?_deeds] at hfound
  cases hfound

namespace Progress

variable {spec : JobSpec} {r : RunResult} {entries : List Entry} {trail : Trail}

theorem read (h : Progress spec r entries [] trail) :
    entries.map (·.toRecord spec.source) = trail.records.map .ok := by
  obtain ⟨done, rfl, hread⟩ := h.split
  rw [List.append_nil]
  exact hread

theorem length_eq (h : Progress spec r entries [] trail) : trail.length = entries.length := by
  have hread := congrArg List.length h.read
  rw [List.length_map, List.length_map, Trail.length_records] at hread
  exact hread.symm

theorem seen_eq (h : Progress spec r entries [] trail) :
    r.seen = Snapshots.setOf (entries.map (·.identity spec.source)) := by
  rw [h.tally.seen, Entry.map_identity h.read]

end Progress

namespace Phase

theorem Explained.of_committed {p : Phase} {deeds before after : List Deed}
    {identities : List String} (h : Explained p deeds)
    (hsplit : deeds = before ++ .committed identities :: after) :
    ∃ spec r entries trail now, Progress spec r entries [] trail ∧ spec.perpetual = true ∧
      p = .ended spec (r.conclude true now) .done ∧ before = .fetched entries :: trail.deeds ∧
      identities = r.seen ∧ after = [] := by
  have hmem : Deed.committed identities ∈ deeds := by rw [hsplit]; simp
  induction h with
  | idle => simp at hmem
  | asking spec now => simp at hmem
  | working progress =>
      rcases List.mem_cons.mp hmem with heq | hdeed
      · cases heq
      · exact absurd hdeed (Trail.committed_notMem_deeds _ _)
  | offering progress he =>
      rcases List.mem_append.mp hmem with hfirst | hlast
      · rcases List.mem_cons.mp hfirst with heq | hdeed
        · cases heq
        · exact absurd hdeed (Trail.committed_notMem_deeds _ _)
      · simp at hlast
  | through progress now =>
      rename_i spec r entries trail
      have hnone : Deed.committed identities ∉ Deed.fetched entries :: trail.deeds := by
        intro hfirst
        rcases List.mem_cons.mp hfirst with heq | hdeed
        · cases heq
        · exact Trail.committed_notMem_deeds _ _ hdeed
      cases hperp : spec.perpetual with
      | false =>
          rw [hperp] at hmem
          simp only [Bool.false_eq_true, if_false, List.append_nil] at hmem
          exact absurd hmem hnone
      | true =>
          rw [hperp] at hsplit
          simp only [if_true] at hsplit
          obtain ⟨hbefore, hdeed, hafter⟩ :=
            (List.append_cons_inj_of_notMem hnone List.not_mem_nil).mp hsplit
          cases hdeed
          exact ⟨spec, r, entries, trail, now, progress, hperp, rfl, hbefore.symm, rfl,
            hafter.symm⟩
  | stopped _ stop ih =>
      -- Only where a run still goes on can it stop, and there it has not committed.
      obtain ⟨_, _, _, _, _, _, _, rfl, _⟩ := ih hsplit hmem
      cases stop

theorem success_begun (spec : JobSpec) (now : Time.DateTime) :
    (spec.begun now).success = false := rfl

theorem Explained.of_success {p : Phase} {deeds : List Deed} {r : RunResult}
    (h : Explained p deeds) (hr : p.result? = some r) (hsuccess : r.success = true) :
    ∃ spec r' entries trail now, Progress spec r' entries [] trail ∧
      p = .ended spec (r'.conclude spec.perpetual now) .done ∧
      deeds = .fetched entries :: trail.deeds ++
        if spec.perpetual then [.committed r'.seen] else [] := by
  cases h with
  | idle => cases hr
  | asking spec now =>
      cases hr
      rw [success_begun] at hsuccess
      cases hsuccess
  | working progress =>
      cases hr
      rw [progress.tally.success] at hsuccess
      cases hsuccess
  | offering progress he =>
      cases hr
      rw [(progress.tally.offer _).success] at hsuccess
      cases hsuccess
  | through progress now => exact ⟨_, _, _, _, now, progress, rfl, rfl⟩
  | stopped h stop =>
      cases hr
      cases stop with
      | foreign fault hc hf =>
          cases h
          rw [success_begun] at hsuccess
          cases hsuccess
      | _ => simp at hsuccess

theorem Explained.of_done {spec : JobSpec} {r : RunResult} {entries : List Entry}
    {deeds : List Deed} (h : Explained (.ended spec r .done) (.fetched entries :: deeds)) :
    ∃ r' trail now, Progress spec r' entries [] trail ∧ r = r'.conclude spec.perpetual now ∧
      deeds = trail.deeds ++ if spec.perpetual then [.committed r'.seen] else [] := by
  cases h with
  | through progress now => exact ⟨_, _, now, progress, rfl, rfl⟩
  | stopped h stop =>
      cases stop with
      | noFeed f hf now => cases h

end Phase

namespace Affairs

theorem Sound.of_committed {store : Snapshots} {records : List Record} {s : Affairs}
    (h : s.Sound store records) {later past : History} {a : ActivityId} {spec : JobSpec}
    {identities : List String}
    (hsplit : s.history = later ++ .did a spec (.committed identities) :: past) :
    ∃ r entries trail now, Progress spec r entries [] trail ∧ spec.perpetual = true ∧
      s.phase a = .ended spec (r.conclude true now) .done ∧
      past.deedsOf a = .fetched entries :: trail.deeds ∧ identities = r.seen := by
  have hdeeds : s.history.deedsOf a =
      past.deedsOf a ++ .committed identities :: later.deedsOf a := by
    rw [hsplit, History.deedsOf_append, History.deedsOf_did_self, List.append_assoc,
      List.singleton_append]
  obtain ⟨spec', r, entries, trail, now, progress, hperp, hphase, hpast, hids, -⟩ :=
    (h.explained a).of_committed hdeeds
  have hmem : Event.did a spec (.committed identities) ∈ s.history := by simp [hsplit]
  have howned := h.owned hmem
  rw [hphase] at howned
  cases howned
  exact ⟨r, entries, trail, now, progress, hperp, hphase, hpast, hids⟩

end Affairs

end FeedIntake
