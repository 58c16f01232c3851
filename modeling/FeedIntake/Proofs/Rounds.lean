import FeedIntake.Proofs.Moves

/-! # Those beside the runs

Members in line, the owners of rounds and those who take records make no run. They change nothing
in the affairs of an intake, except that records are taken.
-/

namespace FeedIntake

open Affairs

namespace Intake

section

variable {w : Intake} {a : ActivityId} {answer : Option (Except Fault (List Entry))}
  {trouble : Prop}

/-! ## Members -/

theorem affairs_suspend_of_idle (h : w.affairs.phase a = .idle) (stage : Stage) :
    (w.suspend a stage).affairs = w.affairs := by
  rw [affairs, view_suspend]
  exact View.affairs_setStage_of_idle h stage

theorem affairs_close_of_idle (h : w.affairs.phase a = .idle) (outcome : RunOutcome) :
    (w.close a outcome).affairs = w.affairs := by
  rw [affairs, view_close]
  exact View.affairs_setStage_of_idle h _

theorem affairs_withPermits (r : RoundId) (p : Permits × Option ActivityId) :
    (w.withPermits r p).affairs = w.affairs := by
  rw [affairs, view_withPermits, affairs]

theorem beginMember_foreseen {r : RoundId} {j : JobId} (hj : w.jobOf? a = some j)
    (promises : w.Promises j answer) (htrouble : w.queue.refusal ≠ none → trouble)
    (hidle : w.affairs.phase a = .idle) :
    RunsForeseen answer trouble a w (w.beginMember a r j) := by
  unfold beginMember
  split
  · exact .inl rfl
  · rename_i round _
    split
    · exact .inl (affairs_suspend_of_idle (w := w.onRound r _) hidle .inLine)
    · exact beginRun_foreseen (w := w.onRound r _) hj promises htrouble hidle

theorem jobOf?_withPermits (r : RoundId) (p : Permits × Option ActivityId) (b : ActivityId) :
    (w.withPermits r p).jobOf? b = w.jobOf? b := by
  rw [← view_jobOf?, ← view_jobOf?, view_withPermits]

theorem promises_withPermits {j : JobId} (promises : w.Promises j answer) (r : RoundId)
    (p : Permits × Option ActivityId) : (w.withPermits r p).Promises j answer := by
  unfold withPermits
  cases p.2 <;> exact promises

theorem leaveLine_foreseen {r : RoundId} {j : JobId} (hj : w.jobOf? a = some j)
    (promises : w.Promises j answer) (htrouble : w.queue.refusal ≠ none → trouble)
    (hidle : w.affairs.phase a = .idle) (calledOff stop : Bool) :
    RunsForeseen answer trouble a w (w.leaveLine a r j calledOff stop) := by
  unfold leaveLine
  split
  · exact .inl rfl
  · rename_i round _
    split
    · exact .inl (affairs_close_of_idle hidle .cancelled)
    · split
      · have hgiven := affairs_withPermits (w := w) r (round.permits.giveUp a)
        have hclose := affairs_close_of_idle (by rw [hgiven]; exact hidle) .cancelled
        exact .inl (hclose.trans hgiven)
      · have hgiven := affairs_withPermits (w := w) r (round.permits.moveOn a)
        have hqueue : (w.withPermits r (round.permits.moveOn a)).queue = w.queue :=
          queue_wakeAny _ _
        have runs := beginRun_foreseen (w := w.withPermits r (round.permits.moveOn a))
          ((jobOf?_withPermits r _ a).trans hj) (promises_withPermits promises r _)
          (by rw [hqueue]; exact htrouble) (by rw [hgiven]; exact hidle)
        unfold RunsForeseen at runs ⊢
        rw [view_withPermits, hgiven] at runs
        exact runs

/-! ## Owners -/

@[simp] theorem view_endOwner (w : Intake) (a : ActivityId) (outcome : RunOutcome) :
    (w.endOwner a outcome).view = w.view.setStage a (.finished outcome) := by
  unfold endOwner
  split
  · rw [view_close, view_callOff]
  · exact view_close w a outcome

theorem affairs_endOwner_of_idle (h : w.affairs.phase a = .idle) (outcome : RunOutcome) :
    (w.endOwner a outcome).affairs = w.affairs := by
  rw [affairs, view_endOwner]
  exact View.affairs_setStage_of_idle h _

theorem affairs_endRound_of_idle (h : w.affairs.phase a = .idle) (r : RoundId)
    (results : List RunResult) : (w.endRound a r results).affairs = w.affairs := by
  unfold endRound
  dsimp only
  split
  · split
    · exact affairs_endOwner_of_idle (w := w.onRound r _) h .done
    · exact affairs_suspend_of_idle (w := w.onRound r _) h .joining
  · exact affairs_endOwner_of_idle (w := w.onRound r _) h .done

/-- A new activity has not begun, and nobody was in its place before. -/
theorem affairs_add (w : Intake) (role : Role) : (w.add role).1.affairs = w.affairs := by
  have hcore (b : ActivityId) : (w.add role).1.view.core b =
      if b = w.activities.length then some ⟨role, .fresh, none⟩ else w.view.core b := by
    show ((w.activities ++ [Activity.ofRole role])[b]?).map _ = _
    rw [view_core, activity?]
    split
    · rename_i hb
      rw [hb, List.getElem?_concat_length]
      rfl
    · rename_i hb
      rcases Nat.lt_or_gt_of_ne hb with hlt | hgt
      · rw [List.getElem?_append_left hlt]
      · rw [List.getElem?_eq_none (by rw [List.length_append]; exact hgt),
          List.getElem?_eq_none (Nat.le_of_lt hgt)]
  have hphase : (w.add role).1.view.phase = w.view.phase := by
    funext b
    by_cases hb : b = w.activities.length
    · have hnobody : w.view.core b = none := by
        rw [view_core, activity?, List.getElem?_eq_none (Nat.le_of_eq hb.symm), Option.map_none]
      rw [View.phase_eq_idle_iff.mpr fun c hc => ?_, View.phase_eq_idle_iff.mpr fun c hc => ?_]
      · rw [hnobody] at hc
        cases hc
      · rw [hcore, if_pos hb] at hc
        cases hc
        rfl
    · refine View.phase_congr ?_ ?_
      · rw [hcore, if_neg hb]
      · rw [View.spec?, View.spec?, hcore, if_neg hb]
        rfl
  unfold affairs View.affairs
  rw [hphase]
  rfl

/-- A new job is nobody's yet, as every run has a job already. -/
theorem affairs_addJob (h : w.affairs.Tidy) (spec : JobSpec) (supplier : SupplierId) :
    (w.addJob spec supplier).1.affairs = w.affairs := by
  have hphase : (w.addJob spec supplier).1.view.phase = w.view.phase := by
    funext b
    by_cases hidle : w.view.phase b = .idle
    · rw [hidle]
      rw [View.phase_eq_idle_iff] at hidle ⊢
      exact hidle
    · refine View.phase_congr rfl ?_
      obtain ⟨known, hknown⟩ :=
        Option.isSome_iff_exists.mp (View.spec?_isSome_of_phase hidle (h b))
      rw [hknown]
      rw [view_spec?, specOf?, Option.map_eq_some_iff] at hknown ⊢
      obtain ⟨job, hjob, hspec⟩ := hknown
      obtain ⟨j, hj, hget⟩ := Option.bind_eq_some_iff.mp hjob
      refine ⟨job, Option.bind_eq_some_iff.mpr ⟨j, hj, ?_⟩, hspec⟩
      show (w.jobs ++ [_])[j]? = some job
      rw [List.getElem?_append_left (List.getElem?_eq_some_iff.mp hget).choose, hget]
  unfold affairs View.affairs
  rw [hphase]
  rfl

theorem affairs_addMember (h : w.affairs.Tidy) (r : RoundId) (spec : JobSpec)
    (supplier : SupplierId) : (w.addMember r spec supplier).affairs = w.affairs :=
  (affairs_add (w.addJob spec supplier).1 _).trans (affairs_addJob h spec supplier)

theorem affairs_beginRound (htidy : w.affairs.Tidy) (h : w.affairs.phase a = .idle) (r : RoundId) :
    (w.beginRound a r).affairs = w.affairs := by
  refine beginRound_induction (P := fun v => v.affairs = w.affairs)
    (Q := fun v => v.affairs = w.affairs) rfl (affairs_endRound_of_idle h r [])
    (fun _ outcome => affairs_endOwner_of_idle (w := w.log _) h outcome) (fun _ _ => rfl)
    (fun v spec supplier hv => ?_) fun v hv => ?_
  · exact (affairs_addMember (by rw [hv]; exact htidy) r spec supplier).trans hv
  · exact (affairs_suspend_of_idle (by rw [hv]; exact h) .gathering).trans hv

theorem affairs_gather (h : w.affairs.phase a = .idle) (r : RoundId) :
    (w.gather a r).affairs = w.affairs := by
  unfold gather
  split
  · rfl
  · dsimp only
    split
    · exact affairs_endOwner_of_idle (w := w.log _) h _
    · exact affairs_endRound_of_idle (w := (w.log _).log _) h r _

theorem affairs_note (w : Intake) (r : RoundId) : (w.note r).affairs = w.affairs := by
  unfold note
  dsimp only
  split
  · rfl
  · split
    · rw [affairs, view_call, view_onActivity_of_unseen _ _ (by exact fun _ => rfl), view_onRound]
      rfl
    · rfl

/-! ## Takers -/

theorem takeRecord_takes (w : Intake) : Takes w.affairs w.takeRecord.affairs := by
  refine takeRecord_induction (P := fun v => Takes w.affairs v.affairs) .refl (fun hpop => ?_)
    fun v b _ hv => ?_
  · have take := Take.take (s := w.affairs) (RecordQueue.pop_records hpop)
    rw [affairs, affairs, view_withQueue]
    exact .single take
  · show Takes w.affairs (v.wake b).view.affairs
    rw [view_wake]
    exact hv

theorem takeRecords_takes (h : w.affairs.phase a = .idle) :
    Takes w.affairs (w.takeRecords a).affairs := by
  have takes : Takes w.affairs (Nat.repeat takeRecord w.queue.records.length w).affairs :=
    repeat_takeRecord_induction (P := fun v => Takes w.affairs v.affairs) _ .refl fun v hv =>
      hv.trans (takeRecord_takes v)
  unfold takeRecords
  dsimp only
  generalize Nat.repeat takeRecord w.queue.records.length w = v at takes ⊢
  have hsame : ({ v with queue := v.queue.awaitRecord a } : Intake).affairs = v.affairs := rfl
  rw [affairs_suspend_of_idle (by rw [hsame, Takes.phase takes, h]), hsame]
  exact takes

theorem affairs_stopTaking (h : w.affairs.phase a = .idle) (woken : Bool) :
    (w.stopTaking a woken).affairs = w.affairs := by
  unfold stopTaking
  dsimp only
  split
  · have hview : (w.withQueue w.queue.nextGetter).view = w.view := view_withQueue w _
    have haffairs : (w.withQueue w.queue.nextGetter).affairs = w.affairs := by
      rw [affairs, hview, affairs]
    rw [affairs_close_of_idle (by rw [haffairs]; exact h), haffairs]
  · exact affairs_close_of_idle h _

end

end Intake

end FeedIntake
