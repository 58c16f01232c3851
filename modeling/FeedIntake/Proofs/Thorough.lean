import FeedIntake.Proofs.Endings
import FeedIntake.Proofs.Upshot

/-! # Runs that come to their end as planned

A run that is neither cancelled nor kept from putting its records leaves none of those that it has
admitted, whatever others do meanwhile.
-/

namespace FeedIntake

open Affairs

/-- A run has put all the records that it admitted, and no others, in the order in which it judged
them, and what it judged are the entries that its fetch gave. -/
structure Thorough (answer? : Option (Except Fault (List Entry))) (h : History) (a : ActivityId) :
    Prop where
  put : h.recordsPutBy a = Trail.admitted (h.judgementsBy a)
  answered : ∃ answer, answer? = some answer ∧ h.entriesOf a = answer.toOption.getD []

section

variable {answer? : Option (Except Fault (List Entry))} {h h' : History} {plan : Plan}
  {s t : Affairs} {a : ActivityId} {spec : JobSpec} {r : RunResult} {outcome : RunOutcome}
  {store : Snapshots} {records : List Record}

theorem Thorough.congr (thorough : Thorough answer? h a) (hdeeds : h'.deedsOf a = h.deedsOf a) :
    Thorough answer? h' a where
  put := by
    rw [History.recordsPutBy, History.judgementsBy, hdeeds]
    exact thorough.put
  answered := by
    rw [History.entriesOf, hdeeds]
    exact thorough.answered

theorem Thorough.of_deedsOf {entries : List Entry} {trail : Trail} (more : List Deed)
    (hdeeds : h.deedsOf a = .fetched entries :: trail.deeds ++ more)
    (hput : more.filterMap Deed.recordPut? = []) (hjudged : more.filterMap Deed.judgement? = [])
    (hanswer : answer? = some (.ok entries)) : Thorough answer? h a where
  put := by
    rw [History.recordsPutBy_eq hdeeds, History.judgementsBy_eq hdeeds, hput, hjudged,
      List.append_nil, List.append_nil]
  answered := ⟨_, hanswer, History.entriesOf_eq hdeeds⟩

/-- A run that ends as foreseen does not leave a record that it has admitted. -/
theorem Affairs.Turn.thorough (turn : Turn a spec s t)
    (foreseen : (s.phase a).Foreseen answer? False (t.phase a))
    (explained : (s.phase a).Explained (s.history.deedsOf a))
    (told : ∀ entries, .fetched entries ∈ s.history.deedsOf a → answer? = some (.ok entries))
    {other : JobSpec} (hended : t.phase a = .ended other r outcome) :
    Thorough answer? t.history a := by
  generalize hdeeds : s.history.deedsOf a = deeds at explained told
  cases turn with
  | conclude now hp =>
      rw [hp] at explained
      cases explained with
      | working progress =>
          have hanswer := told _ List.mem_cons_self
          rw [set_history, Affairs.commit]
          split
          · exact .of_deedsOf [.committed _]
              (by rw [tell, History.deedsOf_did_self, hdeeds]) rfl rfl hanswer
          · exact .of_deedsOf [] (by rw [hdeeds, List.append_nil]) rfl rfl hanswer
  | stop stops =>
      rw [set_phase_self] at foreseen
      rw [set_history]
      generalize s.phase a = p at stops foreseen explained
      cases stops with
      | noFeed | foreign | cancelledAsking =>
          cases explained
          rcases foreseen.of_asking with ⟨entries, -, heq⟩ | ⟨fault, now, hanswer, -⟩
          · cases heq
          · refine ⟨?_, _, hanswer, ?_⟩
            · rw [History.recordsPutBy, History.judgementsBy, hdeeds]
              rfl
            · rw [History.entriesOf, hdeeds]
              rfl
      | unreadable fault he now =>
          cases explained with
          | working progress =>
              exact .of_deedsOf [] (by rw [hdeeds, List.append_nil]) rfl rfl
                (told _ List.mem_cons_self)
      | putFailed | cancelledOffering =>
          cases foreseen with
          | disturbed _ trouble => exact trouble.elim
  | _ =>
      rw [set_phase_self] at hended
      cases hended

/-- **Whoever comes to its end as planned is thorough.** The induction is on the course; a run that
has ended takes no more turns. -/
theorem Plan.Course.thorough (course : plan.Course s t) (sound : s.Sound store records)
    (hstart : s.history.deedsOf a = []) (hidle : s.phase a = .idle)
    (hended : t.phase a = .ended spec r outcome) : Thorough (plan.answer? a) t.history a := by
  induction course with
  | refl =>
      rw [hidle] at hended
      cases hended
  | tail steps step ih =>
      rename_i u v
      have earlier : plan.Course s u := steps
      rcases step with ⟨b, job, hs, turn, foreseen⟩ | take
      · by_cases hb : b = a
        · subst hb
          exact turn.thorough foreseen ((earlier.course.sound sound).explained b)
            (fun entries hmem => earlier.told hstart hmem) hended
        · have turns : Turns b job u v := .single turn
          rw [turn.phase_of_ne (Ne.symm hb)] at hended
          exact (ih hended).congr (turns.deedsOf_of_ne (Ne.symm hb))
      · have takes : Takes u v := .single take
        rw [take.phase] at hended
        exact (ih hended).congr (takes.deedsOf a)

end

end FeedIntake
