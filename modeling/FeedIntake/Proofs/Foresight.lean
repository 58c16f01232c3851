import FeedIntake.Proofs.Affairs

/-! # Foreseen turns

What a run does next is settled when it is known what comes of its fetch, but for two things: a
fault of the queue and a cancellation. Where neither can be, every turn of the run is one that could
be foreseen.
-/

namespace FeedIntake

open Time (DateTime)

def RunResult.upon (r : RunResult) (fault : Fault) (now : DateTime) : RunResult × RunOutcome :=
  match fault with
  | .failure f => if f.kind.isFeed then (r.refuse f now, .done) else (r, .failed fault)
  | .outside _ _ =>
      if fault.isCancellation then (r.cancel now, .cancelled) else (r, .failed fault)

/-- How a run goes on that gets the given answer, if any. With trouble it may end anyhow. -/
inductive Phase.Foreseen (answer : Option (Except Fault (List Entry))) (trouble : Prop) :
    Phase → Phase → Prop where
  | begins (p : Phase) : Foreseen answer trouble .idle p
  | fetches {spec : JobSpec} {r : RunResult} (entries : List Entry)
      (h : answer = some (.ok entries)) : Foreseen answer trouble (.asking spec r)
        (.working spec (r.takeUp entries.length) entries)
  | fails {spec : JobSpec} {r : RunResult} (fault : Fault) (h : answer = some (.error fault))
      (now : DateTime) : Foreseen answer trouble (.asking spec r)
        (.ended spec (r.upon fault now).1 (r.upon fault now).2)
  | works {spec : JobSpec} {r : RunResult} {rest : List Entry} (p : Phase) :
      Foreseen answer trouble (.working spec r rest) p
  | puts {spec : JobSpec} {r : RunResult} {record : Record} {rest : List Entry} :
      Foreseen answer trouble (.offering spec r record rest) (.working spec r.publish rest)
  | disturbed (p : Phase) {spec : JobSpec} {r : RunResult} {outcome : RunOutcome} (h : trouble) :
      Foreseen answer trouble p (.ended spec r outcome)

theorem Phase.Foreseen.of_asking {answer : Option (Except Fault (List Entry))} {spec : JobSpec}
    {r : RunResult} {q : Phase} (h : Foreseen answer False (.asking spec r) q) :
    (∃ entries, answer = some (.ok entries) ∧
        q = .working spec (r.takeUp entries.length) entries) ∨
      ∃ fault now, answer = some (.error fault) ∧
        q = .ended spec (r.upon fault now).1 (r.upon fault now).2 := by
  cases h with
  | fetches entries h => exact .inl ⟨entries, h, rfl⟩
  | fails fault h now => exact .inr ⟨fault, now, h, rfl⟩
  | disturbed _ h => exact h.elim

theorem Phase.stop_upon {spec : JobSpec} {r : RunResult} (fault : Fault) (now : DateTime) :
    Stop spec (.asking spec r) (r.upon fault now).1 (r.upon fault now).2 := by
  unfold RunResult.upon
  cases fault with
  | failure f =>
      dsimp only
      split
      · rename_i hf
        exact .noFeed f hf now
      · rename_i hf
        refine .foreign _ rfl fun g hg => ?_
        rw [← Fault.failure.inj hg]
        simpa using hf
  | outside kind message =>
      dsimp only
      split
      · exact .cancelledAsking now
      · rename_i hc
        exact .foreign _ (by simpa using hc) fun g hg => by cases hg

namespace Affairs

/-- Turns of a run that could be foreseen. -/
abbrev ForeseenTurns (answer : Option (Except Fault (List Entry))) (trouble : Prop)
    (a : ActivityId) (spec : JobSpec) : Affairs → Affairs → Prop :=
  Relation.ReflTransGen fun s t =>
    Turn a spec s t ∧ (s.phase a).Foreseen answer trouble (t.phase a)

namespace ForeseenTurns

variable {answer : Option (Except Fault (List Entry))} {trouble : Prop} {a : ActivityId}
  {spec : JobSpec} {s t u : Affairs} {p q : Phase}

theorem turns (turns : ForeseenTurns answer trouble a spec s t) : Turns a spec s t :=
  turns.lift id fun _ _ h => h.1

theorem of_turn (turn : Turn a spec (s.set a p) (t.set a q))
    (foreseen : p.Foreseen answer trouble q) :
    ForeseenTurns answer trouble a spec (s.set a p) (t.set a q) :=
  .single ⟨turn, by rwa [set_phase_self, set_phase_self]⟩

theorem after (turn : Turn a spec (s.set a p) (t.set a q))
    (foreseen : p.Foreseen answer trouble q)
    (next : ForeseenTurns answer trouble a spec (t.set a q) u) :
    ForeseenTurns answer trouble a spec (s.set a p) u :=
  (of_turn turn foreseen).trans next

end ForeseenTurns

end Affairs

end FeedIntake
