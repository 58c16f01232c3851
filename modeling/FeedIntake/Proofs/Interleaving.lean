import FeedIntake.Proofs.Rounds

/-! # Interleavings

What may happen to an intake, in any order and as often as one likes: anything that is ready,
however many others wait before it, and anything that may be done from outside, a cancellation at
any moment included. Nobody but a run writes to the store. The schedule of the program, first in
line first, is one such order among others.

Any step is a course of the affairs. So whatever holds of the affairs at the beginning and through
every turn and take holds of every state that an intake can reach.
-/

namespace FeedIntake

open Affairs
open Time (DateTime)

namespace Intake

/-! ## What one move does -/

section

variable {w : Intake} {a : ActivityId}

theorem goOn_eq {r : RunResult} {spec : JobSpec} (hs : w.specOf? a = some spec)
    (hr : w.result? a = some r) (f : JobSpec → RunResult → Intake) : w.goOn a f = f spec r := by
  obtain ⟨job, hjob, rfl⟩ := Option.map_eq_some_iff.mp hs
  unfold goOn
  rw [hjob, hr]

theorem goOn_cases (w : Intake) (a : ActivityId) (f : JobSpec → RunResult → Intake) :
    w.goOn a f = w ∨ ∃ spec r, w.view.spec? a = some spec ∧ w.view.result? a = some r ∧
      w.goOn a f = f spec r := by
  unfold goOn
  split
  · rename_i job r hjob hr
    exact .inr ⟨job.spec, r, by rw [view_spec?, specOf?, hjob, Option.map_some],
      by rw [view_result?, hr], rfl⟩
  · exact .inl rfl

theorem goOn_runsOn {f : JobSpec → RunResult → Intake}
    (hf : ∀ spec r, w.view.spec? a = some spec → w.view.result? a = some r →
      Turns a spec w.affairs (f spec r).affairs) : w.view.RunsOn a (w.goOn a f).view := by
  rcases goOn_cases w a f with heq | ⟨spec, r, hs, hr, heq⟩
  · rw [heq]
    exact .refl _ _
  · rw [heq]
    exact .inr ⟨spec, hs, hf spec r hs hr⟩

theorem begin_runsOn_or_takes {role : Role} (hrole : w.role? a = some role)
    (htidy : w.affairs.Tidy) (hidle : w.affairs.phase a = .idle) :
    w.view.RunsOn a (w.begin a role).view ∨ Takes w.affairs (w.begin a role).affairs := by
  have hjob : w.jobOf? a = role.job? := by
    rw [jobOf?, hrole, Option.bind_some]
  cases role with
  | run j =>
      exact .inl (beginRun_foreseen hjob (promises_answer? hjob) (fun _ => trivial) hidle).runsOn
  | member r j =>
      exact .inl
        (beginMember_foreseen hjob (promises_answer? hjob) (fun _ => trivial) hidle).runsOn
  | round r => exact .inl (.inl (affairs_beginRound htidy hidle r))
  | collector r taker => exact .inl (.inl (affairs_beginRound htidy hidle r))
  | taker => exact .inr (takeRecords_takes hidle)

theorem act_runsOn_or_takes {x : Activity} (hx : w.activity? a = some x) (htidy : w.affairs.Tidy)
    (calledOff stop : Bool) :
    w.view.RunsOn a (w.act a x.role calledOff stop x.stage).view ∨
      Takes w.affairs (w.act a x.role calledOff stop x.stage).affairs := by
  have hc : w.view.core a = some x.core := by rw [view_core, hx, Option.map_some]
  have hrole : w.role? a = some x.role := by rw [role?, hx, Option.map_some]
  have hidle (h : ∀ spec r, View.standing spec r x.stage = .astray) :
      w.affairs.phase a = .idle := View.phase_eq_idle_of_standing hc h (htidy a)
  have hplace {spec : JobSpec} {r : RunResult} (hs : w.view.spec? a = some spec)
      (hr : w.view.result? a = some r) :
      w.affairs = w.affairs.set a (View.standing spec r x.stage) :=
    (set_eq_self (View.phase_eq_standing hc hs hr)).symm
  unfold act
  cases hstage : x.stage with
  | fresh =>
      have hfresh := hidle (by rw [hstage]; exact fun _ _ => rfl)
      dsimp only
      split
      · exact .inl (.inl (affairs_endOwner_of_idle hfresh .cancelled))
      · exact begin_runsOn_or_takes hrole htidy hfresh
  | inLine =>
      left
      dsimp only
      split
      · rename_i r j hmember
        have hjob : w.jobOf? a = some j := by
          rw [jobOf?, hrole, hmember]
          rfl
        exact (leaveLine_foreseen hjob (promises_answer? hjob) (fun _ => trivial)
          (hidle (by rw [hstage]; exact fun _ _ => rfl)) _ _).runsOn
      · exact .refl _ _
  | atGate answer =>
      refine .inl (goOn_runsOn fun spec r hs hr => ?_)
      have hat := hplace hs hr
      rw [hstage] at hat
      rw [hat]
      split
      · exact cancelRun_turns hs fun now => .cancelledAsking now
      · exact deliver_turns hs hr _
  | onNetwork url response =>
      refine .inl (goOn_runsOn fun spec r hs hr => ?_)
      have hat := hplace hs hr
      rw [hstage] at hat
      rw [hat]
      exact receive_turns hs hr _ _
  | atQueue record rest =>
      refine .inl (goOn_runsOn fun spec r hs hr => ?_)
      have hat := hplace hs hr
      rw [hstage] at hat
      rw [hat]
      split
      · exact abandonPut_turns hs r record rest _
      · exact resumePut_turns hs hr record rest
  | gathering =>
      left
      have hgathering := hidle (by rw [hstage]; exact fun _ _ => rfl)
      dsimp only
      split
      · exact .inl (affairs_endOwner_of_idle hgathering .cancelled)
      · split
        · exact .inl (affairs_gather hgathering _)
        · exact .refl _ _
  | awaitingRecord =>
      have hwaiting := hidle (by rw [hstage]; exact fun _ _ => rfl)
      dsimp only
      split
      · exact .inl (.inl (affairs_stopTaking hwaiting _))
      · exact .inr (takeRecords_takes hwaiting)
  | joining =>
      have hjoining := hidle (by rw [hstage]; exact fun _ _ => rfl)
      exact .inl (.inl (affairs_endOwner_of_idle hjoining _))
  | finished outcome => exact .inl (.refl _ _)

theorem move_runsOn_or_takes (htidy : w.affairs.Tidy) (a : ActivityId) (calledOff : Bool) :
    w.view.RunsOn a (w.move a calledOff).view ∨
      Takes w.affairs (w.move a calledOff).affairs := by
  unfold move
  split
  · exact .inl (.refl _ _)
  · rename_i x hx
    have hview : (w.onActivity a fun x => { x with stopping := false }).view = w.view :=
      view_onActivity_of_unseen _ _ fun _ => rfl
    have hsame : (w.onActivity a fun x => { x with stopping := false }).affairs = w.affairs := by
      rw [affairs, hview, affairs]
    have hact := act_runsOn_or_takes (w := w.onActivity a fun x => { x with stopping := false })
      (a := a) (x := { x with stopping := false })
      (by simp only [activity?, onActivity] at hx ⊢; simp [hx]) (by rw [hsame]; exact htidy)
      calledOff (calledOff || x.stopping)
    rw [hsame, hview] at hact
    exact hact

theorem happen_course (htidy : w.affairs.Tidy) (c : Call) :
    Course w.affairs (w.happen c).affairs := by
  cases c with
  | move a calledOff =>
      rcases move_runsOn_or_takes htidy a calledOff with (hsame | ⟨spec, -, turns⟩) | takes
      · have hsame' : (w.move a calledOff).affairs = w.affairs := hsame
        rw [happen, hsame']
        exact Course.refl _
      · exact Course.of_turns turns
      · exact Course.of_takes takes
  | note r =>
      rw [happen, affairs_note]
      exact Course.refl _

end

/-! ## All that may happen -/

/-- What may happen next. -/
inductive Step : Intake → Intake → Prop where
  | happen {w : Intake} (before : List Call) (c : Call) (after : List Call)
      (h : w.ready = before ++ c :: after) :
      Step w (({ w with ready := before ++ after } : Intake).happen c)
  | clock (w : Intake) (now : DateTime) : Step w { w with now }
  | web (w : Intake) (web : List (String × Response)) : Step w { w with web }
  | refusal (w : Intake) (refusal : Option (Nat × Fault)) :
      Step w { w with queue := { w.queue with refusal } }
  | addSupplier (w : Intake) (s : Supplier) : Step w (w.addSupplier s).1
  | prepare (w : Intake) (s : SupplierId) (answers : List (String × Answer)) :
      Step w (w.prepare s answers)
  | addJob (w : Intake) (spec : JobSpec) (supplier : SupplierId) : Step w (w.addJob spec supplier).1
  | startRun (w : Intake) (j : JobId) : Step w (w.startRun j).1
  | startRound (w : Intake) (spec : RoundSpec) : Step w (w.startRound spec).1
  | startCollecting (w : Intake) (spec : RoundSpec) : Step w (w.startCollecting spec).1
  | openGate (w : Intake) (source : String) : Step w (w.openGate source)
  | cancel (w : Intake) (a : ActivityId) : Step w (w.cancel a).1
  | takeOne {w w' : Intake} {record : Record} (h : w.takeOne = some (record, w')) : Step w w'

abbrev Reaches : Intake → Intake → Prop := Relation.ReflTransGen Step

theorem affairs_openGate (w : Intake) (source : String) :
    (w.openGate source).affairs = w.affairs :=
  openGate_induction (P := fun v => v.affairs = w.affairs) source (fun _ _ => rfl) fun v b hv => by
    rw [affairs, view_wake]
    exact hv

theorem takeOne_take {w w' : Intake} {record : Record} (h : w.takeOne = some (record, w')) :
    Take w.affairs w'.affairs := by
  unfold takeOne at h
  obtain ⟨⟨first, queue, putter⟩, hpop, heq⟩ := Option.map_eq_some_iff.mp h
  obtain ⟨rfl, rfl⟩ := Prod.mk.inj heq
  have take := Take.take (s := w.affairs) (RecordQueue.pop_records hpop)
  rw [affairs, affairs, view_withQueue]
  exact take

theorem Step.course {w w' : Intake} (step : Step w w') (htidy : w.affairs.Tidy) :
    Course w.affairs w'.affairs := by
  cases step with
  | happen before c after h =>
      exact happen_course (w := { w with ready := before ++ after }) htidy c
  | clock now => exact Course.refl _
  | web web => exact Course.refl _
  | refusal refusal => exact Course.refl _
  | addSupplier s => exact Course.refl _
  | prepare s answers => exact Course.refl _
  | addJob spec supplier =>
      rw [affairs_addJob htidy]
      exact Course.refl _
  | startRun j =>
      rw [Intake.startRun, affairs_add]
      exact Course.refl _
  | startRound spec =>
      have hsame := affairs_add w (.round w.rounds.length)
      rw [← hsame]
      exact Course.refl _
  | startCollecting spec =>
      have hsame := (affairs_add (w.add (.collector w.rounds.length (w.activities.length + 1))).1
        .taker).trans (affairs_add w _)
      rw [← hsame]
      exact Course.refl _
  | openGate source =>
      rw [affairs_openGate]
      exact Course.refl _
  | cancel a =>
      have hsame : (w.cancel a).1.affairs = w.affairs := by rw [affairs, view_cancel, affairs]
      rw [hsame]
      exact Course.refl _
  | takeOne h => exact Course.of_takes (.single (takeOne_take h))

theorem Reaches.course {w w' : Intake} (reach : Reaches w w') (htidy : w.affairs.Tidy) :
    Course w.affairs w'.affairs := by
  induction reach with
  | refl => exact Course.refl _
  | tail _ step ih => exact ih.trans (step.course (ih.tidy htidy))

theorem affairs_start (now : DateTime) (queue : RecordQueue) (store : Snapshots)
    (web : List (String × Response)) :
    (start now queue store web).affairs = ⟨store, queue.records, [], fun _ => .idle⟩ := by
  have hphase : (start now queue store web).view.phase = fun _ => .idle := by
    funext a
    exact View.phase_eq_idle_iff.mpr fun c hc => by simp [view, start] at hc
  unfold affairs View.affairs
  rw [hphase]
  rfl

theorem tidy_start (now : DateTime) (queue : RecordQueue) (store : Snapshots)
    (web : List (String × Response)) : (start now queue store web).affairs.Tidy := by
  rw [affairs_start]
  exact fun _ => by simp

section

variable {now : DateTime} {queue : RecordQueue} {store : Snapshots}
  {web : List (String × Response)} {w : Intake}

/-- Every state reached has come about from the beginning by turns and takes. -/
theorem Reaches.course_of_start (reach : Reaches (start now queue store web) w) :
    Course ⟨store, queue.records, [], fun _ => .idle⟩ w.affairs := by
  have course := reach.course (tidy_start now queue store web)
  rwa [affairs_start] at course

theorem Reaches.tidy_of_start (reach : Reaches (start now queue store web) w) : w.affairs.Tidy :=
  reach.course_of_start.tidy fun _ => by simp

/-- Whoever has a result stands with it where a run of the job can be. -/
theorem Reaches.stands (reach : Reaches (start now queue store web) w) {a : ActivityId}
    {spec : JobSpec} {r : RunResult} (hs : w.specOf? a = some spec) (hr : w.result? a = some r) :
    (w.affairs.phase a).spec? = some spec ∧ (w.affairs.phase a).result? = some r :=
  View.phase_spec?_result? (by rw [view_spec?]; exact hs) (by rw [view_result?]; exact hr)
    (reach.tidy_of_start a)

end

/-! ## The schedule is one of the orders -/

theorem tick_reaches (w : Intake) : Reaches w w.tick := by
  unfold tick
  split
  · exact .refl
  · rename_i c rest hready
    exact .single (.happen [] c rest hready)

theorem ticks_reaches (n : Nat) (w : Intake) : Reaches w (ticks n w) := by
  induction n generalizing w with
  | zero => exact .refl
  | succ n ih => exact (tick_reaches w).trans (ih w.tick)

theorem settle_reaches (w : Intake) : Reaches w w.settle := ticks_reaches _ w

theorem drain_reaches (w : Intake) : Reaches w w.drain.2 := by
  unfold drain
  dsimp only
  generalize w.queue.records.length = n
  induction n with
  | zero => exact .refl
  | succ n ih =>
      refine ih.trans ?_
      rw [Nat.repeat]
      split
      · rename_i record w' htake
        exact .single (.takeOne htake)
      · exact .refl

theorem takeSettling_reaches (n : Nat) (w : Intake) : Reaches w (takeSettling n w).2 := by
  induction n generalizing w with
  | zero => exact .refl
  | succ n ih =>
      unfold takeSettling
      split
      · exact .refl
      · rename_i record w' htake
        exact (Relation.ReflTransGen.single (.takeOne htake)).trans
          ((settle_reaches w').trans (ih w'.settle))

/-! ## One feed read by one job -/

end Intake

/-- A perpetual job that publishes entries of any date. -/
def JobSpec.ofSource (source : String) : JobSpec := ⟨source, .first, 1000, true⟩

namespace Intake

def ofFeed (queue : RecordQueue) (spec : JobSpec) (entries : List Entry) : Intake :=
  let w := start Time.Instant.first.toDateTime queue .unbounded []
  let w := (w.addSupplier (.prepared [(spec.source, ⟨.ok entries, false⟩)])).1
  (w.addJob spec 0).1

theorem reaches_ofFeed (queue : RecordQueue) (spec : JobSpec) (entries : List Entry) :
    Reaches (start Time.Instant.first.toDateTime queue .unbounded []) (ofFeed queue spec entries) :=
  (Relation.ReflTransGen.single (.addSupplier _ _)).tail (.addJob _ spec 0)

def readTwice (queue : RecordQueue) (spec : JobSpec) (entries : List Entry) : Intake :=
  ticks 2 (((ofFeed queue spec entries).startRun 0).1.startRun 0).1

theorem reaches_readTwice (queue : RecordQueue) (spec : JobSpec) (entries : List Entry) :
    Reaches (start Time.Instant.first.toDateTime queue .unbounded [])
      (readTwice queue spec entries) :=
  (((reaches_ofFeed queue spec entries).tail (.startRun _ 0)).tail (.startRun _ 0)).trans
    (ticks_reaches 2 _)

end Intake

end FeedIntake
