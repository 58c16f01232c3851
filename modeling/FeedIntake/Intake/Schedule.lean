import FeedIntake.Intake.Round

/-! # The schedule

What is ready happens one thing after the other, first in line first. Each makes one activity move
as far as it can, which may make others ready. An intake is settled when nothing is ready.
-/

namespace FeedIntake

/-- The entries that an activity may still have to examine, or `most` before it knows them. -/
def Stage.outstanding (most : Nat) : Stage → Nat
  | .atGate ⟨.ok entries, _⟩ => entries.length
  | .onNetwork _ response => response.document.entries.length
  | .atQueue _ rest => rest.length
  | .finished _ => 0
  | _ => most

def Supplier.mostEntries : Supplier → Nat
  | .prepared answers => (answers.map fun a =>
      match a.2.outcome with
      | .ok entries => entries.length
      | .error _ => 0).foldl max 0
  | .network _ => 0

namespace Intake

/-- Goes on with the run of an activity, given what it runs and how far it has come. -/
def goOn (w : Intake) (a : ActivityId) (f : JobSpec → RunResult → Intake) : Intake :=
  match (w.jobOf? a).bind fun j => w.jobs[j]?, w.result? a with
  | some job, some r => f job.spec r
  | _, _ => w

def begin (w : Intake) (a : ActivityId) : Role → Intake
  | .run j => w.beginRun a j
  | .member r j => w.beginMember a r j
  | .round r => w.beginRound a r
  | .collector r _ => w.beginRound a r
  | .taker => w.takeRecords a

/-- Goes on from a stage. Whoever is to stop does so there; with `calledOff` what it waited for will
not come. -/
def act (w : Intake) (a : ActivityId) (role : Role) (calledOff stop : Bool) : Stage → Intake
  | .fresh => if stop then w.endOwner a .cancelled else w.begin a role
  | .inLine =>
      match role with
      | .member r j => w.leaveLine a r j calledOff stop
      | _ => w
  | .atGate answer =>
      w.goOn a fun spec r =>
        if stop then w.cancelRun a spec r else w.deliver a spec r answer.outcome
  | .onNetwork url response =>
      w.goOn a fun spec r =>
        w.receive a spec r url (if stop then interrupted response else response)
  | .atQueue record rest =>
      w.goOn a fun spec r =>
        if stop then w.abandonPut a spec r !calledOff else w.resumePut a spec r record rest
  | .gathering =>
      if stop then w.endOwner a .cancelled
      else
        match role.ownRound? with
        | some r => w.gather a r
        | none => w
  | .awaitingRecord => if stop then w.stopTaking a !calledOff else w.takeRecords a
  | .joining => w.endOwner a (if stop then .cancelled else .done)
  | .finished _ => w

def move (w : Intake) (a : ActivityId) (calledOff : Bool) : Intake :=
  match w.activity? a with
  | none => w
  | some x =>
      let w := w.onActivity a fun x => { x with stopping := false }
      w.act a x.role calledOff (calledOff || x.stopping) x.stage

def happen (w : Intake) : Call → Intake
  | .move a calledOff => w.move a calledOff
  | .note r => w.note r

def tick (w : Intake) : Intake :=
  match w.ready with
  | [] => w
  | c :: rest => ({ w with ready := rest } : Intake).happen c

def ticks : Nat → Intake → Intake
  | 0, w => w
  | n + 1, w => ticks n w.tick

theorem tick_of_ready_nil {w : Intake} (h : w.ready = []) : w.tick = w := by
  unfold tick
  rw [h]

theorem ticks_of_ready_nil {w : Intake} (h : w.ready = []) (n : Nat) : ticks n w = w := by
  induction n with
  | zero => rfl
  | succ n ih => rw [ticks, tick_of_ready_nil h, ih]

/-- More than the largest number of entries that any fetch may bring. -/
def mostEntries (w : Intake) : Nat :=
  let prepared := (w.suppliers.map Supplier.mostEntries).foldl max 0
  let responses := (w.web.map fun r => r.2.document.entries.length).foldl max 0
  max prepared responses + 1

/-- A number of things after which an intake is settled. Every activity waits at most once for a
permit and once for its entries, and is woken for the queue at most once for every record that
passes through it. -/
def patience (w : Intake) : Nat :=
  let most := w.mostEntries
  let entries := total (w.activities.map fun x => x.stage.outstanding most)
  let members := total (w.rounds.map fun r => r.spec.sources.length)
  let activities := w.activities.length + members
  w.ready.length + 8 * (activities + 1) + 4 * (entries + members * most + w.queue.records.length)

/-- Lets everything happen that is ready or becomes so. -/
def settle (w : Intake) : Intake := ticks w.patience w

end Intake

end FeedIntake
