import FeedIntake.Intake.Schedule

/-! # What is done to an intake from outside

Jobs and rounds are set up and begun, gates opened, and records taken out of the queue by hand.
Nothing moves by any of this; what becomes ready happens when the intake is next let settle.
-/

namespace FeedIntake

namespace Intake

def addSupplier (w : Intake) (s : Supplier) : Intake × SupplierId :=
  ({ w with suppliers := w.suppliers ++ [s] }, w.suppliers.length)

/-- Adds prepared answers to a supplier, in place of older ones for the same sources. -/
def prepare (w : Intake) (s : SupplierId) (answers : List (String × Answer)) : Intake :=
  { w with suppliers := w.suppliers.modify s fun
      | .prepared old => .prepared (answers ++ old)
      | network => network }

def fetchesOf (w : Intake) (s : SupplierId) : List (String × Int) :=
  (w.fetches.filter fun f => f.1 == s).map (·.2)

def startRun (w : Intake) (j : JobId) : Intake × ActivityId := w.add (.run j)

def startRound (w : Intake) (spec : RoundSpec) : Intake × RoundId :=
  let r := w.rounds.length
  let (w, a) := w.add (.round r)
  ({ w with rounds := w.rounds ++ [Round.new spec a] }, r)

/-- Starts a round and an activity that takes its records as they come. -/
def startCollecting (w : Intake) (spec : RoundSpec) : Intake × RoundId :=
  let r := w.rounds.length
  let (w, a) := w.add (.collector r (w.activities.length + 1))
  let (w, _) := w.add .taker
  ({ w with rounds := w.rounds ++ [Round.new spec a] }, r)

def outcome? (w : Intake) (a : ActivityId) : Option RunOutcome :=
  (w.activity? a).bind fun x =>
    match x.stage with
    | .finished outcome => some outcome
    | _ => none

def roundOutcome? (w : Intake) (r : RoundId) : Option RunOutcome :=
  (w.rounds[r]?).bind fun round => w.outcome? round.owner

def openGate (w : Intake) (source : String) : Intake :=
  let (admitted, others) := w.gateLine.partition fun e => e.1 == source
  let w := { w with openGates := source :: w.openGates, gateLine := others }
  admitted.foldl (fun w e => w.wake e.2) w

def takeOne (w : Intake) : Option (Record × Intake) :=
  w.queue.pop.map fun p => (p.1, (w.tell (.taken p.1)).withQueue (p.2.1.settleOne, p.2.2))

def drain (w : Intake) : List Record × Intake :=
  (w.queue.records, Nat.repeat
    (fun w => match w.takeOne with
      | some (_, w) => w
      | none => w) w.queue.records.length w)

/-- Takes up to so many records and lets the intake settle after each. -/
def takeSettling : Nat → Intake → List Record × Intake
  | 0, w => ([], w)
  | n + 1, w =>
      match w.takeOne with
      | none => ([], w)
      | some (record, w) =>
          let (records, w) := takeSettling n w.settle
          (record :: records, w)

end Intake

end FeedIntake
