import FeedIntake.Intake.Cancellation

/-! # Rounds

A round runs every source of a list once, as many at a time as it has permits, and gives one result
for each, in the order of the list. A source that fails does not keep the others from running.
-/

namespace FeedIntake

namespace Round

def logger : Logger := ⟨"provider", none⟩

def startEntry (count : Nat) : LogEntry := logger.entry .info s!"Starting run of {count} feeds" []

def failureEntry (source : String) (fault : Fault) : LogEntry :=
  logger.entry .error s!"Run failed for {source}: {fault.message}" [("source", .text source)]

def summaryEntry (results : List RunResult) : LogEntry :=
  let successful := (results.filter (·.success)).length
  let published := total (results.map (·.published))
  logger.entry .info
    (s!"Run complete: {successful}/{results.length} feeds successful, " ++
      s!"{published} records queued") []

end Round

namespace Intake

/-! ## Members -/

def beginMember (w : Intake) (a : ActivityId) (r : RoundId) (j : JobId) : Intake :=
  match w.rounds[r]? with
  | none => w
  | some round =>
      if round.permits.isTaken then
        (w.onRound r fun x => { x with permits := x.permits.join a }).suspend a .inLine
      else (w.onRound r fun x => { x with permits := x.permits.take }).beginRun a j

/-- Goes on from the line for permits. Who was called off has left it without one. -/
def leaveLine (w : Intake) (a : ActivityId) (r : RoundId) (j : JobId) (calledOff stop : Bool) :
    Intake :=
  match w.rounds[r]? with
  | none => w
  | some round =>
      if calledOff then w.close a .cancelled
      else if stop then (w.withPermits r (round.permits.giveUp a)).close a .cancelled
      else (w.withPermits r (round.permits.moveOn a)).beginRun a j

/-- Adds a job for a source of a round and the member that is to run it. -/
def addMember (w : Intake) (r : RoundId) (spec : JobSpec) (supplier : SupplierId) : Intake :=
  let (w, j) := w.addJob spec supplier
  let (w, a) := w.add (.member r j)
  w.onRound r fun x => { x with members := x.members ++ [a] }

/-! ## The owner -/

/-- Ends the owner of a round. A collector sends the taker of its records away. -/
def endOwner (w : Intake) (a : ActivityId) (outcome : RunOutcome) : Intake :=
  match w.role? a with
  | some (.collector _ taker) => (w.callOff taker).1.close a outcome
  | _ => w.close a outcome

def endRound (w : Intake) (a : ActivityId) (r : RoundId) (results : List RunResult) : Intake :=
  let w := w.onRound r fun x => { x with results := results }
  match w.role? a with
  | some (.collector _ _) =>
      if w.queue.unfinished = 0 then w.endOwner a .done else w.suspend a .joining
  | _ => w.endOwner a .done

def beginRound (w : Intake) (a : ActivityId) (r : RoundId) : Intake :=
  match w.rounds[r]? with
  | none => w
  | some round =>
      let spec := round.spec
      if spec.sources.isEmpty then w.endRound a r []
      else
        let w := w.log [Round.startEntry spec.sources.length]
        if spec.limit < 0 then
          w.endOwner a (.failed (.outside .value "Semaphore initial value must be >= 0"))
        else
          match thresholdOf spec.since with
          | .error fault => w.endOwner a (.failed fault)
          | .ok since =>
              let w := w.onRound r fun x => { x with permits := .ofCount spec.limit.toNat }
              let w := spec.sources.foldl (fun w source =>
                w.addMember r ⟨source, since, spec.timeoutMs, spec.perpetual⟩ spec.supplier) w
              w.suspend a .gathering

/-- What came of a member, with what is logged of it; nothing if it was cancelled. -/
def account (w : Intake) (m : ActivityId) : Option (RunResult × List LogEntry) :=
  (w.activity? m).bind fun x =>
    match x.stage, x.result with
    | .finished .done, some r => some (r, [])
    | .finished (.failed fault), some r => some (r, [Round.failureEntry r.source fault])
    | _, _ => none

/-- The results of all members, unless one was cancelled, with what is logged up to there. -/
def accounts (w : Intake) : List ActivityId → List LogEntry × Option (List RunResult)
  | [] => ([], some [])
  | m :: rest =>
      match w.account m with
      | none => ([], none)
      | some (r, entries) =>
          let (more, results) := w.accounts rest
          (entries ++ more, results.map (r :: ·))

def gather (w : Intake) (a : ActivityId) (r : RoundId) : Intake :=
  match w.rounds[r]? with
  | none => w
  | some round =>
      let (entries, results) := w.accounts round.members
      let w := w.log entries
      match results with
      | none => w.endOwner a .cancelled
      | some results => (w.log [Round.summaryEntry results]).endRound a r results

/-- Notes that a member has ended, and wakes the owner after the last one. -/
def note (w : Intake) (r : RoundId) : Intake :=
  let w := w.onRound r fun x => { x with ended := x.ended + 1 }
  match w.rounds[r]? with
  | none => w
  | some round =>
      if round.ended = round.members.length then
        let w := w.onActivity round.owner fun x => { x with waiting := false }
        w.call (.move round.owner round.stopping)
      else w

/-! ## Taking records as they come -/

def wakeJoining (w : Intake) : Intake :=
  (List.range w.activities.length).foldl (fun w a =>
    match w.activity? a with
    | some ⟨_, .joining, true, _, _⟩ => w.wake a
    | _ => w) w

def takeRecord (w : Intake) : Intake :=
  match w.queue.pop with
  | none => w
  | some (record, queue, putter) =>
      let w := ({ w with taken := w.taken ++ [record] } : Intake).tell (.taken record)
      let w := w.withQueue (queue.settleOne, putter)
      if w.queue.unfinished = 0 then w.wakeJoining else w

def takeRecords (w : Intake) (a : ActivityId) : Intake :=
  let w := Nat.repeat takeRecord w.queue.records.length w
  ({ w with queue := w.queue.awaitRecord a } : Intake).suspend a .awaitingRecord

/-- Stops taking records. A record that this activity was woken for is offered to the next. -/
def stopTaking (w : Intake) (a : ActivityId) (woken : Bool) : Intake :=
  let w := if woken && !w.queue.isEmpty then w.withQueue w.queue.nextGetter else w
  w.close a .cancelled

end Intake

end FeedIntake
