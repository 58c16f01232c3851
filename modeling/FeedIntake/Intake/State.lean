import FeedIntake.Feed.Fetcher
import FeedIntake.Intake.History
import FeedIntake.Intake.Permits

/-! # The state of an intake

Everything that runs of many sources share while they go on at the same time: the queue, the store
of snapshots, and who is to move next. An activity moves until it has to wait and then names what it
waits for; what it waits for puts it back among those ready to move, behind all others there. It is
no part of the state in which order the ready ones move, so that every order can be followed.
-/

namespace FeedIntake

open Time (DateTime)

abbrev JobId := Nat

abbrev RoundId := Nat

abbrev SupplierId := Nat

/-- An answer prepared for a source, given at once or when the gate of the source is open. -/
structure Answer where
  outcome : Except Fault (List Entry)
  gated : Bool

/-- Where entries come from. -/
inductive Supplier where
  | prepared (answers : List (String × Answer))
  | network (fetcher : Fetcher)

inductive RunOutcome where
  | done
  | cancelled
  | failed (fault : Fault)

inductive Role where
  | run (job : JobId)
  /-- Runs a job as one of a round, with a permit of the round. -/
  | member (round : RoundId) (job : JobId)
  /-- Starts the jobs of a round and gathers their results. -/
  | round (round : RoundId)
  /-- Does the same beside an activity that takes the records, and waits until all are taken. -/
  | collector (round : RoundId) (taker : ActivityId)
  | taker
  deriving DecidableEq, Repr

namespace Role

def job? : Role → Option JobId
  | run j | member _ j => some j
  | _ => none

def ownRound? : Role → Option RoundId
  | round r | collector r _ => some r
  | _ => none

end Role

/-- What an activity is to do when it moves next. -/
inductive Stage where
  | fresh
  | inLine
  | atGate (answer : Answer)
  | onNetwork (url : String) (response : Response)
  | atQueue (record : Record) (rest : List Entry)
  | gathering
  | awaitingRecord
  | joining
  | finished (outcome : RunOutcome)

structure Activity where
  role : Role
  stage : Stage
  /-- Whether it waits for something that has not come. -/
  waiting : Bool
  stopping : Bool
  /-- The result of the run that it makes. -/
  result : Option RunResult

def Activity.ofRole (role : Role) : Activity := ⟨role, .fresh, false, false, none⟩

structure Job where
  spec : JobSpec
  supplier : SupplierId
  /-- The state that a run of the job entered last. -/
  state : RunState
  latest : Option ActivityId

structure RoundSpec where
  sources : List String
  since : DateTime
  timeoutMs : Int
  perpetual : Bool
  supplier : SupplierId
  limit : Int

structure Round where
  spec : RoundSpec
  owner : ActivityId
  permits : Permits
  members : List ActivityId
  /-- How many members the owner knows to have ended. -/
  ended : Nat
  stopping : Bool
  results : List RunResult

def Round.new (spec : RoundSpec) (owner : ActivityId) : Round :=
  ⟨spec, owner, .ofCount 0, [], 0, false, []⟩

inductive Call where
  /-- An activity moves; with `cancelled` it learns that what it waited for was called off. -/
  | move (a : ActivityId) (cancelled : Bool)
  /-- The owner of a round takes note that a member has ended. -/
  | note (round : RoundId)
  deriving DecidableEq, Repr

structure Intake where
  now : DateTime
  queue : RecordQueue
  store : Snapshots
  openGates : List String
  /-- Who waits at which gate, in the order of their coming. -/
  gateLine : List (String × ActivityId)
  suppliers : List Supplier
  web : List (String × Response)
  /-- Fetches so far: of whom, of what, and within how many milliseconds. -/
  fetches : List (SupplierId × String × Int)
  requests : List WebRequest
  jobs : List Job
  rounds : List Round
  activities : List Activity
  ready : List Call
  /-- The records taken by those who take them as they come. -/
  taken : List Record
  logs : List LogEntry
  history : History

namespace Intake

def start (now : DateTime) (queue : RecordQueue) (store : Snapshots)
    (web : List (String × Response)) : Intake :=
  ⟨now, queue, store, [], [], [], web, [], [], [], [], [], [], [], [], []⟩

def activity? (w : Intake) (a : ActivityId) : Option Activity := w.activities[a]?

def onActivity (w : Intake) (a : ActivityId) (f : Activity → Activity) : Intake :=
  { w with activities := w.activities.modify a f }

def onJob (w : Intake) (j : JobId) (f : Job → Job) : Intake :=
  { w with jobs := w.jobs.modify j f }

def onRound (w : Intake) (r : RoundId) (f : Round → Round) : Intake :=
  { w with rounds := w.rounds.modify r f }

def log (w : Intake) (entries : List LogEntry) : Intake := { w with logs := w.logs ++ entries }

def tell (w : Intake) (e : Event) : Intake := { w with history := e :: w.history }

def call (w : Intake) (c : Call) : Intake := { w with ready := w.ready ++ [c] }

def add (w : Intake) (role : Role) : Intake × ActivityId :=
  let a := w.activities.length
  let w := { w with activities := w.activities ++ [Activity.ofRole role] }
  (w.call (.move a false), a)

def addJob (w : Intake) (spec : JobSpec) (supplier : SupplierId) : Intake × JobId :=
  let job : Job := ⟨spec, supplier, .idle, none⟩
  ({ w with jobs := w.jobs ++ [job] }, w.jobs.length)

/-- What an activity waits for has come. -/
def wake (w : Intake) (a : ActivityId) : Intake :=
  (w.onActivity a fun x => { x with waiting := false }).call (.move a false)

/-- The same for whoever was first in a line, if anybody was. -/
def wakeAny (w : Intake) (a : Option ActivityId) : Intake :=
  match a with
  | some a => w.wake a
  | none => w

def enter (w : Intake) (a : ActivityId) (stage : Stage) : Intake :=
  w.onActivity a fun x => { x with stage := stage }

def suspend (w : Intake) (a : ActivityId) (stage : Stage) : Intake :=
  w.onActivity a fun x => { x with stage := stage, waiting := true }

def result? (w : Intake) (a : ActivityId) : Option RunResult := (w.activity? a).bind (·.result)

def role? (w : Intake) (a : ActivityId) : Option Role := (w.activity? a).map (·.role)

def jobOf? (w : Intake) (a : ActivityId) : Option JobId := (w.role? a).bind Role.job?

def jobResult? (w : Intake) (j : JobId) : Option RunResult :=
  (w.jobs[j]?).bind fun job => job.latest.bind w.result?

def keep (w : Intake) (a : ActivityId) (r : RunResult) : Intake :=
  w.onActivity a fun x => { x with result := some r }

/-- Does the same for a run that has entered a state, which is from now on the state of its job. -/
def advance (w : Intake) (a : ActivityId) (r : RunResult) : Intake :=
  let w := w.keep a r
  match w.jobOf? a with
  | some j => w.onJob j fun job => { job with state := r.state }
  | none => w

def withQueue (w : Intake) (q : RecordQueue × Option ActivityId) : Intake :=
  ({ w with queue := q.1 } : Intake).wakeAny q.2

def withPermits (w : Intake) (r : RoundId) (p : Permits × Option ActivityId) : Intake :=
  (w.onRound r fun x => { x with permits := p.1 }).wakeAny p.2

def commit (w : Intake) (source : String) (identities : List String) : Intake :=
  let entries := w.store.commitEntries source identities
  { w with store := w.store.commit source identities, logs := w.logs ++ entries }

end Intake

end FeedIntake
