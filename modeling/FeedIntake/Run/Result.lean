import FeedIntake.Decimal.Fixed
import FeedIntake.Fault

/-! # Run results

What a run of one source has done so far: the states it went through, how many entries it fetched
and what became of them, and how it ended.
-/

namespace FeedIntake

open Time (DateTime)

inductive RunState where
  | idle
  | fetching
  | processing
  | committing
  | failed
  | done
  deriving DecidableEq, Repr, Inhabited

namespace RunState

def name : RunState → String
  | idle => "idle"
  | fetching => "fetching"
  | processing => "processing"
  | committing => "committing"
  | failed => "failed"
  | done => "done"

def all : List RunState := [idle, fetching, processing, committing, failed, done]

def ofName? (s : String) : Option RunState := all.find? fun r => r.name == s

end RunState

structure RunResult where
  source : String
  state : RunState
  states : List RunState
  fetched : Nat
  published : Nat
  tooOld : Nat
  repeated : Nat
  /-- Entries that passed because their date could not be used. -/
  undated : Nat
  /-- The identities met, each once, as they were met. -/
  seen : List String
  committed : Bool
  cancelled : Bool
  error : Option String
  retryable : Bool
  started : DateTime
  finished : Option DateTime

namespace RunResult

def start (source : String) (now : DateTime) : RunResult :=
  ⟨source, .idle, [], 0, 0, 0, 0, 0, [], false, false, none, false, now, none⟩

/-- A run has failed if it ever was in the failed state; it ends in the last one either way. -/
def failed (r : RunResult) : Bool := r.states.contains .failed

def success (r : RunResult) : Bool := r.state == .done && !r.failed

def enter (r : RunResult) (state : RunState) : RunResult :=
  { r with state := state, states := r.states ++ [state] }

def finish (r : RunResult) (now : DateTime) : RunResult :=
  { r.enter .done with finished := some now }

def takeUp (r : RunResult) (count : Nat) : RunResult :=
  { r with fetched := count }.enter .processing

/-- Ends a run that is through with its entries, told whether it committed what it met. -/
def conclude (r : RunResult) (committed : Bool) (now : DateTime) : RunResult :=
  { r.enter .committing with committed }.finish now

def fail (r : RunResult) (error : String) (now : DateTime) : RunResult :=
  ({ r with error := some error }.enter .failed).finish now

def cancel (r : RunResult) (now : DateTime) : RunResult :=
  { r with cancelled := true }.fail "cancelled" now

def refuse (r : RunResult) (f : Failure) (now : DateTime) : RunResult :=
  { r with retryable := f.isRetryable }.fail f.message now

/-- Notes an identity, unless it is empty or known. -/
def meet (r : RunResult) (identity : String) : RunResult :=
  if identity.isEmpty || r.seen.contains identity then r
  else { r with seen := r.seen ++ [identity] }

def elapsedMicros (r : RunResult) (now : DateTime) : Int :=
  (r.finished.getD now).position - r.started.position

/-- The time that has passed, where both ends are told with an offset or both without. -/
def durationMicros (r : RunResult) (now : DateTime) : Except Fault Int :=
  if (r.finished.getD now).offset.isSome = r.started.offset.isSome then .ok (r.elapsedMicros now)
  else .error (.outside .wrongType "can't subtract offset-naive and offset-aware datetimes")

def durationSeconds (micros : Int) : Float := Decimal.floatOfScaled micros 6

/-- Seconds rounded to three places, as a double. -/
def roundedSeconds (x : Float) : Float :=
  match Decimal.Binary64.ofFloat x with
  | .finite negative m e =>
      let thousandths := ((Decimal.Ratio.ofBinary m e).shift 3).round
      let rounded := Decimal.floatOfScaled thousandths 3
      if negative then -rounded else rounded
  | _ => x

def figures (r : RunResult) (seconds : Float) : Fields :=
  [("source", .text r.source), ("state", .text r.state.name), ("success", .bool r.success),
    ("entries_fetched", .int r.fetched), ("published", .int r.published),
    ("rejected_recency", .int r.tooOld), ("rejected_dedup", .int r.repeated),
    ("timestamp_fallbacks", .int r.undated), ("seen_ids", .int r.seen.length),
    ("committed", .bool r.committed), ("cancelled", .bool r.cancelled),
    ("error", match r.error with
      | some e => .text e
      | none => .null),
    ("retryable", .bool r.retryable), ("duration_seconds", .float (roundedSeconds seconds))]

def toFields (r : RunResult) (now : DateTime) : Except Fault Fields :=
  return r.figures (durationSeconds (← r.durationMicros now))

end RunResult

end FeedIntake
