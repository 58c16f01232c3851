import FeedIntake.Log.Entry
import FeedIntake.Recency
import FeedIntake.Run.Result
import FeedIntake.Snapshots

/-! # Jobs

A job reads one source: it says from when on entries are published and whether those that the last
completed run met are left out. Every entry is examined on its own. An entry too old is not looked
up among the known ones, but its identity counts as met all the same.
-/

namespace FeedIntake

open Time (DateTime Instant)

structure JobSpec where
  source : String
  since : Instant
  timeoutMs : Int
  perpetual : Bool

inductive Verdict where
  | tooOld
  | repeated
  | admitted
  deriving DecidableEq, Repr

namespace JobSpec

def begun (spec : JobSpec) (now : DateTime) : RunResult :=
  (RunResult.start spec.source now).enter .fetching

/-- Judges a record against the threshold and the snapshot that the store holds now. -/
def judge (spec : JobSpec) (store : Snapshots) (r : Record) : Verdict :=
  if !r.publishedAt.passes spec.since then .tooOld
  else if spec.perpetual && store.seenBefore spec.source r.identity then .repeated
  else .admitted

end JobSpec

namespace RunResult

/-- Counts an examined record. One that is admitted is counted as published only when it is put. -/
def examine (r : RunResult) (record : Record) (verdict : Verdict) : RunResult :=
  let r := r.meet record.identity
  let r := if record.publishedAt.isFallback then { r with undated := r.undated + 1 } else r
  match verdict with
  | .tooOld => { r with tooOld := r.tooOld + 1 }
  | .repeated => { r with repeated := r.repeated + 1 }
  | .admitted => r

def publish (r : RunResult) : RunResult := { r with published := r.published + 1 }

end RunResult

/-! ## What is logged on a run -/

namespace JobSpec

def logger (spec : JobSpec) : Logger := ⟨"ingestion_task", some spec.source⟩

def figures (r : RunResult) (now : DateTime) : Fields :=
  r.figures (RunResult.durationSeconds (r.elapsedMicros now))

/-- A record whose date cannot be used is mentioned, since it passes for want of one. -/
def examineEntries (spec : JobSpec) (record : Record) : List LogEntry :=
  match record.publishedAt.reason? with
  | none => []
  | some reason =>
      let name := if record.identity.isEmpty then "entry" else record.identity
      [spec.logger.entry .debug
        s!"No usable published date ({reason}), queueing {name} by default" []]

def publishEntry (spec : JobSpec) (record : Record) : LogEntry :=
  spec.logger.entry .debug s!"Added entry, {record.identity}, to provider queue." []

def fetchFailureEntry (spec : JobSpec) (f : Failure) : LogEntry :=
  spec.logger.entry .warning s!"Exception while reading feed {spec.source}: {f.message}" f.toFields

def completionEntry (spec : JobSpec) (r : RunResult) (now : DateTime) : LogEntry :=
  spec.logger.entry .info
    (s!"Run complete for {spec.source}: {r.published}/{r.fetched} published, " ++
      s!"{r.tooOld} too old, {r.repeated} seen before")
    (figures r now)

def processingFailureEntry (spec : JobSpec) (r : RunResult) (fault : Fault) (now : DateTime) :
    LogEntry :=
  { spec.logger.entry .error s!"Processing failed for {spec.source}" (figures r now) with
    fault := some fault }

def cancellationEntry (spec : JobSpec) (r : RunResult) (now : DateTime) : LogEntry :=
  spec.logger.entry .warning
    s!"Run cancelled for {spec.source} after {r.published} published entries" (figures r now)

def processingError (fault : Fault) : String := fault.className ++ ": " ++ fault.message

def processingFailure (spec : JobSpec) (fault : Fault) : Failure :=
  ((Failure.of .ingestion ("Processing failed: " ++ processingError fault)).about
    (.text spec.source)).causedBy fault.className

end JobSpec

end FeedIntake
