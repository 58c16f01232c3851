import FeedIntake.Intake.Queue
import FeedIntake.Run.Job

/-! # The history of an intake

What the runs did with their entries and which records left the queue. Nothing that moves an intake
reads its history: it is kept so that one can say what had happened when something else did.
-/

namespace FeedIntake

inductive Deed where
  | fetched (entries : List Entry)
  | judged (record : Record) (verdict : Verdict)
  | put (record : Record)
  | committed (identities : List String)

inductive Event where
  /-- A run of the given job does something. -/
  | did (run : ActivityId) (spec : JobSpec) (deed : Deed)
  /-- A record is taken out of the queue. -/
  | taken (record : Record)

/-- All that has happened, the latest first. -/
abbrev History := List Event

end FeedIntake
