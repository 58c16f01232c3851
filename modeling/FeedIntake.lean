import FeedIntake.CommandLine.Console
import FeedIntake.CommandLine.Help
import FeedIntake.CommandLine.Order
import FeedIntake.CommandLine.Session
import FeedIntake.CommandLine.Spec
import FeedIntake.Decimal.Binary64
import FeedIntake.Decimal.Digits
import FeedIntake.Decimal.Fixed
import FeedIntake.Decimal.Scientific
import FeedIntake.Decimal.Shortest
import FeedIntake.Decimal.Whole
import FeedIntake.Entry
import FeedIntake.Fault
import FeedIntake.Feed.Document
import FeedIntake.Feed.Fetcher
import FeedIntake.Folder
import FeedIntake.Intake.Cancellation
import FeedIntake.Intake.Control
import FeedIntake.Intake.History
import FeedIntake.Intake.Permits
import FeedIntake.Intake.Queue
import FeedIntake.Intake.Round
import FeedIntake.Intake.Run
import FeedIntake.Intake.Schedule
import FeedIntake.Intake.Setup
import FeedIntake.Intake.State
import FeedIntake.Log.Entry
import FeedIntake.Log.Logbook
import FeedIntake.Log.Severity
import FeedIntake.Log.Template
import FeedIntake.Log.Timing
import FeedIntake.Main
import FeedIntake.Recency
import FeedIntake.Record
import FeedIntake.Run.Job
import FeedIntake.Run.Result
import FeedIntake.Settings
import FeedIntake.Settings.Environment
import FeedIntake.Settings.Fit
import FeedIntake.Settings.Misfit
import FeedIntake.Snapshots
import FeedIntake.Text.Blank
import FeedIntake.Text.Case
import FeedIntake.Text.Cut
import FeedIntake.Text.Printable
import FeedIntake.Text.Quoted
import FeedIntake.Text.Similarity
import FeedIntake.Time.Calendar
import FeedIntake.Time.IsoReader
import FeedIntake.Time.Moment
import FeedIntake.Time.Rfc3339
import FeedIntake.Time.Stamp
import FeedIntake.Time.Unix
import FeedIntake.Total
import FeedIntake.Url
import FeedIntake.Url.Address
import FeedIntake.Url.Lookalike
import FeedIntake.Url.Parts
import FeedIntake.Value
import FeedIntake.Value.Json
import FeedIntake.Value.JsonReader
import FeedIntake.Value.Literal
import FeedIntake.Proofs.Snapshots
import FeedIntake.Proofs.Entries
import FeedIntake.Proofs.History
import FeedIntake.Proofs.Affairs
import FeedIntake.Proofs.View
import FeedIntake.Proofs.Moves
import FeedIntake.Proofs.Rounds
import FeedIntake.Proofs.Interleaving
import FeedIntake.Proofs.Trail
import FeedIntake.Proofs.Account
import FeedIntake.Proofs.Commits
import FeedIntake.Proofs.Suppression
import FeedIntake.Proofs.WholeSnapshots
import FeedIntake.Proofs.Endings
import FeedIntake.Proofs.Undisturbed
import FeedIntake.Proofs.CompletedRun
import FeedIntake.Proofs.StoreHistory
import FeedIntake.Proofs.Foresight
import FeedIntake.Proofs.Motions
import FeedIntake.Proofs.Lines
import FeedIntake.Proofs.Order
import FeedIntake.Proofs.BoundedQueue
import FeedIntake.Proofs.Upshot
import FeedIntake.Proofs.Calm
import FeedIntake.Proofs.Owners
import FeedIntake.Proofs.RoundCourse
import FeedIntake.Proofs.Apart
import FeedIntake.Proofs.Retention
import FeedIntake.Proofs.Succession
import FeedIntake.Proofs.Steady
import FeedIntake.Proofs.DayNumbers
import FeedIntake.Proofs.Fields
import FeedIntake.Proofs.Stamps
import FeedIntake.Proofs.Paths
import FeedIntake.Proofs.Ledger
import FeedIntake.Proofs.Lifecycle
import FeedIntake.Proofs.Hall
import FeedIntake.Proofs.Stations
import FeedIntake.Proofs.Showing
import FeedIntake.Proofs.Members
import FeedIntake.Proofs.Takers
import FeedIntake.Proofs.Collecting
import FeedIntake.Proofs.Thorough
import FeedIntake.Proofs.Collection
import FeedIntake.Proofs.Fetching
import FeedIntake.Proofs.Bystanders
import FeedIntake.Proofs.Requests
import FeedIntake.Proofs.Grounds
import FeedIntake.Proofs.Refusals
import FeedIntake.Proofs.Sifting
import FeedIntake.Proofs.OneByOne
import FeedIntake.Proofs.LargerStores
import FeedIntake.Proofs.SourceLists
import FeedIntake.Proofs.SettingsBounds
import FeedIntake.Proofs.JsonText
import FeedIntake.Proofs.Calls
import FeedIntake.Proofs.Asking
import FeedIntake.Proofs.Shifts
import FeedIntake.Proofs.Lending
import FeedIntake.Proofs.Conduct
import FeedIntake.Proofs.Starts
import FeedIntake.Proofs.Concurrency
import FeedIntake.Proofs.Reports
import FeedIntake.Proofs.Answers
import FeedIntake.Proofs.WellLinked
import FeedIntake.Proofs.JsonRecords
import FeedIntake.Proofs.Margins
import FeedIntake.Proofs.IsoTexts
import FeedIntake.Proofs.Thresholds
import FeedIntake.Proofs.Inquiries
import FeedIntake.Proofs.ValidSources
import FeedIntake.Proofs.Hosts
import FeedIntake.Proofs.KeptSettings
import FeedIntake.Proofs.LogLines
