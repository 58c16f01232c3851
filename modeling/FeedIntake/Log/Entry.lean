import FeedIntake.Log.Severity
import FeedIntake.Log.Template
import FeedIntake.Time.Unix
import FeedIntake.Value.Json

/-! # Log entries

An entry has a severity, a message, attributes and, where something went wrong, the fault. It has
two forms: one JSON object on one line, in which every attribute stands in the group that its name
belongs to, and a short coloured line for the console. It has neither form if its message cannot be
made or a number in it cannot be written.
-/

namespace FeedIntake

open Time (Instant TimeOfDay)

structure LogEntry where
  level : Int
  logger : String
  template : String
  arguments : List Value
  attributes : Fields
  fault : Option Fault
  deriving Inhabited

/-- When an entry is made: to the nearest microsecond, and by the clock to the second. -/
structure LogStamp where
  instant : Instant
  clock : TimeOfDay

namespace LogStamp

def ofUnix? (seconds : Float) : Option LogStamp :=
  match Decimal.Binary64.ofFloat seconds with
  | .finite negative m e => do
      let r := Decimal.Ratio.ofBinary m e
      let micros : Int := (r.shift 6).round
      let instant ← Instant.ofUnixMicros? (if negative then -micros else micros)
      let signed : Int := if negative then -(r.num : Int) else r.num
      let clock := (Int.fmod (signed.fdiv r.den) 86400).toNat
      return ⟨instant, .ofMicros (clock * 1000000)⟩
  | _ => none

def clockText (s : LogStamp) : String := String.ofList s.clock.chars

end LogStamp

/-- Where entries come from: a component of the library and the feed that it works on, if any. -/
structure Logger where
  component : String
  source : Option String

namespace Logger

def name (l : Logger) : String := "feedstream." ++ l.component

def context (l : Logger) : Fields :=
  ("component", Value.text l.component) ::
    (match l.source with
      | some s => if s.isEmpty then [] else [("source", .text s)]
      | none => [])

def entry (l : Logger) (severity : Severity) (message : String) (attributes : Fields) : LogEntry :=
  ⟨severity.number, l.name, message, [], l.context.merge attributes, none⟩

end Logger

namespace LogEntry

/-- The names under which an entry keeps what it is made of; no attribute can have one of them. -/
def ownNames : List String :=
  ["name", "msg", "args", "levelname", "levelno", "pathname", "filename", "module", "exc_info",
    "exc_text", "stack_info", "lineno", "funcName", "created", "msecs", "relativeCreated",
    "thread", "threadName", "processName", "process", "message", "asctime"]

def hiddenNames : List String := ownNames ++ ["taskName"]

/-- The first attribute that would overwrite a part of the entry. -/
def clash? (e : LogEntry) : Option Fault :=
  (e.attributes.find? fun a => ownNames.contains a.1).map fun a =>
    .missingKey ("Attempt to overwrite " ++ Text.quoted a.1 ++ " in LogRecord")

/-- The name by which an entry is asked for its message, and which an attribute may take from it. -/
def messageName : String := "getMessage"

def message (e : LogEntry) : Except Fault String :=
  match e.attributes.lookup messageName with
  | some value => .error (.notCallable value)
  | none => Log.fillTemplate e.template e.arguments

def levelName (e : LogEntry) : Except Fault String :=
  (Value.int e.level).write fun _ => Severity.nameOf e.level

/-! ## The structured form -/

def contextNames : List String := ["component", "source"]

def runNames : List String :=
  ["state", "success", "entries_fetched", "published", "rejected_recency", "rejected_dedup",
    "timestamp_fallbacks", "seen_ids", "committed", "cancelled", "error", "retryable",
    "duration_seconds"]

def failureNames : List String :=
  ["error_type", "error_code", "error_message", "recoverable", "context"]

def groupedNames : List String := contextNames ++ runNames ++ failureNames

def shown (e : LogEntry) : Fields := e.attributes.filter fun a => !hiddenNames.contains a.1

/-- A group as one member, left out where it is empty. -/
def group (name : String) (fields : Fields) : Fields :=
  if fields.isEmpty then [] else [(name, .dict fields)]

def members (e : LogEntry) (stamp : LogStamp) (message : String) : Fields :=
  [("time", .text stamp.instant.isoText), ("level", .text (Severity.nameOf e.level)),
    ("logger", .text e.logger)] ++
  Fields.pick e.shown contextNames ++
  [("message", .text message)] ++
  group "run" (Fields.pick e.shown runNames) ++
  group "failure" (Fields.pick e.shown failureNames) ++
  group "extra" (e.shown.filter fun a => !groupedNames.contains a.1) ++
  (match e.fault with
    | some fault => [("exception", .text fault.report)]
    | none => [])

def structured (e : LogEntry) (stamp : LogStamp) : Except Fault String := do
  let _ ← e.levelName
  let message ← e.message
  (Value.dict (e.members stamp message)).write Value.json

/-! ## The console form -/

def colors : List (String × String) :=
  [("DEBUG", "\x1b[36m"), ("INFO", "\x1b[32m"), ("WARNING", "\x1b[33m"), ("ERROR", "\x1b[31m"),
    ("CRITICAL", "\x1b[35m")]

def plainColor : String := "\x1b[0m"

/-- An attribute that says something: it is there, and neither null nor empty. -/
def telling? (e : LogEntry) (name : String) : Except Fault (Option String) :=
  ((e.attributes.lookup name).filter Value.isTruthy).mapM (Value.write Value.display)

/-- The component or else the logger, and the feed between angle brackets. -/
def whereabouts (e : LogEntry) : Except Fault String := do
  let component ← e.telling? "component"
  let source ← e.telling? "source"
  return component.getD e.logger ++
    (match source with
      | some source => s!" <{source}>"
      | none => "")

/-- Fills a name with blanks to the width of the longest level. -/
def levelColumn (name : String) : String :=
  name ++ String.ofList (List.replicate (8 - name.length) ' ')

/-- The line for the console; the fault stands on a line of its own. -/
def console (e : LogEntry) (stamp : LogStamp) : Except Fault String := do
  let level ← e.levelName
  let color := (colors.lookup level).getD plainColor
  let whereabouts ← e.whereabouts
  let message ← e.message
  let code ← e.telling? "error_code"
  return color ++ stamp.clockText ++ " " ++ levelColumn level ++ plainColor ++ " " ++
    whereabouts ++ ": " ++ message ++
    (match code with
      | some code => s!" [{code}]"
      | none => "") ++
    (match e.fault with
      | some fault => "\n" ++ fault.report
      | none => "")

end LogEntry

end FeedIntake
