import FeedIntake.CommandLine.Console
import FeedIntake.CommandLine.Order
import FeedIntake.Intake.Setup
import FeedIntake.Log.Logbook
import FeedIntake.Value.Json

/-! # Carrying out orders

Every call reports what it shows and how it exits. Settings that were read, and the snapshots of the
runs made so far, are kept from one call to the next. A call ends early where the console refuses
what it is to show, and where a record cannot be written.
-/

namespace FeedIntake.CommandLine

open Time (DateTime Instant)

/-- What a call could not deal with. -/
inductive Escape where
  | fault (f : Fault)
  | log (f : LogFault)

structure Report where
  exitCode : Nat
  output : List String
  /-- Complaints and log lines, each with its line breaks. -/
  errors : String
  shown : List Shown
  requests : List WebRequest
  escape : Option Escape

namespace Report

def exit (code : Nat) (shown : List Shown) : Report := ⟨code, [], "", shown, [], none⟩

def ofRefusal (r : Refusal) : Report :=
  let lines := r.command.complaint r.fault
  { exit 2 [] with errors := String.join (lines.map (· ++ "\n")) }

def ofEscape (e : Escape) : Report := { exit 1 [] with escape := some e }

/-- A report as far as a console shows it; what it refuses escapes. -/
def on (console : Console) (r : Report) : Report :=
  match upToFault console.display r.shown with
  | (_, none) => r
  | (shown, some fault) => { r with exitCode := 1, shown, escape := some (.fault fault) }

end Report

/-- What there is outside of a call. -/
structure Surroundings where
  environment : Environment
  web : List (String × Response)
  now : DateTime
  /-- The moment at which log entries are written. -/
  stamp : LogStamp

/-- The answers to the requests of a round. A timeout that is too long to be told in seconds takes
the place of all of them. -/
def Surroundings.webFor (world : Surroundings) (spec : RoundSpec) : List (String × Response) :=
  if WebRequest.isTimed spec.timeoutMs then world.web
  else spec.sources.map (·, .untimed)

structure Session where
  console : Console
  settings : SettingsCache
  folder : Folder
  logbook : Logbook
  store : Option Snapshots

namespace Session

def on (console : Console) : Session := ⟨console, .empty, .empty, .initial, none⟩

def start : Session := .on .plain

def load (s : Session) (world : Surroundings) : Except Failure (Settings × Session) :=
  (s.settings.get world.environment s.folder false).map fun r =>
    (r.1, { s with settings := r.2.1, folder := r.2.2 })

end Session

def alarm (text : String) : String := "[bold red]❌ " ++ text ++ "[/bold red]"

def failureLines (opening : String) (f : Failure) : List String :=
  match f.misfits.reverse with
  | [] => [alarm (opening ++ f.message)]
  | last :: others =>
      ["[bold red]❌ " ++ opening ++ f.message] ++ (others.reverse.map Misfit.text) ++
        [last.text ++ "[/bold red]"]

/-! ## Checking the configuration -/

def truthText (b : Bool) : String := (Value.bool b).display

def settingRows (s : Settings) : List (List String) :=
  let r := s.reading
  [["Connection timeout", s!"{r.timeoutMs} ms"],
    ["Read timeout", match r.readTimeoutMs with
      | some ms => s!"{ms} ms"
      | none => "none"],
    ["Perpetual mode", truthText r.perpetual],
    ["Published since", match r.publishedSince with
      | some i => i.isoText
      | none => "any time"],
    ["Queue size", s!"{r.queueSize}"],
    ["Concurrent sources", s!"{r.maxConcurrent}"],
    ["Dedup max sources", match s.memory.maxSources with
      | some n => s!"{n}"
      | none => "unbounded"],
    ["Log level", s.effectiveLevel.name],
    ["Log file", match s.log.filePath.filter (!·.isEmpty) with
      | some path => path
      | none => "disabled"],
    ["Sources", if s.sources.isEmpty then "none" else "\n".intercalate s.sources]]

def checkOpening : Shown :=
  .text ["[bold blue]🔧 Checking FeedStream Configuration[/bold blue]"]

/-- The settings are looked at once the opening has been shown. -/
def checkConfig (s : Session) (world : Surroundings) : Report × Session :=
  if (s.console.refusal? checkOpening).isSome then (.exit 1 [checkOpening], s)
  else
    match s.load world with
    | .error f => (.exit 1 [checkOpening, .text (failureLines "Configuration error: " f)], s)
    | .ok (settings, s) =>
        (.exit 0 [checkOpening,
          .table ⟨"Configuration", ["Setting", "Value"], settingRows settings⟩,
          .text ["[bold green]✅ Configuration is valid[/bold green]"]], s)

/-! ## Fetching -/

def logOptions (s : Settings) (debug : Bool) : LogOptions where
  level := if debug then Severity.debug.name else s.effectiveLevel.name
  file := s.log.filePath
  console := s.log.console
  structured := s.log.structured
  limit := s.log.maxFileSizeMb * 1024 * 1024
  backups := s.log.backupCount

def recordRow (r : Record) : List String :=
  [r.published.getD "-", r.title.getD "", r.identity]

def statusText (r : RunResult) : String :=
  if r.success then "✅ ok"
  else "❌ " ++ r.error.getD Value.null.display ++ (if r.retryable then " (retryable)" else "")

def resultRow (r : RunResult) : List String :=
  [r.source, statusText r, s!"{r.fetched}", s!"{r.published}", s!"{r.tooOld}", s!"{r.repeated}"]

def resultTable (results : List RunResult) : Table :=
  ⟨"Run Summary", ["Source", "Status", "Fetched", "Published", "Too old", "Seen before"],
    results.map resultRow⟩

def recordTable (records : List Record) : Table :=
  ⟨s!"{records.length} Records", ["Published", "Title", "Id"], records.map recordRow⟩

/-- The threshold asked for. The empty text asks for none. -/
def sinceOf (o : FetchOptions) : Except ArgumentFault (Option DateTime) :=
  match o.since.filter (!·.isEmpty) with
  | none => .ok none
  | some text =>
      match readTimestampText text with
      | .ok i => .ok (some i.toDateTime)
      | .error fault => .error (.noTimestamp "--since" fault.message)

def prepareRound (s : Session) (settings : Settings) (o : FetchOptions) (sources : List String)
    (since : Option DateTime) : Except Fault (RoundSpec × Snapshots) := do
  let spec ← RoundSpec.ofGiven settings (sources.map .text) since o.timeoutMs
    (if o.perpetual then some true else none) none 0
  let store ← match s.store with
    | some store => pure store
    | none => settings.snapshots
  return (spec, store)

def collect (settings : Settings) (world : Surroundings) (spec : RoundSpec) (store : Snapshots) :
    Intake × RoundId :=
  let w := Intake.start world.now settings.queue store (world.webFor spec)
  let (w, supplier) := w.addSupplier (.network settings.fetcher)
  let (w, r) := w.startCollecting { spec with supplier }
  (w.settle, r)

def Session.write (s : Session) (stamp : LogStamp) (entries : List LogEntry) : String × Session :=
  entries.foldl (fun acc e =>
    let (text, folder) := acc.2.logbook.emit acc.2.folder stamp e
    (acc.1 ++ text, { acc.2 with folder })) ("", s)

/-- The lines of records, up to one that cannot be written. -/
def writeRecords (records : List Record) : List String × Option Fault :=
  upToFault (fun record => record.toValue.write Value.json) records

def roundReport (o : FetchOptions) (results : List RunResult) (records : List Record) : Report :=
  let code := if results.any (·.success) then 0 else 1
  if o.json then
    match writeRecords records with
    | (output, none) => { Report.exit code [.table (resultTable results)] with output }
    | (output, some fault) => { Report.ofEscape (.fault fault) with output }
  else .exit code [.table (recordTable records), .table (resultTable results)]

/-- A fault that ends a call: failures are shown, all else escapes. -/
def faultReport (fault : Fault) : Report :=
  match fault with
  | .failure f => .exit 1 [.text (failureLines "" f)]
  | .outside _ _ => .ofEscape (.fault fault)

def runFetch (s : Session) (world : Surroundings) (settings : Settings) (o : FetchOptions)
    (sources : List String) : Report × Session :=
  match sinceOf o with
  | .error fault => (.ofRefusal ⟨fetchSpec, fault⟩, s)
  | .ok since =>
      match prepareRound s settings o sources since with
      | .error fault => (faultReport fault, s)
      | .ok (spec, store) =>
          let (w, r) := collect settings world spec store
          let (errors, s) := { s with store := some w.store }.write world.stamp w.logs
          let report := match w.roundOutcome? r, w.rounds[r]? with
            | some .done, some round => roundReport o round.results w.taken
            | some (.failed fault), _ => faultReport fault
            | _, _ => .ofEscape (.fault (.outside .cancelled ""))
          -- Nothing is asked for before its timeout is known.
          let requests := if WebRequest.isTimed spec.timeoutMs then w.requests else []
          ({ report with errors, requests }, s)

def fetch (s : Session) (world : Surroundings) (debug : Bool) (o : FetchOptions) :
    Report × Session :=
  match s.load world with
  | .error f => (.ofEscape (.fault (.failure f)), s)
  | .ok (settings, s) =>
      let (configured, logbook, folder) := s.logbook.configure s.folder (logOptions settings debug)
      let s := { s with logbook, folder }
      match configured with
      | .error fault => (.ofEscape (.log fault), s)
      | .ok () =>
          let sources := if o.urls.isEmpty then settings.sources else o.urls
          if sources.isEmpty then
            (.exit 2 [.text [alarm "No feed URLs given and FEEDSTREAM_SOURCES is empty"]], s)
          else runFetch s world settings o sources

/-! ## Calls -/

def carryOut (s : Session) (world : Surroundings) : Order → Report × Session
  | .help page => ({ Report.exit 0 [] with output := page }, s)
  | .checkConfig => checkConfig s world
  | .fetch debug o => fetch s world debug o

/-- What comes of a call whose showing is left to the console. -/
def answer (s : Session) (world : Surroundings) (arguments : List String) : Report × Session :=
  match readOrder arguments with
  | .error refusal => (.ofRefusal refusal, s)
  | .ok order => carryOut s world order

def call (s : Session) (world : Surroundings) (arguments : List String) : Report × Session :=
  let (report, after) := answer s world arguments
  (report.on s.console, after)

end FeedIntake.CommandLine
