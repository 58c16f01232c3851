import FeedIntake.Fault
import FeedIntake.Folder
import FeedIntake.Settings.Environment
import FeedIntake.Settings.Fit
import FeedIntake.Url

/-! # Settings

What can be set: how feeds are read, how much is remembered of them, and how the work is logged.
Settings come from the environment and, over it, from values given by hand. They are read as a
whole: either every one of them fits, or none is used.
-/

namespace FeedIntake

open Time (DateTime Instant)

structure ReadingSettings where
  timeoutMs : Nat
  readTimeoutMs : Option Nat
  perpetual : Bool
  publishedSince : Option Instant
  queueSize : Nat
  maxConcurrent : Nat
  userAgent : String

structure MemorySettings where
  maxSources : Option Nat

structure LogSettings where
  level : Severity
  filePath : Option String
  maxFileSizeMb : Nat
  backupCount : Nat
  structured : Bool
  console : Bool

structure Settings where
  reading : ReadingSettings
  memory : MemorySettings
  log : LogSettings
  sources : List String
  appName : String
  version : String
  debug : Bool

inductive SettingsFault where
  /-- A variable that must hold JSON holds none. -/
  | unreadable (name : String)
  | misfits (all : List Misfit)
  /-- A moment that fits lies outside the calendar once it is told in UTC. -/
  | overflow

namespace SettingsFault

def className : SettingsFault → String
  | unreadable _ => "SettingsError"
  | misfits _ => "ValidationError"
  | overflow => OutsideKind.overflow.name

def message : SettingsFault → String
  | unreadable name =>
      s!"error parsing value for field \"{name}\" from source \"EnvSettingsSource\""
  | misfits all =>
      let errors := if all.length = 1 then "error" else "errors"
      s!"{all.length} validation {errors} for FeedStreamSettings"
  | overflow => Fault.overflow.message

def misfitsOf : SettingsFault → List Misfit
  | misfits all => all
  | _ => []

/-- Two groups of settings that are both at fault: all misfits count, unless reading broke off. -/
def both : SettingsFault → SettingsFault → SettingsFault
  | misfits a, misfits b => misfits (a ++ b)
  | misfits _, other => other
  | first, _ => first

def toFailure (s : SettingsFault) : Failure :=
  { (Failure.of .configuration ("Failed to initialize settings: " ++ s.message)).causedBy
      s.className with misfits := s.misfitsOf }

end SettingsFault

/-- Settings as far as they are read: all of them, or all that is wrong with them. -/
abbrev Checked (α : Type) := Except SettingsFault α

namespace Checked

/-- Applies what is read to what is read next and keeps the faults of both. -/
def seq {α β : Type} (f : Checked (α → β)) (x : Checked α) : Checked β :=
  match f, x with
  | .ok f, .ok x => .ok (f x)
  | .error a, .ok _ => .error a
  | .ok _, .error b => .error b
  | .error a, .error b => .error (a.both b)

theorem seq_eq_ok_iff {α β : Type} {f : Checked (α → β)} {x : Checked α} {y : β} :
    f.seq x = .ok y ↔ ∃ g a, f = .ok g ∧ x = .ok a ∧ g a = y := by
  cases f <;> cases x <;> simp [seq]

def misfit {α : Type} (place : List PlaceStep) (kind : MisfitKind) : Checked α :=
  .error (.misfits [⟨place, kind⟩])

def field {α : Type} (fields : Fields) (place : List PlaceStep) (name : String) (fallback : α)
    (fit : Value → Fit α) : Checked α :=
  match fields.lookup name with
  | none => .ok fallback
  | some v =>
      match fit v with
      | .ok x => .ok x
      | .error kind => misfit (place ++ [.name name]) kind

def sectionOf {α : Type} (fields : Fields) (name : String) (read : Fields → Checked α) :
    Checked α :=
  match fields.lookup name with
  | none => read []
  | some (.dict own) => read own
  | some _ => misfit [.name name] .noSection

end Checked

namespace Settings

/-! ## Sections -/

def timeoutBounds : Fit.Bounds := ⟨100, some 600000⟩

def queueBounds : Fit.Bounds := ⟨1, some 100000⟩

def concurrencyBounds : Fit.Bounds := ⟨1, some 50⟩

def memoryBounds : Fit.Bounds := ⟨1, none⟩

def fileSizeBounds : Fit.Bounds := ⟨1, some 100⟩

def backupBounds : Fit.Bounds := ⟨1, some 20⟩

def thresholdIn (fields : Fields) (place : List PlaceStep) : Checked (Option Instant) := do
  match ← Checked.field fields place "published_since" none (Fit.optional Fit.moment) with
  | none => return none
  | some d =>
      match d.instant? with
      | some i => return some i
      | none => throw .overflow

def readingIn (fields : Fields) : Checked ReadingSettings :=
  let place := [PlaceStep.name "provider"]
  let number (name : String) (bounds : Fit.Bounds) (fallback : Nat) :=
    Checked.field fields place name fallback (Fit.within bounds)
  (Checked.seq (.ok ReadingSettings.mk) (number "timeout_ms" timeoutBounds 10000)).seq
      (Checked.field fields place "read_timeout_ms" none (Fit.optional (Fit.within timeoutBounds)))
    |>.seq (Checked.field fields place "perpetual" false Fit.truth)
    |>.seq (thresholdIn fields place)
    |>.seq (number "queue_size" queueBounds 500)
    |>.seq (number "max_concurrent_sources" concurrencyBounds 5)
    |>.seq (Checked.field fields place "user_agent" "FeedStream/1.0" Fit.nonEmptyText)

def memoryIn (fields : Fields) : Checked MemorySettings :=
  (Checked.field fields [.name "dedup"] "max_sources" none
    (Fit.optional (Fit.within memoryBounds))).map MemorySettings.mk

def logIn (fields : Fields) : Checked LogSettings :=
  let place := [PlaceStep.name "logging"]
  (Checked.seq (.ok LogSettings.mk) (Checked.field fields place "level" .info Fit.level)).seq
      (Checked.field fields place "file_path" (some "logs/feedstream.log")
        (Fit.optional Fit.text))
    |>.seq (Checked.field fields place "max_file_size_mb" 10 (Fit.within fileSizeBounds))
    |>.seq (Checked.field fields place "backup_count" 5 (Fit.within backupBounds))
    |>.seq (Checked.field fields place "structured_logging" false Fit.truth)
    |>.seq (Checked.field fields place "console_logging" true Fit.truth)

/-- The texts of a list, or the places at which it holds something else. -/
def textsIn (place : List PlaceStep) (items : List Value) : Checked (List String) :=
  items.zipIdx.foldr (fun item rest =>
    let own : Checked String :=
      match Fit.text item.1 with
      | .ok s => .ok s
      | .error kind => Checked.misfit (place ++ [.position item.2]) kind
    Checked.seq (own.map List.cons) rest) (.ok [])

/-- The feed URLs to read: every one of them must be a URL, and none is kept twice. -/
def sourcesIn (fields : Fields) : Checked (List String) :=
  let place := [PlaceStep.name "sources"]
  match fields.lookup "sources" with
  | none => .ok []
  | some (.list items) => do
      match Url.validateAll ((← textsIn place items).map .text) with
      | .ok urls => return urls
      | .error fault => Checked.misfit place (.rejected fault.toFailure.message)
  | some _ => Checked.misfit place .noList

/-! ## Reading -/

def names : List String :=
  ["provider", "dedup", "logging", "sources", "app_name", "version", "debug"]

def gather (env : Environment) : Checked Fields := do
  let vars := env.byName
  let structured ← ["provider", "dedup", "logging", "sources"].filterMapM fun name =>
    match Environment.structured? vars name with
    | .error () => throw (.unreadable name)
    | .ok v => return v.map (name, ·)
  let plain := ["app_name", "version", "debug"].filterMap fun name =>
    (Environment.plain? vars name).map (name, ·)
  return structured ++ plain

/-- Puts values given by hand over those of the environment, section by section. -/
def overlay (gathered given : Fields) : Fields :=
  given.foldl (fun acc g =>
    match acc.lookup g.1, g.2 with
    | some (.dict below), .dict above => acc.put g.1 (.dict (Fields.merge below above))
    | _, v => acc.put g.1 v) gathered

/-- Names at the top that are no settings. -/
def unknownIn (fields : Fields) : Checked Unit :=
  match (fields.filter fun f => !names.contains f.1).map fun f =>
      (⟨[.name f.1], .unknownSetting⟩ : Misfit) with
  | [] => .ok ()
  | unknown => .error (.misfits unknown)

def known (fields : Fields) : Checked Settings :=
  (Checked.seq (.ok Settings.mk) (Checked.sectionOf fields "provider" readingIn)).seq
      (Checked.sectionOf fields "dedup" memoryIn)
    |>.seq (Checked.sectionOf fields "logging" logIn)
    |>.seq (sourcesIn fields)
    |>.seq (Checked.field fields [] "app_name" "FeedStream" Fit.text)
    |>.seq (Checked.field fields [] "version" "1.0.0" Fit.text)
    |>.seq (Checked.field fields [] "debug" false Fit.truth)

/-- The settings that the given values are, with nothing else among them. -/
def ofFields (fields : Fields) : Checked Settings :=
  Checked.seq ((known fields).map fun s (_ : Unit) => s) (unknownIn fields)

def read (env : Environment) (given : Fields) : Checked Settings := do
  ofFields (overlay (← gather env) given)

/-- The failure of settings whose log file cannot have its folder. -/
def folderFailure : FolderFault → Failure
  | .nullCharacter =>
      (Failure.of .configuration
        ("Failed to initialize settings: " ++ FolderFault.nullCharacter.message)).causedBy
          OutsideKind.value.name
  | fault =>
      .of .configuration
        ("Configuration validation failed: Invalid log file path: " ++ fault.message)

def makeLogFolder (s : Settings) (f : Folder) : Except Failure Folder :=
  match s.log.filePath with
  | none | some "" => .ok f
  | some path => (f.make (Path.ofText path).parent).mapError folderFailure

def load (env : Environment) (f : Folder) : Except Failure (Settings × Folder) :=
  match read env [] with
  | .ok s => (s.makeLogFolder f).map (s, ·)
  | .error fault => .error fault.toFailure

/-- While debugging, everything is logged. -/
def effectiveLevel (s : Settings) : Severity := if s.debug then .debug else s.log.level

end Settings

/-! ## Settings kept -/

/-- The settings of the last successful load, if there was one. -/
structure SettingsCache where
  kept : Option Settings

namespace SettingsCache

def empty : SettingsCache := ⟨none⟩

/-- The settings kept, or newly loaded where there are none or a reload is asked for. A load that
fails changes nothing. -/
def get (c : SettingsCache) (env : Environment) (f : Folder) (reload : Bool) :
    Except Failure (Settings × SettingsCache × Folder) :=
  match c.kept, reload with
  | some s, false => .ok (s, c, f)
  | _, _ => (Settings.load env f).map fun r => (r.1, ⟨some r.1⟩, r.2)

end SettingsCache

end FeedIntake
