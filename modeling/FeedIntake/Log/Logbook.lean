import FeedIntake.Folder
import FeedIntake.Log.Entry

/-! # The logbook

Where log entries go. Entries from a level on are written to the console, to a file, or to both. A
file that would grow too large is moved aside first, and only so many files are kept aside.
-/

namespace FeedIntake

structure LogFile where
  path : Path
  /-- The size that is not reached, nought or less for no limit. -/
  limit : Int
  backups : Int

inductive LogTarget where
  | console (structured : Bool)
  | file (f : LogFile)

structure LogOptions where
  level : String
  file : Option String
  console : Bool
  structured : Bool
  limit : Int
  backups : Int

def LogOptions.standard : LogOptions :=
  ⟨"INFO", some "logs/feedstream.log", true, false, 10485760, 5⟩

structure Logbook where
  /-- The least level that is written; nought leaves it to the level of all logging. -/
  level : Int
  targets : List LogTarget

namespace FolderFault

/-- The fault as which it is met by those who do not know of folders. -/
def className : FolderFault → String
  | notFolder _ => "NotADirectoryError"
  | isFolder _ => "IsADirectoryError"
  | .exists _ => "FileExistsError"
  | nameTooLong _ => OutsideKind.os.name
  | nullCharacter => OutsideKind.value.name

end FolderFault

inductive LogFault where
  | unknownLevel (name : String)
  | noLevel (text : String)
  | folder (fault : FolderFault)

namespace LogFault

def className : LogFault → String
  | unknownLevel _ => OutsideKind.missingAttribute.name
  | noLevel _ => OutsideKind.value.name
  | folder fault => fault.className

def message : LogFault → String
  | unknownLevel name => s!"module 'logging' has no attribute '{name}'"
  | noLevel text => "Unknown level: " ++ Text.quoted text
  | folder fault => fault.message

end LogFault

namespace Logbook

/-- Before it is set up a logbook takes everything and writes it nowhere. -/
def initial : Logbook := ⟨10, []⟩

def commonLevel : Int := 30

def threshold (b : Logbook) : Int := if b.level = 0 then commonLevel else b.level

def accepts (b : Logbook) (level : Int) : Bool := b.threshold ≤ level

def otherNames : List (String × Int) := [("WARN", 30), ("FATAL", 50), ("NOTSET", 0)]

/-- A name that is known but is the name of a text. -/
def basicFormat : String × String := ("BASIC_FORMAT", "%(levelname)s:%(name)s:%(message)s")

/-- The level of a name in letters of either case. -/
def levelOf (name : String) : Except LogFault Int :=
  let upper := name.toUpper
  match (Severity.ofName? upper).map Severity.number <|> otherNames.lookup upper with
  | some n => .ok n
  | none =>
      if upper = basicFormat.1 then .error (.noLevel basicFormat.2)
      else .error (.unknownLevel upper)

def consoleTargets (o : LogOptions) : List LogTarget :=
  if o.console then [.console o.structured] else []

/-- Adds a file to the targets, in a folder that is made if it is missing. -/
def addFile (b : Logbook) (f : Folder) (o : LogOptions) (path : Path) :
    Except FolderFault (Logbook × Folder) := do
  let f ← (← f.make path.parent).openFile path
  return ({ b with targets := b.targets ++ [.file ⟨path, o.limit, o.backups⟩] }, f)

/-- Sets the logbook up anew. A level that is none changes nothing; a file that cannot be had leaves
the console. -/
def configure (b : Logbook) (f : Folder) (o : LogOptions) :
    Except LogFault Unit × Logbook × Folder :=
  match levelOf o.level with
  | .error fault => (.error fault, b, f)
  | .ok level =>
      let console : Logbook := ⟨level, consoleTargets o⟩
      match o.file with
      | none | some "" => (.ok (), console, f)
      | some text =>
          match console.addFile f o (Path.ofText text) with
          | .error fault => (.error (.folder fault), console, f)
          | .ok (b, f) => (.ok (), b, f)

/-! ## Writing -/

/-- The place of a file moved aside, the first being the youngest. -/
def backupPlace (place : Place) (n : Nat) : Place :=
  match place.getLast? with
  | some name => place.dropLast ++ [s!"{name}.{n}"]
  | none => place

/-- Moves a file aside, and those moved aside before one further; the oldest is dropped. -/
def rotate (f : Folder) (place : Place) (backups : Int) : Folder :=
  if backups ≤ 0 then f
  else
    let older := (List.range (backups.toNat - 1)).reverse
    let backup := backupPlace place
    let f := older.foldl (fun f i => f.move (backup (i + 1)) (backup (i + 2))) f
    (f.move place (backup 1)).write place ""

def append (f : Folder) (file : LogFile) (line : String) : Folder :=
  match Folder.placeOf? file.path with
  | none => f
  | some place =>
      let full := 0 < file.limit && file.limit ≤ (f.content place).utf8ByteSize + line.length + 1
      let f := if full then rotate f place file.backups else f
      f.write place (f.content place ++ line ++ "\n")

/-- Writes an entry to one target; the first part is what the console shows. An entry that has no
form there is not written. -/
def emitTo (f : Folder) (stamp : LogStamp) (e : LogEntry) : LogTarget → String × Folder
  | .console structured =>
      match if structured then e.structured stamp else e.console stamp with
      | .ok text => (text ++ "\n", f)
      | .error _ => ("", f)
  | .file file =>
      match e.structured stamp with
      | .ok line => ("", append f file line)
      | .error _ => ("", f)

def emit (b : Logbook) (f : Folder) (stamp : LogStamp) (e : LogEntry) : String × Folder :=
  if b.accepts e.level then
    b.targets.foldl (fun acc target =>
      let (text, f) := emitTo acc.2 stamp e target
      (acc.1 ++ text, f)) ("", f)
  else ("", f)

end Logbook

end FeedIntake
