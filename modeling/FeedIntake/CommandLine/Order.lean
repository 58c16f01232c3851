import FeedIntake.CommandLine.Help
import FeedIntake.Decimal.Whole

/-! # Orders

What the arguments of a call ask for. Asking for help comes before all else that a command is told,
provided that its options can be told apart at all.
-/

namespace FeedIntake.CommandLine

structure FetchOptions where
  urls : List String
  since : Option String
  timeoutMs : Option Int
  perpetual : Bool
  json : Bool
  deriving DecidableEq, Repr

inductive Order where
  | help (page : List String)
  | checkConfig
  | fetch (debug : Bool) (options : FetchOptions)
  deriving DecidableEq, Repr

/-- Arguments of a command that cannot be carried out. -/
structure Refusal where
  command : CommandSpec
  fault : ArgumentFault

def mainSpec : CommandSpec where
  path := "main.py"
  arguments := "[OPTIONS] [COMMAND] [ARGS]..."
  about := "FeedStream - deduplicating feed ingestion."
  options := [⟨"--debug", none, "Enable debug logging"⟩, helpOption]
  mixes := false

def checkConfigSpec : CommandSpec where
  path := "main.py check-config"
  arguments := "[OPTIONS]"
  about := "Validate environment configuration."
  options := [helpOption]
  mixes := true

def fetchSpec : CommandSpec where
  path := "main.py fetch"
  arguments := "[OPTIONS] [URLS]..."
  about := "Run each feed once and print the queued records."
  options := [
    ⟨"--since", some "TEXT", "Only publish entries published after this ISO 8601 instant"⟩,
    ⟨"--timeout-ms", some "INTEGER", "Connection timeout in milliseconds"⟩,
    ⟨"--perpetual", none, "Suppress entries seen in the previous run"⟩,
    ⟨"--json", none, "Print records as JSON lines"⟩,
    helpOption]
  mixes := true

def commands : List (String × CommandSpec) :=
  [("check-config", checkConfigSpec), ("fetch", fetchSpec)]

def mainHelp : Order := .help (mainSpec.helpPage commands)

def CommandSpec.read (c : CommandSpec) (help : Order) (arguments : List String)
    (order : Given → Except ArgumentFault Order) : Except Refusal Order :=
  (do
    let given ← c.split arguments
    if given.has helpOption.name then return help
    order given).mapError fun fault => ⟨c, fault⟩

def readCheckConfig (arguments : List String) : Except Refusal Order :=
  checkConfigSpec.read (.help (checkConfigSpec.helpPage [])) arguments fun given =>
    if given.operands.isEmpty then .ok .checkConfig else .error (.surplus given.operands)

def timeoutOf (given : Given) : Except ArgumentFault (Option Int) :=
  match given.value? "--timeout-ms" with
  | none => .ok none
  | some text =>
      match Decimal.wholeOfText? text with
      | some n => .ok (some n)
      | none => .error (.noWholeNumber "--timeout-ms" text)

def readFetch (debug : Bool) (arguments : List String) : Except Refusal Order :=
  fetchSpec.read (.help (fetchSpec.helpPage [])) arguments fun given => do
    return .fetch debug {
      urls := given.operands
      since := given.value? "--since"
      timeoutMs := ← timeoutOf given
      perpetual := given.has "--perpetual"
      json := given.has "--json" }

/-- What is answered to a word that is no command. It may still ask for help, or be a faulty option
that was taken for an operand. -/
def readUnknown (word : String) (arguments : List String) : Except Refusal Order :=
  mainSpec.read mainHelp (word :: arguments) fun _ =>
    .error (.noSuchCommand word (Text.similarTo word (commands.map (·.1))))

def readOrder (arguments : List String) : Except Refusal Order :=
  match mainSpec.split arguments with
  | .error fault => .error ⟨mainSpec, fault⟩
  | .ok given =>
      if given.has helpOption.name then .ok mainHelp
      else
        match given.operands with
        | [] => .ok mainHelp
        | "check-config" :: rest => readCheckConfig rest
        | "fetch" :: rest => readFetch (given.has "--debug") rest
        | word :: rest => readUnknown word rest

end FeedIntake.CommandLine
