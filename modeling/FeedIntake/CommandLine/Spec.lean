import FeedIntake.Text.Cut
import FeedIntake.Text.Quoted
import FeedIntake.Text.Similarity

/-! # Commands and their options

A command takes options by their long names and operands. The value of an option stands after an
equals sign or is the next argument, whatever that looks like. Two hyphens alone end the options.
-/

namespace FeedIntake.CommandLine

structure OptionSpec where
  name : String
  /-- What its value is called, if it takes one. -/
  value : Option String
  help : String

structure CommandSpec where
  path : String
  arguments : String
  about : String
  options : List OptionSpec
  /-- Whether options may follow operands. -/
  mixes : Bool

def helpOption : OptionSpec := ⟨"--help", none, "Show this message and exit."⟩

structure Given where
  /-- The options in their order, each with its value if it takes one. -/
  options : List (String × Option String)
  operands : List String
  deriving DecidableEq, Repr

namespace Given

def empty : Given := ⟨[], []⟩

def withOption (g : Given) (name : String) (value : Option String) : Given :=
  { g with options := (name, value) :: g.options }

def withOperand (g : Given) (operand : String) : Given :=
  { g with operands := operand :: g.operands }

def has (g : Given) (name : String) : Bool := g.options.any fun o => o.1 == name

def value? (g : Given) (name : String) : Option String :=
  (g.options.reverse.find? fun o => o.1 == name).bind (·.2)

end Given

inductive ArgumentFault where
  | noSuchOption (name : String) (similar : List String)
  | missingValue (name : String)
  | unwantedValue (name : String)
  | noSuchCommand (name : String) (similar : List String)
  | surplus (operands : List String)
  | noWholeNumber (option text : String)
  | noTimestamp (option reason : String)
  deriving DecidableEq, Repr

namespace ArgumentFault

/-- Words that may have been meant, as the end of a message. -/
def hint (similar : List String) : String :=
  match similar with
  | [] => ""
  | [word] => " Did you mean " ++ Text.quoted word ++ "?"
  | words => " (Did you mean one of: " ++ ", ".intercalate (words.map Text.quoted) ++ "?)"

def message : ArgumentFault → String
  | noSuchOption name similar => "No such option " ++ Text.quoted name ++ "." ++ hint similar
  | missingValue name => "Option " ++ Text.quoted name ++ " requires an argument."
  | unwantedValue name => "Option " ++ Text.quoted name ++ " does not take a value."
  | noSuchCommand name similar => "No such command " ++ Text.quoted name ++ "." ++ hint similar
  | surplus [operand] => "Got unexpected extra argument (" ++ operand ++ ")"
  | surplus operands => "Got unexpected extra arguments (" ++ " ".intercalate operands ++ ")"
  | noWholeNumber option text =>
      "Invalid value for " ++ Text.quoted option ++ ": " ++ Text.quoted text ++
        " is not a valid integer."
  | noTimestamp option reason => "Invalid value for " ++ option ++ ": " ++ reason

def showsUsage : ArgumentFault → Bool
  | missingValue _ | unwantedValue _ => false
  | _ => true

end ArgumentFault

/-- What an argument can be: an option may still be wanting its value. -/
inductive ArgumentRole where
  | endOfOptions
  | operand
  | complete (option : String) (value : Option String)
  | wanting (option : String)
  deriving DecidableEq, Repr

/-- An argument that asks for an option: a hyphen and more. -/
def isOption (argument : String) : Bool :=
  match argument.toList with
  | '-' :: _ :: _ => true
  | _ => false

def splitOption (argument : String) : String × Option String :=
  let (name, value) := Text.cut '=' argument.toList
  (String.ofList name, value.map String.ofList)

namespace CommandSpec

def option? (c : CommandSpec) (name : String) : Option OptionSpec :=
  c.options.find? fun o => o.name == name

/-- The fault of asking for an option that there is not. After a single hyphen its first letter
alone counts. -/
def unknownOption (c : CommandSpec) (name : String) : ArgumentFault :=
  match name.toList with
  | '-' :: '-' :: _ => .noSuchOption name (Text.similarTo name (c.options.map (·.name)))
  | cs => .noSuchOption (String.ofList (cs.take 2)) []

def role (c : CommandSpec) (argument : String) : Except ArgumentFault ArgumentRole :=
  if argument = "--" then .ok .endOfOptions
  else if !isOption argument then .ok .operand
  else
    let (name, attached) := splitOption argument
    match c.option? name with
    | none => .error (c.unknownOption name)
    | some o =>
        match o.value, attached with
        | none, none => .ok (.complete name none)
        | none, some _ => .error (.unwantedValue name)
        | some _, some value => .ok (.complete name (some value))
        | some _, none => .ok (.wanting name)

def split (c : CommandSpec) : List String → Except ArgumentFault Given
  | [] => .ok .empty
  | argument :: rest =>
      match c.role argument with
      | .error fault => .error fault
      | .ok .endOfOptions => .ok ⟨[], rest⟩
      | .ok (.complete name value) => (c.split rest).map (·.withOption name value)
      | .ok (.wanting name) =>
          match rest with
          | [] => .error (.missingValue name)
          | value :: rest => (c.split rest).map (·.withOption name (some value))
      | .ok .operand =>
          if c.mixes then (c.split rest).map (·.withOperand argument)
          else .ok ⟨[], argument :: rest⟩

end CommandSpec

end FeedIntake.CommandLine
