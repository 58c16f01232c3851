import FeedIntake.CommandLine.Spec

/-! # Help pages

A page shows how a command is called, what it does, and its options in two columns. Lines are kept
within the width of a page.
-/

namespace FeedIntake.CommandLine

/-- The longest line that is shown. -/
def pageWidth : Nat := 78

/-- Words joined to lines that are no longer than a width, where no word is. -/
def fillLines (width : Nat) : List String → List String
  | [] => []
  | word :: rest =>
      match fillLines.go width word rest with
      | (line, lines) => line :: lines
where
  go (width : Nat) (line : String) : List String → String × List String
    | [] => (line, [])
    | word :: rest =>
        if line.length + 1 + word.length ≤ width then go width (line ++ " " ++ word) rest
        else
          match go width word rest with
          | (next, lines) => (line, next :: lines)

def padRight (width : Nat) (s : String) : String :=
  s ++ String.ofList (List.replicate (width - s.length) ' ')

def columns (rows : List (String × String)) : List String :=
  let left := (rows.map fun r => r.1.length).foldl max 0 + 2
  rows.flatMap fun (term, meaning) =>
    match fillLines (pageWidth - left - 2) (meaning.splitOn " ") with
    | [] => ["  " ++ term]
    | first :: more =>
        ("  " ++ padRight left term ++ first) :: more.map fun line => padRight (left + 2) "" ++ line

namespace OptionSpec

def term (o : OptionSpec) : String :=
  match o.value with
  | some value => o.name ++ " " ++ value
  | none => o.name

end OptionSpec

namespace CommandSpec

def usage (c : CommandSpec) : String := "Usage: " ++ c.path ++ " " ++ c.arguments

def helpPage (c : CommandSpec) (commands : List (String × CommandSpec)) : List String :=
  [c.usage, "", "  " ++ c.about, "", "Options:"] ++
    columns (c.options.map fun o => (o.term, o.help)) ++
    (if commands.isEmpty then []
      else ["", "Commands:"] ++ columns (commands.map fun k => (k.1, k.2.about)))

def complaint (c : CommandSpec) (fault : ArgumentFault) : List String :=
  let usage := if fault.showsUsage then
      [c.usage, "Try " ++ Text.quoted (c.path ++ " --help") ++ " for help.", ""]
    else []
  usage ++ ["Error: " ++ fault.message]

end CommandSpec

end FeedIntake.CommandLine
