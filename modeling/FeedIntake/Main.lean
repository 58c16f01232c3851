import FeedIntake.CommandLine.Session

/-! # The program

Answers one call, and prints what it shows with its marks of style. Nobody listens to the requests
that it makes, so every feed ends as one that could not be fetched. Log lines are stamped with the
time by the clock that measures how long things take, whose beginning is of no meaning.
-/

namespace FeedIntake

/-- The variables of the environment that are looked at. -/
def variableNames : List String :=
  let sections := [
    ("PROVIDER", ["TIMEOUT_MS", "READ_TIMEOUT_MS", "PERPETUAL", "PUBLISHED_SINCE", "QUEUE_SIZE",
      "MAX_CONCURRENT_SOURCES", "USER_AGENT"]),
    ("DEDUP", ["MAX_SOURCES"]),
    ("LOGGING", ["LEVEL", "FILE_PATH", "MAX_FILE_SIZE_MB", "BACKUP_COUNT", "STRUCTURED_LOGGING",
      "CONSOLE_LOGGING"])]
  let names := ["SOURCES", "APP_NAME", "VERSION", "DEBUG"] ++
    sections.flatMap fun s => s.1 :: s.2.map fun field => s.1 ++ "__" ++ field
  names.map ("FEEDSTREAM_" ++ ·)

def readEnvironment : IO Environment :=
  variableNames.filterMapM fun name => do return (← IO.getEnv name).map (name, ·)

def readSurroundings : IO CommandLine.Surroundings := do
  let ms ← IO.monoMsNow
  let now := (Time.Instant.ofUnixMicros? (ms * 1000)).getD .first
  let stamp : LogStamp := (LogStamp.ofUnix? (ms.toFloat / 1000)).getD ⟨now, .midnight⟩
  return ⟨← readEnvironment, [], now.toDateTime, stamp⟩

namespace CommandLine

/-- The last line of complaint, where a call could not deal with something. -/
def Escape.line : Escape → String
  | .fault f => f.report
  | .log f => f.className ++ ": " ++ f.message

namespace Report

def outputLines (r : Report) : List String := r.output ++ r.shown.flatMap Shown.lines

def errorText (r : Report) : String :=
  r.errors ++ String.join ((r.escape.toList.map Escape.line).map (· ++ "\n"))

end Report

end CommandLine

end FeedIntake

def main (arguments : List String) : IO UInt32 := do
  let world ← FeedIntake.readSurroundings
  let (report, _) := FeedIntake.CommandLine.call .start world arguments
  let out ← IO.getStdout
  let err ← IO.getStderr
  err.putStr report.errorText
  for line in report.outputLines do
    out.putStrLn line
  return report.exitCode.toUInt32
