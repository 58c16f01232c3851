import FeedIntake.Decimal.Fixed
import FeedIntake.Log.Entry

/-! # Timing

What is logged on how long some work took, whether it succeeded or not.
-/

namespace FeedIntake.Timing

def message (operation : String) (failed : Bool) (elapsed : Float) : String :=
  let outcome := if failed then "failed" else "done"
  s!"{operation} {outcome} in {Decimal.fixed elapsed 3}s"

def attributes (context : Fields) (operation : String) (elapsed : Float) : Fields :=
  Fields.put (Fields.put context "operation" (.text operation)) "elapsed_seconds" (.float elapsed)

def entry (l : Logger) (context : Fields) (operation : String) (failed : Bool) (elapsed : Float) :
    LogEntry :=
  l.entry .debug (message operation failed elapsed) (attributes context operation elapsed)

end FeedIntake.Timing
