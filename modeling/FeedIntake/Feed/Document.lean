import FeedIntake.Log.Entry

/-! # Feed documents

What the reader of feed documents made of some bytes. A document is a feed if a version of a feed
format was found in it. A document that is not well-formed is refused, since only a part of its
entries may have been found; any other irregularity is logged and let pass.
-/

namespace FeedIntake

structure Document where
  isFeed : Bool
  irregular : Bool
  problem : Option Fault
  entries : List Value
  /-- What goes wrong when the entries are listed. -/
  listingFault : Option Fault := none
  deriving Inhabited

namespace Document

def logger : Logger := ⟨"feed_fetcher", none⟩

def problemText (d : Document) : String := (d.problem.map Fault.message).getD "None"

def refusal (url reason : String) : Failure := (Failure.of .format reason).about (.text url)

/-- Whether the document is known not to be well-formed. -/
def isBroken (d : Document) : Bool :=
  d.irregular && d.problem.any fun
    | .outside kind _ => kind.isMarkup
    | .failure _ => false

def entriesOf (d : Document) (url : String) : Except Failure (List Value) :=
  if !d.isFeed then
    let why := (d.problem.map Fault.message).getD "no feed element found"
    .error (refusal url ("Content is not a syndication feed: " ++ why))
  else if d.isBroken then
    .error (refusal url ("Feed is not well-formed XML: " ++ d.problemText))
  else .ok d.entries

/-- The entries of a document that is not refused, if they can be listed. -/
def listed (d : Document) (url : String) : Except Fault (List Value) :=
  match d.entriesOf url, d.listingFault with
  | .error failure, _ => .error (.failure failure)
  | .ok _, some fault => .error fault
  | .ok entries, none => .ok entries

def readEntries (d : Document) (url : String) : List LogEntry :=
  if d.isFeed && d.irregular && !d.isBroken then
    [logger.entry .warning s!"Feed parsing warning for {url}: {d.problemText}" []]
  else []

end Document

end FeedIntake
