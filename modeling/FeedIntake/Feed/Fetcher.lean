import FeedIntake.Feed.Document
import FeedIntake.Log.Timing
import FeedIntake.Url

/-! # Fetching a feed

A fetch makes one request and reads one document. It gives all entries or fails as a whole. What
the transport reports is told as a failure of the network, which says whether trying again may
help; faults that are none of the transport's are left as they are.
-/

namespace FeedIntake

/-- What a web server answers, or what goes wrong in its place. -/
structure Response where
  status : Int
  /-- The words after the status; a server may leave them out. -/
  reason : Value
  headers : Fields
  body : String
  document : Document
  connectFault : Option Fault
  readFault : Option Fault
  /-- What goes wrong when the body is read as a document. -/
  parseFault : Option Fault := none
  deriving Inhabited

structure WebRequest where
  url : String
  connectMs : Int
  readMs : Option Int
  userAgent : String

namespace WebRequest

def accepted : String :=
  "application/rss+xml, application/atom+xml, application/xml, text/xml, */*"

def headers (r : WebRequest) : Fields :=
  [("User-Agent", .text r.userAgent), ("Accept", .text accepted)]

def connections : Nat := 1

def seconds (ms : Int) : Float := Decimal.floatOfScaled ms 3

/-- Whether a timeout is a number of seconds in double precision. Numbers from half a step above the
largest one on are none. -/
def isTimed (ms : Int) : Bool := ms.natAbs < 1000 * (Nat.pow 2 1024 - Nat.pow 2 970)

end WebRequest

namespace Response

/-- In the place of an answer: there are no seconds to wait for it. -/
def untimed : Response :=
  { (default : Response) with
    connectFault := some (.outside .overflow "integer division result too large for a float") }

def refusal (r : Response) (url : String) : Failure :=
  let status := String.ofList (Decimal.integer r.status)
  (Failure.of .network s!"HTTP {status}: {r.reason.display}").about (.text url)

/-- Refusals by status. Only those of unknown cause may be worth another try. -/
def statusFailure? (r : Response) (url : String) : Option Failure :=
  if r.status = 401 || r.status = 403 then
    some ((r.refusal url).withCode .feedAccessDenied).final
  else if r.status = 404 then some ((r.refusal url).withCode .feedNotFound).final
  else if 400 ≤ r.status then some (r.refusal url)
  else none

def download (r : Response) (url : String) : Except Fault Unit :=
  match r.connectFault, r.statusFailure? url, r.readFault with
  | some fault, _, _ => .error fault
  | none, some failure, _ => .error (.failure failure)
  | none, none, some fault => .error fault
  | none, none, none => .ok ()

end Response

structure Fetcher where
  readTimeoutMs : Option Int
  userAgent : String

namespace Fetcher

def logger : Logger := ⟨"feed_fetcher", none⟩

def operation : String := "feed download"

/-- The URL to ask for, if the given value is one. -/
def target (url : Value) : Except Failure String :=
  match Url.validate url with
  | .ok checked => .ok checked
  | .error fault =>
      let failure := fault.toFailure
      let refused := Failure.of .network s!"Malformed feed URL {url.literal}: {failure.message}"
      .error (((refused.withCode .feedInvalidUrl).final.about url).causedBy failure.kind.name)

/-- The fault of a value that is no URL, which is told in its literal form if it has one. -/
def refusal (url : Value) (failure : Failure) : Fault :=
  if url.isWritable then .failure failure else .tooLong

def request (f : Fetcher) (url : String) (timeoutMs : Int) : WebRequest :=
  { url, connectMs := timeoutMs, readMs := f.readTimeoutMs.filter (· != 0)
    userAgent := f.userAgent }

def announcement (url : String) : LogEntry := logger.entry .debug s!"Fetching feed: {url}" []

/-- Tells a fault of the transport as a failure of the network. A timeout is told as such, whatever
else it is. -/
def explain (url : Value) (timeoutMs : Int) (fault : Fault) : Fault :=
  match fault with
  | .failure _ => fault
  | .outside kind text =>
      if kind.isTimeout then
        let ms := String.ofList (Decimal.integer timeoutMs)
        .failure ((((Failure.of .network s!"Timed out fetching feed after {ms}ms").withCode
          .feedTimeout).about url).causedBy kind.name)
      else if kind.isTransport then
        .failure (((Failure.of .network s!"Failed to fetch feed: {text}").about url).causedBy
          kind.name)
      else fault

structure Outcome where
  result : Except Fault (List Value)
  logs : List LogEntry

/-- Ends a fetch when the response to its request is there. The value `given` is the URL as it was
given, `url` the one asked for. -/
def conclude (given : Value) (url : String) (timeoutMs : Int) (elapsed : Float) (r : Response) :
    Outcome :=
  let timed (failed : Bool) := Timing.entry logger [("source", .text url)] operation failed elapsed
  match r.download url, r.parseFault with
  | .error fault, _ => ⟨.error (explain given timeoutMs fault), [timed true]⟩
  | .ok (), some fault => ⟨.error fault, [timed false]⟩
  | .ok (), none =>
      let warnings := r.document.readEntries url
      match r.document.listed url with
      | .error fault => ⟨.error fault, timed false :: warnings⟩
      | .ok entries =>
          let size := r.body.utf8ByteSize
          let summary := s!"Fetched {entries.length} entries from {url} " ++
            s!"({size} bytes in {Decimal.fixed elapsed 2}s)"
          ⟨.ok entries, timed false :: warnings ++ [logger.entry .info summary []]⟩

end Fetcher

end FeedIntake
