import FeedIntake.Settings.Misfit
import FeedIntake.Value.Literal

/-! # Faults

What can go wrong, as causes. A failure is one that this library raises: it has a kind, a code, a
context for the log and says whether trying again may help. Everything else comes from outside,
from the transport, the document reader or the host, and is known by its class and text.
-/

namespace FeedIntake

inductive Code where
  | configInvalid
  | feedInvalidUrl
  | feedTimeout
  | feedParse
  | feedNetwork
  | feedAccessDenied
  | feedNotFound
  | timestampInvalid
  | ingestionFailed
  | requiredField
  | invalidFormat
  deriving DecidableEq, Repr, Inhabited

namespace Code

def text : Code → String
  | configInvalid => "C001"
  | feedInvalidUrl => "F001"
  | feedTimeout => "F002"
  | feedParse => "F003"
  | feedNetwork => "F004"
  | feedAccessDenied => "F005"
  | feedNotFound => "F006"
  | timestampInvalid => "P001"
  | ingestionFailed => "P002"
  | requiredField => "V001"
  | invalidFormat => "V002"

def all : List Code :=
  [configInvalid, feedInvalidUrl, feedTimeout, feedParse, feedNetwork, feedAccessDenied,
    feedNotFound, timestampInvalid, ingestionFailed, requiredField, invalidFormat]

def ofText? (s : String) : Option Code := all.find? fun c => c.text == s

end Code

/-- What a failure of this library is about. -/
inductive FailureKind where
  | general
  | configuration
  | validation
  | feed
  | network
  | format
  | timestamp
  | ingestion
  deriving DecidableEq, Repr, Inhabited

namespace FailureKind

def name : FailureKind → String
  | general => "FeedStreamError"
  | configuration => "ConfigurationError"
  | validation => "ValidationError"
  | feed => "FeedError"
  | network => "NetworkError"
  | format => "FormatError"
  | timestamp => "TimestampParseError"
  | ingestion => "IngestionError"

def all : List FailureKind :=
  [general, configuration, validation, feed, network, format, timestamp, ingestion]

def ofName? (s : String) : Option FailureKind := all.find? fun k => k.name == s

def lineage : FailureKind → List FailureKind
  | general => [general]
  | network => [network, feed, general]
  | format => [format, feed, general]
  | kind => [kind, general]

def isFeed (k : FailureKind) : Bool := k.lineage.contains feed

def defaultCode : FailureKind → Option Code
  | general => none
  | configuration => some .configInvalid
  | validation => some .invalidFormat
  | feed => some .feedNetwork
  | network => some .feedNetwork
  | format => some .feedParse
  | timestamp => some .timestampInvalid
  | ingestion => some .ingestionFailed

def defaultRecoverable : FailureKind → Bool
  | feed | network => true
  | _ => false

def subjectKey : FailureKind → Option String
  | general => none
  | configuration => some "config_key"
  | validation => some "field_name"
  | feed | network | format | ingestion => some "feed_url"
  | timestamp => some "value"

/-- An empty subject is not worth keeping, except that an empty timestamp is what was wrong. -/
def keepsSubject (k : FailureKind) (subject : Value) : Bool :=
  if k = timestamp then !subject.isNull else subject.isTruthy

end FailureKind

structure Failure where
  kind : FailureKind
  reason : String
  code : Option Code
  context : Fields
  recoverable : Bool
  cause : Option String
  /-- What was wrong with settings one by one, where that led to the failure. -/
  misfits : List Misfit
  deriving Inhabited

namespace Failure

def of (kind : FailureKind) (reason : String) : Failure :=
  ⟨kind, reason, kind.defaultCode, [], kind.defaultRecoverable, none, []⟩

def withCode (f : Failure) (code : Code) : Failure := { f with code := some code }

def final (f : Failure) : Failure := { f with recoverable := false }

def causedBy (f : Failure) (cause : String) : Failure := { f with cause := some cause }

def about (f : Failure) (subject : Value) : Failure :=
  match f.kind.subjectKey with
  | some key =>
      if f.kind.keepsSubject subject then { f with context := f.context.put key subject } else f
  | none => f

def message (f : Failure) : String :=
  match f.code with
  | some code => s!"[{code.text}] {f.reason}"
  | none => f.reason

/-- Trying again is worth while only for failures of the network and timeouts. -/
def isRetryable (f : Failure) : Bool :=
  f.recoverable && (f.code = some .feedNetwork || f.code = some .feedTimeout)

def toFields (f : Failure) : Fields :=
  [("error_type", .text f.kind.name),
    ("error_code", match f.code with
      | some code => .text code.text
      | none => .null),
    ("error_message", .text f.message),
    ("context", .dict f.context),
    ("recoverable", .bool f.recoverable)]

end Failure

/-- What the class of a fault may descend from, as far as it makes a difference. -/
inductive Ancestor where
  | timeout
  | client
  | os
  | value
  | markup
  | cancelled
  deriving DecidableEq, Repr, Inhabited

/-- The classes of faults from outside. -/
inductive OutsideKind where
  | client
  | clientConnection
  | clientPayload
  | serverDisconnected
  | serverTimeout
  | timeout
  | os
  | connectionRefused
  | value
  | unicode
  | runtime
  | missingKey
  | wrongType
  | missingAttribute
  | overflow
  | cancelled
  | markup
  | markupParse
  | markupNotSupported
  | encodingOverride
  | nonXmlContent
  /-- Any other class, with the family under which it is listed. -/
  | other (name : String) (family : Option String) (ancestors : List Ancestor)
  deriving DecidableEq, Repr, Inhabited

namespace OutsideKind

def name : OutsideKind → String
  | client => "ClientError"
  | clientConnection => "ClientConnectionError"
  | clientPayload => "ClientPayloadError"
  | serverDisconnected => "ServerDisconnectedError"
  | serverTimeout => "ServerTimeoutError"
  | timeout => "TimeoutError"
  | os => "OSError"
  | connectionRefused => "ConnectionRefusedError"
  | value => "ValueError"
  | unicode => "UnicodeError"
  | runtime => "RuntimeError"
  | missingKey => "KeyError"
  | wrongType => "TypeError"
  | missingAttribute => "AttributeError"
  | overflow => "OverflowError"
  | cancelled => "CancelledError"
  | markup => "SAXException"
  | markupParse => "SAXParseException"
  | markupNotSupported => "SAXNotSupportedException"
  | encodingOverride => "CharacterEncodingOverride"
  | nonXmlContent => "NonXMLContentType"
  | other name _ _ => name

/-- The classes that are known by their names alone. -/
def all : List OutsideKind :=
  [client, clientConnection, clientPayload, serverDisconnected, serverTimeout, timeout, os,
    connectionRefused, value, unicode, runtime, missingKey, wrongType, missingAttribute, overflow,
    cancelled, markup, markupParse, markupNotSupported, encodingOverride, nonXmlContent]

def ofName? (s : String) : Option OutsideKind := all.find? fun k => k.name == s

/-- The family under which the class is listed in full names; the host's own have none. -/
def family : OutsideKind → Option String
  | client | clientConnection | clientPayload | serverDisconnected | serverTimeout =>
      some "aiohttp.client_exceptions"
  | cancelled => some "asyncio.exceptions"
  | markup | markupParse | markupNotSupported => some "xml.sax._exceptions"
  | encodingOverride | nonXmlContent => some "feedparser.exceptions"
  | other _ family _ => family
  | _ => none

def ancestors : OutsideKind → List Ancestor
  | client | clientConnection | clientPayload | serverDisconnected => [.client]
  | serverTimeout => [.client, .timeout, .os]
  | timeout => [.timeout, .os]
  | os | connectionRefused => [.os]
  | value | unicode => [.value]
  | markup | markupParse | markupNotSupported => [.markup]
  | cancelled => [.cancelled]
  | other _ _ ancestors => ancestors
  | _ => []

def isTimeout (k : OutsideKind) : Bool := k.ancestors.contains .timeout

/-- A failure of the connection, of the host's input and output, or of a value met on the way. -/
def isTransport (k : OutsideKind) : Bool :=
  k.ancestors.any fun a => a == .client || a == .os || a == .value

def isMarkup (k : OutsideKind) : Bool := k.ancestors.contains .markup

def isCancelled (k : OutsideKind) : Bool := k.ancestors.contains .cancelled

end OutsideKind

inductive Fault where
  | failure (f : Failure)
  | outside (kind : OutsideKind) (text : String)
  deriving Inhabited

namespace Fault

def className : Fault → String
  | failure f => f.kind.name
  | outside kind _ => kind.name

def fullName : Fault → String
  | failure f => "feedstream.utils.exceptions." ++ f.kind.name
  | outside kind _ =>
      match kind.family with
      | some family => family ++ "." ++ kind.name
      | none => kind.name

def message : Fault → String
  | failure f => f.message
  | outside _ text => text

def report (f : Fault) : String :=
  if f.message.isEmpty then f.fullName else f.fullName ++ ": " ++ f.message

/-- Cancellation is a request to stop and no error of the work. -/
def isCancellation : Fault → Bool
  | failure _ => false
  | outside kind _ => kind.isCancelled

def missingAttribute (value : Value) (member : String) : Fault :=
  outside .missingAttribute s!"'{value.kindName}' object has no attribute '{member}'"

def overflow : Fault := outside .overflow "date value out of range"

/-- A document found not to be well-formed at a place of it. -/
def notWellFormed (line column : Nat) (what : String) : Fault :=
  outside .markupParse s!"<unknown>:{line}:{column}: {what}"

def missingKey (key : String) : Fault := outside .missingKey (Text.quoted key)

def notCallable (value : Value) : Fault :=
  outside .wrongType s!"'{value.kindName}' object is not callable"

/-- A whole number has more digits than are written. -/
def tooLong : Fault :=
  outside .value (s!"Exceeds the limit ({Decimal.mostDigits} digits) for integer string " ++
    "conversion; use sys.set_int_max_str_digits() to increase the limit")

end Fault

/-- Writes a value in one of its forms, if it can be written. -/
def Value.write (form : Value → String) (v : Value) : Except Fault String :=
  if v.isWritable then .ok (form v) else .error .tooLong

end FeedIntake
