import FeedIntake.Record
import FeedIntake.Text.Blank
import FeedIntake.Time.IsoReader

/-! # Recency

Reading the publication date of a record, and deciding whether the record is new enough. A record
whose date is missing or cannot be read always passes: an old entry let through is preferred to an
entry lost.
-/

namespace FeedIntake

open Time

/-- Why a value is no timestamp. -/
inductive TimestampFault where
  | notText (value : Value)
  | unrecognized (text : String)
  | outOfRange (text : String)
  deriving Inhabited

namespace TimestampFault

def reason : TimestampFault → String
  | notText _ => "Timestamp is empty or not text"
  | unrecognized text => "Unrecognized timestamp: " ++ Text.quoted text
  | outOfRange text => "Timestamp out of range: " ++ Text.quoted text

def subject : TimestampFault → String
  | notText value => value.literal
  | unrecognized text => text
  | outOfRange text => text

def cause : TimestampFault → Option String
  | notText _ => none
  | unrecognized _ => some OutsideKind.value.name
  | outOfRange _ => some OutsideKind.overflow.name

def toFailure (t : TimestampFault) : Failure :=
  { (Failure.of .timestamp t.reason).about (.text t.subject) with cause := t.cause }

def message (t : TimestampFault) : String := t.toFailure.message

/-- The failure, for which a value that is no text must have a literal form. -/
def failure (t : TimestampFault) : Except Fault Failure :=
  match t with
  | notText value => (value.write Value.literal).map fun _ => t.toFailure
  | _ => .ok t.toFailure

end TimestampFault

/-- A final `Z` of either case is the offset of UTC. -/
def spellOutZulu (cs : List Char) : List Char :=
  match cs.getLast? with
  | some c => if c = 'z' || c = 'Z' then cs.dropLast ++ "+00:00".toList else cs
  | none => cs

def readTimestampText (text : String) : Except TimestampFault Instant :=
  let cs := Text.trim text.toList
  if cs.isEmpty then .error (.notText (.text text))
  else
    match DateTime.read? (spellOutZulu cs) with
    | none => .error (.unrecognized text)
    | some d =>
        match d.instant? with
        | none => .error (.outOfRange text)
        | some i => .ok i

def readTimestamp : Value → Except TimestampFault Instant
  | .text s => readTimestampText s
  | v => .error (.notText v)

/-- A publication date, evaluated once. -/
inductive Published where
  | at (instant : Instant)
  | missing
  | unreadable (fault : TimestampFault)
  deriving Inhabited

namespace Published

/-- Evaluates what stands in the date field, if anything does. -/
def read : Option Value → Published
  | none | some .null => missing
  | some v =>
      match readTimestamp v with
      | .ok i => .at i
      | .error fault => unreadable fault

/-- The same, where what is no timestamp has to be told. -/
def ofField (field : Option Value) : Except Fault Published :=
  match read field with
  | unreadable fault => fault.failure.map fun _ => unreadable fault
  | published => .ok published

def instant? : Published → Option Instant
  | .at i => some i
  | _ => none

def reason? : Published → Option String
  | .at _ => none
  | missing => some "missing"
  | unreadable fault => some fault.message

def isFallback (p : Published) : Bool := p.instant?.isNone

/-- Whether the date passes the threshold: strictly later, or not usable. -/
def passes (p : Published) (since : Instant) : Bool :=
  match p with
  | .at i => decide (since < i)
  | _ => true

end Published

def Record.publishedAt (r : Record) : Published := .read (r.published.map .text)

/-- A date evaluated by someone else, which may be a date-time without an offset. -/
structure Evaluated where
  instant : Option DateTime
  reason : Option String

def thresholdOf (since : DateTime) : Except Fault Instant :=
  match since.instant? with
  | some i => .ok i
  | none => .error .overflow

/-- Whether an evaluated date passes a threshold. The two can only be compared when the date has an
offset; it may then lie outside the calendar. -/
def Evaluated.passes (e : Evaluated) (since : DateTime) : Except Fault Bool :=
  match e.instant with
  | none => .ok true
  | some d => do
      let threshold ← thresholdOf since
      if d.offset.isNone then
        throw (.outside .wrongType "can't compare offset-naive and offset-aware datetimes")
      return decide ((threshold.micros : Int) < d.position)

/-- The same for the date field of any mapping. -/
def passesThreshold (published : Published) (since : DateTime) : Except Fault Bool :=
  match published with
  | .at i => do return decide ((← thresholdOf since) < i)
  | _ => .ok true

def isRecent (field : Option Value) (since : DateTime) : Except Fault Bool := do
  passesThreshold (← Published.ofField field) since

end FeedIntake
