import FeedIntake.Fault
import FeedIntake.Text.Blank
import FeedIntake.Url.Parts

/-! # Feed URLs

A feed URL is returned stripped and otherwise as it is, since the same text is the key under which
the entries of the feed are remembered.
-/

namespace FeedIntake

inductive UrlFault where
  | required
  | malformed (why : Url.Malformed)
  | scheme
  | host
  deriving DecidableEq, Repr

namespace UrlFault

def reason : UrlFault → String
  | required => "URL is required and must be a string"
  | malformed why => "Invalid URL format: " ++ why.message
  | scheme => "URL scheme must be http or https"
  | host => "URL must include a hostname"

def code : UrlFault → Code
  | required => .requiredField
  | _ => .invalidFormat

def cause : UrlFault → Option String
  | malformed _ => some OutsideKind.value.name
  | _ => none

def toFailure (u : UrlFault) : Failure :=
  { ((Failure.of .validation u.reason).withCode u.code).about (.text "url") with cause := u.cause }

end UrlFault

namespace Url

def allowedSchemes : List (List Char) := ["http".toList, "https".toList]

def validateText (s : String) : Except UrlFault String :=
  if s.isEmpty then .error .required
  else
    let stripped := Text.strip s
    match split stripped.toList with
    | .error why => .error (.malformed why)
    | .ok parts =>
        if !allowedSchemes.contains parts.scheme then .error .scheme
        else if parts.authority.isEmpty then .error .host
        else .ok stripped

/-- Only text can be a URL. -/
def validate : Value → Except UrlFault String
  | .text s => validateText s
  | _ => .error .required

/-- Checks URLs in order and keeps the first of those that are the same once stripped. -/
def validateAll (urls : List Value) : Except UrlFault (List String) :=
  urls.foldlM (fun kept url => do
    let checked ← validate url
    return if kept.contains checked then kept else kept ++ [checked]) []

end Url

end FeedIntake
