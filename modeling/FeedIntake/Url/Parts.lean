import FeedIntake.Text.Quoted
import FeedIntake.Url.Address
import FeedIntake.Url.Lookalike

/-! # The parts of a URL

The scheme of a URL is what stands before the first colon, if it looks like one; the authority
follows two slashes. Tabs and line ends count for nothing, wherever they stand.
-/

namespace FeedIntake.Url

open Text (cut afterLast)

structure Parts where
  scheme : List Char
  authority : List Char
  deriving DecidableEq, Repr

inductive Malformed where
  | brackets
  | futureAddress
  | notAnAddress (host : List Char)
  | bracketedAddress4
  | lookalike (authority : List Char)
  deriving DecidableEq, Repr

namespace Malformed

def message : Malformed → String
  | brackets => "Invalid IPv6 URL"
  | futureAddress => "IPvFuture address is invalid"
  | notAnAddress host =>
      Text.quoted (String.ofList host) ++ " does not appear to be an IPv4 or IPv6 address"
  | bracketedAddress4 => "An IPv4 address cannot be in brackets"
  | lookalike authority =>
      s!"netloc '{String.ofList authority}' contains invalid characters under NFKC normalization"

end Malformed

def isLetter (c : Char) : Bool := ('a' ≤ c && c ≤ 'z') || ('A' ≤ c && c ≤ 'Z')

def isSchemeChar (c : Char) : Bool :=
  isLetter c || Decimal.isDigit c || c = '+' || c = '-' || c = '.'

/-- The text that is looked at: without control characters and blanks in front, and without tabs
and line ends. -/
def cleaned (cs : List Char) : List Char :=
  (cs.dropWhile fun c => c.toNat ≤ 0x20).filter fun c => c != '\t' && c != '\r' && c != '\n'

/-- The scheme in lower case and what follows it; an empty scheme where there is none. -/
def splitScheme (cs : List Char) : List Char × List Char :=
  match cut ':' cs with
  | (before, some after) =>
      if (before.head?.map isLetter).getD false && before.all isSchemeChar then
        (before.map Char.toLower, after)
      else ([], cs)
  | _ => ([], cs)

def endsAuthority (c : Char) : Bool := c = '/' || c = '?' || c = '#'

def authorityOf (cs : List Char) : List Char :=
  match cs with
  | '/' :: '/' :: rest => rest.takeWhile (!endsAuthority ·)
  | _ => []

/-- The host of an authority in brackets, where nothing stands before them and nothing but a port
behind. User information, up to the last at sign, is no part of it. -/
def bracketedHost (authority : List Char) : Except Malformed (List Char) :=
  let hostAndPort := afterLast '@' authority
  match cut '[' hostAndPort with
  | (before, some inside) =>
      if !before.isEmpty then .error .brackets
      else
        let (host, port) := cut ']' inside
        match port with
        | some (c :: _) => if c = ':' then .ok host else .error .brackets
        | _ => .ok host
  | (_, none) => .ok (cut ':' hostAndPort).1

def checkBracketedHost (host : List Char) : Except Malformed Unit :=
  if host.head? = some 'v' then
    if isFutureAddress host then .ok () else .error .futureAddress
  else if isAddress4 host then .error .bracketedAddress4
  else if isAddress6 host then .ok ()
  else .error (.notAnAddress host)

def checkBrackets (authority : List Char) : Except Malformed Unit :=
  match authority.contains '[', authority.contains ']' with
  | false, false => .ok ()
  | true, true => do checkBracketedHost (← bracketedHost authority)
  | _, _ => .error .brackets

def split (cs : List Char) : Except Malformed Parts := do
  let (scheme, rest) := splitScheme (cleaned cs)
  let authority := authorityOf rest
  checkBrackets authority
  if authority.any isLookalike then throw (.lookalike authority)
  return ⟨scheme, authority⟩

end FeedIntake.Url
