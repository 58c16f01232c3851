import FeedIntake.Decimal.Digits
import FeedIntake.Text.Cut

/-! # Numeric addresses

Which texts are numeric addresses of version 4 or 6. The host between brackets must be one of
version 6.
-/

namespace FeedIntake.Url

open Decimal (isDigit valueOf)
open Text (cut pieces)

/-- One to three digits without a superfluous leading zero, at most 255. -/
def isOctet (cs : List Char) : Bool :=
  !cs.isEmpty && cs.all isDigit && cs.length ≤ 3 && (cs.length = 1 || cs.head? != some '0') &&
    valueOf cs 0 ≤ 255

def isAddress4 (cs : List Char) : Bool :=
  let parts := pieces '.' cs
  parts.length = 4 && parts.all isOctet

def isHexDigit (c : Char) : Bool :=
  isDigit c || ('a' ≤ c && c ≤ 'f') || ('A' ≤ c && c ≤ 'F')

/-- One to four hexadecimal digits. -/
def isGroup (cs : List Char) : Bool := !cs.isEmpty && cs.length ≤ 4 && cs.all isHexDigit

/-- The groups of an address, where two groups stand in for an address of version 4 at the end. -/
def groups? (cs : List Char) : Option (List (List Char)) :=
  let parts := pieces ':' cs
  if parts.length < 3 then none
  else
    let last := parts.getLastD []
    if last.contains '.' then
      if isAddress4 last then some (parts.dropLast ++ [['0'], ['0']]) else none
    else some parts

/-- Whether groups on one side of a gap are well-formed. A side that is only an edge is empty. -/
def isSide (groups : List (List Char)) : Bool := groups = [[]] || groups.all isGroup

def sideLength (groups : List (List Char)) : Nat := if groups = [[]] then 0 else groups.length

/-- Eight groups, or fewer with one gap, an empty group inside, for the missing ones. -/
def areGroups (parts : List (List Char)) : Bool :=
  let inner := (parts.drop 1).dropLast
  match inner.idxOf? [] with
  | none => parts.length = 8 && parts.all isGroup
  | some i =>
      let before := parts.take (i + 1)
      let after := parts.drop (i + 2)
      parts.length ≤ 9 && !(inner.drop (i + 1)).contains [] && isSide before && isSide after &&
        sideLength before + sideLength after ≤ 7

/-- A zone after a percent sign must be there and hold no second percent sign. -/
def isAddress6 (cs : List Char) : Bool :=
  let (address, zone) := cut '%' cs
  let zoneIsGood := match zone with
    | none => true
    | some z => !z.isEmpty && !z.contains '%'
  zoneIsGood && !address.contains '/' && match groups? address with
    | some parts => areGroups parts
    | none => false

/-- An address of a version to come: its version in hexadecimal digits, a point and the rest. -/
def isFutureAddress (cs : List Char) : Bool :=
  match cs with
  | 'v' :: rest =>
      let (version, tail) := cut '.' rest
      !version.isEmpty && version.all isHexDigit && match tail with
        | some t => !t.isEmpty && !t.contains '\n'
        | none => false
  | _ => false

end FeedIntake.Url
