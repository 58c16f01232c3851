import FeedIntake.Value
import FeedIntake.Decimal.Digits

/-! # Reading JSON text

The standard grammar, with the three words for numbers that are not finite. Of two members with
one key the later gives the value, and a whole number of too many digits is none. Every step takes
at least one character, so as many steps as there are characters are enough.
-/

namespace FeedIntake.Json

open Decimal (isDigit valueOf)

def isSpace (c : Char) : Bool := c = ' ' || c = '\t' || c = '\n' || c = '\r'

def skipSpace (cs : List Char) : List Char := cs.dropWhile isSpace

def hexValue? (c : Char) : Option Nat :=
  if '0' ≤ c ∧ c ≤ '9' then some (c.toNat - 0x30)
  else if 'a' ≤ c ∧ c ≤ 'f' then some (c.toNat - 0x61 + 10)
  else if 'A' ≤ c ∧ c ≤ 'F' then some (c.toNat - 0x41 + 10)
  else none

def unit? : List Char → Option (Nat × List Char)
  | a :: b :: c :: d :: rest => do
      let a ← hexValue? a
      let b ← hexValue? b
      let c ← hexValue? c
      let d ← hexValue? d
      some (((a * 16 + b) * 16 + c) * 16 + d, rest)
  | _ => none

/-- The character of a code unit; half of a pair alone stands for no character. -/
def charOfUnit (n : Nat) : Char :=
  if 0xD800 ≤ n ∧ n ≤ 0xDFFF then Char.ofNat 0xFFFD else Char.ofNat n

/-- The second half of a pair, when it follows as an escape. -/
def lowHalf? : List Char → Option (Nat × List Char)
  | '\\' :: 'u' :: rest => do
      let (low, rest) ← unit? rest
      if 0xDC00 ≤ low ∧ low ≤ 0xDFFF then some (low, rest) else none
  | _ => none

def simpleEscape? : Char → Option Char
  | '"' => some '"'
  | '\\' => some '\\'
  | '/' => some '/'
  | 'b' => some '\x08'
  | 'f' => some '\x0c'
  | 'n' => some '\n'
  | 'r' => some '\r'
  | 't' => some '\t'
  | _ => none

/-- The characters of a string up to its closing quote, found in reverse onto `read`. -/
def stringFrom : Nat → List Char → List Char → Option (List Char × List Char)
  | 0, _, _ => none
  | _ + 1, [], _ => none
  | fuel + 1, c :: rest, read =>
      if c = '"' then some (read.reverse, rest)
      else if c.toNat < 0x20 then none
      else if c = '\\' then
        match rest with
        | 'u' :: rest =>
            match unit? rest with
            | none => none
            | some (high, rest) =>
                match if 0xD800 ≤ high ∧ high ≤ 0xDBFF then lowHalf? rest else none with
                | some (low, rest) =>
                    let n := 0x10000 + (high - 0xD800) * 0x400 + (low - 0xDC00)
                    stringFrom fuel rest (Char.ofNat n :: read)
                | none => stringFrom fuel rest (charOfUnit high :: read)
        | e :: rest =>
            match simpleEscape? e with
            | some c => stringFrom fuel rest (c :: read)
            | none => none
        | [] => none
      else stringFrom fuel rest (c :: read)

def string? (cs : List Char) : Option (String × List Char) :=
  (stringFrom (cs.length + 1) cs []).map fun (read, rest) => (String.ofList read, rest)

/-- The double with the given decimal digits and exponent; exponents far out of the range of
doubles give infinity or nought. -/
def floatOf (negative : Bool) (digits : Nat) (exponent : Int) : Float :=
  let size := (Decimal.natural digits).length
  let x : Float :=
    if digits = 0 then 0.0
    else if 400 < exponent + size then 1.0 / 0.0
    else if exponent + size < -400 then 0.0
    else if exponent < 0 then Float.ofScientific digits true exponent.natAbs
    else Float.ofScientific digits false exponent.natAbs
  if negative then -x else x

def exponent? : List Char → Option (Int × List Char)
  | e :: rest =>
      if e = 'e' || e = 'E' then
        let (negative, digits) := match rest with
          | '-' :: more => (true, more)
          | '+' :: more => (false, more)
          | more => (false, more)
        let run := digits.takeWhile isDigit
        if run.isEmpty then none
        else
          let n : Int := valueOf run 0
          some (if negative then -n else n, digits.dropWhile isDigit)
      else none
  | [] => none

def fraction? : List Char → Option (List Char × List Char)
  | '.' :: rest =>
      let run := rest.takeWhile isDigit
      if run.isEmpty then none else some (run, rest.dropWhile isDigit)
  | _ => none

def number? (cs : List Char) : Option (Value × List Char) :=
  let (negative, digits) := match cs with
    | '-' :: rest => (true, rest)
    | rest => (false, rest)
  let whole := match digits with
    | '0' :: _ => ['0']
    | rest => rest.takeWhile isDigit
  if whole.isEmpty then none
  else
    let rest := digits.drop whole.length
    let (places, rest, plain) := match fraction? rest with
      | some (run, rest) => (run, rest, false)
      | none => ([], rest, true)
    let (shift, rest, plain) := match exponent? rest with
      | some (e, rest) => (e, rest, false)
      | none => (0, rest, plain)
    let n := valueOf (whole ++ places) 0
    if !plain then some (.float (floatOf negative n (shift - places.length)), rest)
    else if Decimal.mostDigits < whole.length then none
    else some (.int (if negative then -(n : Int) else n), rest)

def word? (word : String) (value : Value) (cs : List Char) : Option (Value × List Char) :=
  let w := word.toList
  if w.isPrefixOf cs then some (value, cs.drop w.length) else none

def scalar? (cs : List Char) : Option (Value × List Char) :=
  word? "null" .null cs <|> word? "true" (.bool true) cs <|> word? "false" (.bool false) cs <|>
    word? "NaN" (.float (0.0 / 0.0)) cs <|> word? "Infinity" (.float (1.0 / 0.0)) cs <|>
    word? "-Infinity" (.float (-1.0 / 0.0)) cs <|> number? cs

mutual

/-- A value at the front of the text, no blanks before it. -/
def valueFrom : Nat → List Char → Option (Value × List Char)
  | 0, _ => none
  | fuel + 1, cs =>
      match cs with
      | '"' :: rest => (string? rest).map fun (s, rest) => (.text s, rest)
      | '[' :: rest =>
          match skipSpace rest with
          | ']' :: rest => some (.list [], rest)
          | rest => (itemsFrom fuel rest []).map fun (items, rest) => (.list items, rest)
      | '\x7b' :: rest =>
          match skipSpace rest with
          | '\x7d' :: rest => some (.dict [], rest)
          | rest => (membersFrom fuel rest []).map fun (fields, rest) => (.dict fields, rest)
      | cs => scalar? cs

def itemsFrom : Nat → List Char → List Value → Option (List Value × List Char)
  | 0, _, _ => none
  | fuel + 1, cs, read =>
      match valueFrom fuel cs with
      | none => none
      | some (item, rest) =>
          match skipSpace rest with
          | ']' :: rest => some ((item :: read).reverse, rest)
          | ',' :: rest => itemsFrom fuel (skipSpace rest) (item :: read)
          | _ => none

def membersFrom : Nat → List Char → Fields → Option (Fields × List Char)
  | 0, _, _ => none
  | fuel + 1, cs, read =>
      match cs with
      | '"' :: rest =>
          match string? rest with
          | none => none
          | some (key, rest) =>
              match skipSpace rest with
              | ':' :: rest =>
                  match valueFrom fuel (skipSpace rest) with
                  | none => none
                  | some (value, rest) =>
                      let read := read.put key value
                      match skipSpace rest with
                      | '\x7d' :: rest => some (read, rest)
                      | ',' :: rest => membersFrom fuel (skipSpace rest) read
                      | _ => none
              | _ => none
      | _ => none

end

def read? (s : String) : Option Value :=
  let cs := skipSpace s.toList
  match valueFrom (2 * cs.length + 2) cs with
  | some (value, rest) => if (skipSpace rest).isEmpty then some value else none
  | none => none

end FeedIntake.Json
