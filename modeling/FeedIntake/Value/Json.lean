import FeedIntake.Value.Literal

/-! # JSON text of values

Members and items are separated by a comma and a blank, keys end in a colon and a blank. Characters
above ASCII are written as they are. What JSON has no form for is written as its display text. As
with the other forms, the text is given only for values that can be written.
-/

namespace FeedIntake.Value

open Text (hexDigits)

/-- Quote, backslash and the characters below the blank are escaped, all others are not. -/
def jsonEscape (c : Char) : List Char :=
  if c = '"' then ['\\', '"']
  else if c = '\\' then ['\\', '\\']
  else if c = '\n' then ['\\', 'n']
  else if c = '\r' then ['\\', 'r']
  else if c = '\t' then ['\\', 't']
  else if c = '\x08' then ['\\', 'b']
  else if c = '\x0c' then ['\\', 'f']
  else if c.toNat < 0x20 then '\\' :: 'u' :: hexDigits 4 c.toNat
  else [c]

def jsonStringChars (cs : List Char) : List Char := '"' :: cs.flatMap jsonEscape ++ ['"']

def jsonString (s : String) : String := String.ofList (jsonStringChars s.toList)

mutual

def json : Value → String
  | .null => "null"
  | .bool b => if b then "true" else "false"
  | .int n => String.ofList (Decimal.integer n)
  | .float x => Decimal.Layout.json.text x
  | .text s => jsonString s
  | .bytes bs => jsonString (Text.quotedBytes bs)
  | .list items => "[" ++ commaSeparated (jsonItems items) ++ "]"
  | .tuple items => "[" ++ commaSeparated (jsonItems items) ++ "]"
  | .brokenDown t => "[" ++ commaSeparated (t.toList.map (s!"{·}")) ++ "]"
  | .moment d => jsonString d.plainText
  | .dict fields => "\x7b" ++ commaSeparated (jsonMembers fields) ++ "\x7d"

def jsonItems : List Value → List String
  | [] => []
  | item :: rest => json item :: jsonItems rest

def jsonMembers : List (String × Value) → List String
  | [] => []
  | (key, value) :: rest => (jsonString key ++ ": " ++ json value) :: jsonMembers rest

end

end FeedIntake.Value
