import FeedIntake.Decimal.Scientific
import FeedIntake.Fault

/-! # Message templates

A log message may be a template with places for arguments, marked by a percent sign. A place says
how its argument is written; an argument that cannot be written so is a fault, as is a template with
too few or too many places.
-/

namespace FeedIntake.Log

open Decimal (natural padLeft)

inductive Measure where
  | written (n : Nat)
  | argument

inductive Key where
  | closed (name : String)
  | unclosed

structure Directive where
  key : Option Key
  flags : List Char
  width : Option Measure
  precision : Option Measure
  /-- How the argument is written, unless the template ends before that is said. -/
  form : Option Char
  position : Nat

inductive Segment where
  | plain (c : Char)
  | directive (d : Directive)

def flagChars : List Char := ['-', '+', ' ', '#', '0']

def lengthMarks : List Char := ['h', 'l', 'L']

def readMeasure : List Char → Option Measure × List Char
  | '*' :: rest => (some .argument, rest)
  | cs =>
      let digits := cs.takeWhile Decimal.isDigit
      if digits.isEmpty then (none, cs)
      else (some (.written (Decimal.valueOf digits 0)), cs.dropWhile Decimal.isDigit)

def readPrecision : List Char → Option Measure × List Char
  | '.' :: rest =>
      match readMeasure rest with
      | (some m, rest) => (some m, rest)
      | (none, rest) => (some (.written 0), rest)
  | cs => (none, cs)

def readKey : Nat → List Char → Option (List Char × List Char)
  | _, [] => none
  | depth, c :: rest =>
      if c = ')' then
        if depth = 0 then some ([], rest)
        else (readKey (depth - 1) rest).map fun r => (c :: r.1, r.2)
      else
        (readKey (if c = '(' then depth + 1 else depth) rest).map fun r => (c :: r.1, r.2)

/-- Reads what follows the key of a directive. -/
def readForm (size : Nat) (key : Option Key) (cs : List Char) : Directive × List Char :=
  let flags := cs.takeWhile flagChars.contains
  let (width, cs) := readMeasure (cs.dropWhile flagChars.contains)
  let (precision, cs) := readPrecision cs
  let cs := match cs with
    | c :: rest => if lengthMarks.contains c then rest else cs
    | [] => []
  (⟨key, flags, width, precision, cs.head?, size - cs.length⟩, cs.tail)

def readDirective (size : Nat) (cs : List Char) : Directive × List Char :=
  match cs with
  | '(' :: rest =>
      match readKey 0 rest with
      | some (key, rest) => readForm size (some (.closed (String.ofList key))) rest
      | none => (⟨some .unclosed, [], none, none, none, size⟩, [])
  | cs => readForm size none cs

def segmentsFrom (size : Nat) : Nat → List Char → List Segment
  | 0, _ => []
  | _ + 1, [] => []
  | fuel + 1, '%' :: cs =>
      let (directive, rest) := readDirective size cs
      .directive directive :: segmentsFrom size fuel rest
  | fuel + 1, c :: cs => .plain c :: segmentsFrom size fuel cs

def segments (cs : List Char) : List Segment := segmentsFrom cs.length cs.length cs

/-! ## Writing one argument -/

/-- A directive whose measures are known. -/
structure Layout where
  flags : List Char
  width : Nat
  precision : Option Nat
  form : Char

namespace Layout

def has (l : Layout) (flag : Char) : Bool := l.flags.contains flag

def wrongType (text : String) : Fault := .outside .wrongType text

def pad (l : Layout) (cs : List Char) : List Char :=
  if l.has '-' then cs ++ List.replicate (l.width - cs.length) ' ' else padLeft l.width ' ' cs

/-- Fills a number, whose noughts go between its sign and its digits. -/
def padNumber (l : Layout) (sign digits : List Char) : List Char :=
  if l.has '0' && !l.has '-' then sign ++ padLeft (l.width - sign.length) '0' digits
  else l.pad (sign ++ digits)

def signOf (l : Layout) (negative : Bool) : List Char :=
  if negative then ['-'] else if l.has '+' then ['+'] else if l.has ' ' then [' '] else []

def writeText (l : Layout) (s : String) : List Char :=
  l.pad (match l.precision with
    | some n => s.toList.take n
    | none => s.toList)

def asciiOnly (s : String) : String :=
  String.ofList <| s.toList.flatMap fun c =>
    if c.toNat < 0x80 then [c]
    else if c.toNat < 0x100 then '\\' :: 'x' :: Text.hexDigits 2 c.toNat
    else if c.toNat < 0x10000 then '\\' :: 'u' :: Text.hexDigits 4 c.toNat
    else '\\' :: 'U' :: Text.hexDigits 8 c.toNat

def inBase (base : Nat) (n : Nat) : List Char := Nat.toDigits base n

def writeWhole (l : Layout) (base : Nat) (mark : List Char) (n : Int) : List Char :=
  let digits := padLeft (l.precision.getD 0) '0' (inBase base n.natAbs)
  let digits := if l.form = 'X' then digits.map Char.toUpper else digits
  l.padNumber (l.signOf (n < 0) ++ (if l.has '#' then mark else [])) digits

def truncated (x : Float) : Except Fault Int :=
  match Decimal.Binary64.ofFloat x with
  | .finite negative m e =>
      let r := Decimal.Ratio.ofBinary m e
      let n : Int := (r.num / r.den : Nat)
      .ok (if negative then -n else n)
  | .infinite _ => .error (.outside .overflow "cannot convert float infinity to integer")
  | .notANumber => .error (.outside .value "cannot convert float NaN to integer")

def decimal (l : Layout) (v : Value) : Except Fault (List Char) :=
  match v.wholeNumber?, v with
  | some n, _ => if Decimal.isWritable n then .ok (l.writeWhole 10 [] n) else .error .tooLong
  | none, .float x => (truncated x).map (l.writeWhole 10 [])
  | none, v => .error (wrongType s!"%{l.form} format: a real number is required, not {v.kindName}")

def otherBase (l : Layout) (base : Nat) (mark : List Char) (v : Value) :
    Except Fault (List Char) :=
  match v.wholeNumber? with
  | some n => .ok (l.writeWhole base mark n)
  | none => .error (wrongType s!"%{l.form} format: an integer is required, not {v.kindName}")

def realOf (v : Value) : Except Fault Float :=
  match v.wholeNumber?, v with
  | some n, _ =>
      let x := Decimal.floatOfScaled n 0
      if x.isInf then .error (.outside .overflow "int too large to convert to float") else .ok x
  | none, .float x => .ok x
  | none, v => .error (wrongType s!"must be real number, not {v.kindName}")

def realDigits (l : Layout) (r : Decimal.Ratio) : List Char :=
  let places := l.precision.getD 6
  let letter := if l.form.isUpper then 'E' else 'e'
  match l.form.toLower with
  | 'e' => Decimal.scientificDigits r places letter (l.has '#')
  | 'g' => Decimal.generalDigits r places letter (l.has '#')
  | _ => Decimal.fixedDigits r places ++ (if places = 0 && l.has '#' then ['.'] else [])

def writeReal (l : Layout) (x : Float) : List Char :=
  let cased (cs : List Char) := if l.form.isUpper then cs.map Char.toUpper else cs
  match Decimal.Binary64.ofFloat x with
  | .notANumber => l.padNumber (l.signOf false) (cased "nan".toList)
  | .infinite negative => l.padNumber (l.signOf negative) (cased "inf".toList)
  | .finite negative m e =>
      l.padNumber (l.signOf negative) (l.realDigits (Decimal.Ratio.ofBinary m e))

def character (l : Layout) (v : Value) : Except Fault (List Char) :=
  match v, v.wholeNumber? with
  | .text s, _ =>
      match s.toList with
      | [c] => .ok (l.pad [c])
      | _ => .error (wrongType "%c requires int or char")
  | _, some n =>
      if 0 ≤ n ∧ n < 0x110000 then .ok (l.pad [Char.ofNat n.toNat])
      else .error (.outside .overflow "%c arg not in range(0x110000)")
  | _, none => .error (wrongType "%c requires int or char")

def unsupported (form : Char) (position : Nat) : Fault :=
  let code := String.ofList (inBase 16 form.toNat)
  .outside .value s!"unsupported format character '{form}' (0x{code}) at index {position}"

def isWhole (form : Char) : Bool := ['d', 'i', 'u'].contains form

def isReal (form : Char) : Bool := ['e', 'E', 'f', 'F', 'g', 'G'].contains form

def write (l : Layout) (position : Nat) (v : Value) : Except Fault (List Char) :=
  if isWhole l.form then l.decimal v
  else if isReal l.form then (realOf v).map l.writeReal
  else
    match l.form with
    | 's' => (v.write Value.display).map l.writeText
    | 'r' => (v.write Value.literal).map l.writeText
    | 'a' => (v.write Value.literal).map fun s => l.writeText (asciiOnly s)
    | 'o' => l.otherBase 8 ['0', 'o'] v
    | 'x' => l.otherBase 16 ['0', 'x'] v
    | 'X' => l.otherBase 16 ['0', 'X'] v
    | 'c' => l.character v
    | form => .error (unsupported form position)

end Layout

/-! ## Filling a template -/

/-- The arguments that are left, and the mapping in which keys are looked up, if there is one. -/
structure Arguments where
  left : List Value
  mapping : Option Fields

/-- A single argument that is a mapping with something in it is one whose keys can be used. -/
def Arguments.of : List Value → Arguments
  | [.dict fields] => ⟨[.dict fields], if fields.isEmpty then none else some fields⟩
  | items => ⟨items, none⟩

namespace Arguments

def next (a : Arguments) : Except Fault (Value × Arguments) :=
  match a.left with
  | [] => .error (Layout.wrongType "not enough arguments for format string")
  | v :: rest => .ok (v, { a with left := rest })

/-- Makes the value under a key the next argument. -/
def select (a : Arguments) (key : Option Key) : Except Fault Arguments :=
  match key, a.mapping with
  | none, _ => .ok a
  | some _, none => .error (Layout.wrongType "format requires a mapping")
  | some .unclosed, some _ => .error (.outside .value "incomplete format key")
  | some (.closed name), some fields =>
      match fields.lookup name with
      | some v => .ok { a with left := [v] }
      | none => .error (.missingKey name)

/-- How large a measure may be, and what it is called if it is larger. -/
structure MeasureLimit where
  greatest : Nat
  name : String
  word : String

def widthLimit : MeasureLimit := ⟨9223372036854775807, "width", "C ssize_t"⟩

def precisionLimit : MeasureLimit := ⟨2147483647, "precision", "C int"⟩

def measure (a : Arguments) (limit : MeasureLimit) (m : Option Measure) :
    Except Fault (Option Int × Arguments) :=
  match m with
  | none => .ok (none, a)
  | some (.written n) =>
      if limit.greatest < n then .error (.outside .value (limit.name ++ " too big"))
      else .ok (some n, a)
  | some .argument => do
      let (v, a) ← a.next
      match v.wholeNumber? with
      | some n =>
          if limit.greatest < n.natAbs then
            throw (.outside .overflow ("Python int too large to convert to " ++ limit.word))
          return (some n, a)
      | none => throw (Layout.wrongType "* wants int")

/-- Fills one place. A doubled percent sign is one, and takes no argument. -/
def fill (a : Arguments) (d : Directive) : Except Fault (List Char × Arguments) := do
  let a ← a.select d.key
  let (width, a) ← a.measure widthLimit d.width
  let (precision, a) ← a.measure precisionLimit d.precision
  match d.form with
  | none => throw (.outside .value "incomplete format")
  | some '%' => return (['%'], a)
  | some form =>
      let (v, a) ← a.next
      let width := width.getD 0
      let flags := if width < 0 then '-' :: d.flags else d.flags
      let layout : Layout := ⟨flags, width.natAbs, precision.map Int.toNat, form⟩
      return (← layout.write d.position v, a)

def fillAll (a : Arguments) : List Segment → Except Fault (List Char × Arguments)
  | [] => .ok ([], a)
  | .plain c :: rest => do
      let (cs, a) ← a.fillAll rest
      return (c :: cs, a)
  | .directive d :: rest => do
      let (filled, a) ← a.fill d
      let (cs, a) ← a.fillAll rest
      return (filled ++ cs, a)

end Arguments

/-- The message that a template and its arguments make. Without arguments the template is the
message, percent signs and all. -/
def fillTemplate (template : String) (arguments : List Value) : Except Fault String :=
  if arguments.isEmpty then .ok template
  else do
    let (cs, left) ← (Arguments.of arguments).fillAll (segments template.toList)
    if left.mapping.isNone && !left.left.isEmpty then
      throw (Layout.wrongType "not all arguments converted during string formatting")
    return String.ofList cs

end FeedIntake.Log
