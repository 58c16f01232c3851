import FeedIntake.Time.Moment
import FeedIntake.Time.Stamp

/-! # Feed values

What a feed document, a configuration text or a log call can hold in one place: values of many
kinds, nested at will. Mappings keep the order in which their keys came.
-/

namespace FeedIntake

inductive Value where
  | null
  | bool (b : Bool)
  | int (n : Int)
  | float (x : Float)
  | text (s : String)
  | bytes (bs : List UInt8)
  | list (items : List Value)
  | tuple (items : List Value)
  | brokenDown (t : Time.BrokenDown)
  | moment (d : Time.DateTime)
  | dict (fields : List (String × Value))
  deriving Inhabited

abbrev Fields := List (String × Value)

namespace Fields

def has (fields : Fields) (key : String) : Bool := fields.any fun f => f.1 == key

/-- Sets a key: in its place where it is there already, else at the end. -/
def put (fields : Fields) (key : String) (value : Value) : Fields :=
  match fields with
  | [] => [(key, value)]
  | (k, v) :: rest => if k = key then (key, value) :: rest else (k, v) :: put rest key value

theorem lookup_put (fields : Fields) (key other : String) (value : Value) :
    (fields.put key value).lookup other =
      if other = key then some value else fields.lookup other := by
  induction fields with
  | nil =>
      by_cases h : other = key
      · simp [put, h]
      · simp [put, List.lookup_cons, h, beq_false_of_ne h]
  | cons f rest ih =>
      obtain ⟨k, v⟩ := f
      unfold put
      by_cases hk : k = key
      · subst hk
        by_cases h : other = k
        · simp [h]
        · simp [List.lookup_cons, h, beq_false_of_ne h]
      · rw [if_neg hk]
        by_cases h : other = k
        · subst h
          simp [hk]
        · simpa [List.lookup_cons, beq_false_of_ne h] using ih

def merge (fields above : Fields) : Fields := above.foldl (fun acc f => acc.put f.1 f.2) fields

/-- The given names that are keys, with their values, in the order of the names. -/
def pick (fields : Fields) (names : List String) : Fields :=
  names.filterMap fun name => (fields.lookup name).map (name, ·)

end Fields

namespace Value

def text? : Value → Option String
  | .text s => some s
  | _ => none

def dict? : Value → Option Fields
  | .dict fields => some fields
  | _ => none

def isNull : Value → Bool
  | .null => true
  | _ => false

/-- Null, false, nought and whatever is empty count as absent where only presence matters. -/
def isTruthy : Value → Bool
  | .null => false
  | .bool b => b
  | .int n => n != 0
  | .float x => x != 0.0
  | .text s => !s.isEmpty
  | .bytes bs => !bs.isEmpty
  | .list items => !items.isEmpty
  | .tuple items => !items.isEmpty
  | .brokenDown _ => true
  | .moment _ => true
  | .dict fields => !fields.isEmpty

def kindName : Value → String
  | .null => "NoneType"
  | .bool _ => "bool"
  | .int _ => "int"
  | .float _ => "float"
  | .text _ => "str"
  | .bytes _ => "bytes"
  | .list _ => "list"
  | .tuple _ => "tuple"
  | .brokenDown _ => "time.struct_time"
  | .moment _ => "datetime.datetime"
  | .dict _ => "dict"

/-- The whole number that a value is; truth values count as nought and one. -/
def wholeNumber? : Value → Option Int
  | .int n => some n
  | .bool b => some (if b then 1 else 0)
  | _ => none

/-- The broken-down time that a value is: one outright, or nine whole numbers in a tuple. -/
def brokenDown? : Value → Option Time.BrokenDown
  | .brokenDown t => some t
  | .tuple items => (items.mapM wholeNumber?).bind Time.BrokenDown.ofList?
  | _ => none

end Value

end FeedIntake
