import FeedIntake.Fault

/-! # Feed entries

An entry is a mapping as a document reader delivers it. Two rules of look-up occur. A plain entry
answers a key from the field of that name. A derived entry, as document readers make them, answers
some keys from other fields: enclosures are found among the links, an update date falls back on the
publication date, and a description may stand in the summary.
-/

namespace FeedIntake

inductive Lookup where
  | plain
  | derived
  deriving DecidableEq, Repr, Inhabited

structure Entry where
  lookup : Lookup
  value : Value
  deriving Inhabited

namespace Entry

/-- The elements that a walk over a value meets; what has none cannot be walked over. -/
def elements : Value → Except Fault (List Value)
  | .list items => .ok items
  | .tuple items => .ok items
  | .text s => .ok (s.toList.map fun c => .text (String.ofList [c]))
  | .bytes bs => .ok (bs.map fun b => .int b.toNat)
  | .brokenDown t => .ok (t.toList.map .int)
  | .dict fields => .ok (fields.map fun f => .text f.1)
  | v => .error (.outside .wrongType s!"'{v.kindName}' object is not iterable")

def notAMapping (v : Value) : Fault :=
  .outside .wrongType (match v with
    | .text _ => "string indices must be integers, not 'str'"
    | .list _ => "list indices must be integers or slices, not str"
    | .tuple _ | .brokenDown _ => "tuple indices must be integers or slices, not str"
    | .bytes _ => "byte indices must be integers or slices, not str"
    | v => s!"'{v.kindName}' object is not subscriptable")

/-- The links whose relation is that of an enclosure, without the relation. A link that has no
relation makes the whole answer absent. -/
def enclosuresAmong : List Value → Except Fault (Option (List Value))
  | [] => .ok (some [])
  | .dict fields :: rest =>
      match fields.lookup "rel" with
      | none => .ok none
      | some rel => do
          let found ← enclosuresAmong rest
          if rel.text? = some "enclosure" then
            pure (found.map fun items => .dict (fields.filter fun f => f.1 != "rel") :: items)
          else pure found
  | v :: _ => .error (notAMapping v)

def firstOf (fields : Fields) (keys : List String) : Option Value :=
  keys.findSome? fun key => fields.lookup key

def derivedFind (fields : Fields) (key : String) : Except Fault (Option Value) :=
  if key = "enclosures" then
    match fields.lookup "links" with
    | none => .ok none
    | some links => do
        let items ← elements links
        let found ← enclosuresAmong items
        pure (found.map .list)
  else if key = "updated" then .ok (firstOf fields ["updated", "published"])
  else if key = "updated_parsed" then .ok (firstOf fields ["updated_parsed", "published_parsed"])
  else if key = "description" then .ok (firstOf fields ["summary", "subtitle", "description"])
  else .ok (fields.lookup key)

/-- The value that an entry gives for a key. Only a mapping has keys. -/
def find? (e : Entry) (key : String) : Except Fault (Option Value) :=
  match e.value with
  | .dict fields =>
      match e.lookup with
      | .plain => .ok (fields.lookup key)
      | .derived => derivedFind fields key
  | v => .error (.missingAttribute v "get")

end Entry

end FeedIntake
