import FeedIntake.Text.Case
import FeedIntake.Value.JsonReader

/-! # Environments

Variables that hold settings. A variable is named for a section or for a setting of a section, in
letters of either case. A section given whole is a JSON text; settings given one by one go over it.
-/

namespace FeedIntake

abbrev Environment := List (String × String)

namespace Environment

/-- What the names of all variables start with, in lower case. -/
def stem : String := "feedstream_"

/-- The variables under their names in lower case; of two with one name the later counts. -/
def byName (env : Environment) : Fields :=
  env.foldl (fun acc v => acc.put (Text.fold v.1) (.text v.2)) []

/-- The parts of a name between double low lines. -/
def nameParts : List Char → List (List Char)
  | [] => [[]]
  | '_' :: '_' :: rest => [] :: nameParts rest
  | c :: rest =>
      match nameParts rest with
      | [] => [[c]]
      | part :: others => (c :: part) :: others

def after? : List Char → List Char → Option (List Char)
  | [], cs => some cs
  | s :: start, c :: cs => if s = c then after? start cs else none
  | _ :: _, [] => none

/-- Enters one setting of a section. A name with further parts makes the setting a mapping, unless
it is there already. -/
def enter (section_ : Fields) (parts : List (List Char)) (value : Value) : Fields :=
  match parts with
  | [] => section_
  | [name] => Fields.put section_ (String.ofList name) value
  | name :: _ =>
      let name := String.ofList name
      if Fields.has section_ name then section_ else Fields.put section_ name (.dict [])

def nested (vars : Fields) (name : String) : Fields :=
  let start := (stem ++ name ++ "__").toList
  vars.foldl (fun acc v =>
    match after? start v.1.toList with
    | some rest => enter acc (nameParts rest) v.2
    | none => acc) []

/-- Names inside a section are known in either case. -/
def foldNames (fields : Fields) : Fields :=
  fields.foldl (fun acc f => acc.put (Text.fold f.1) f.2) []

/-- What the environment gives for a section or a list, if anything; an error where a text is no
JSON. -/
def structured? (vars : Fields) (name : String) : Except Unit (Option Value) :=
  let own := nested vars name
  match (vars.lookup (stem ++ name)).bind Value.text? with
  | none => .ok (if own.isEmpty then none else some (.dict (foldNames own)))
  | some s =>
      match Json.read? s with
      | none => .error ()
      | some .null => .ok none
      | some (.dict fields) => .ok (some (.dict (foldNames (Fields.merge fields own))))
      | some v => .ok (some v)

def plain? (vars : Fields) (name : String) : Option Value := vars.lookup (stem ++ name)

end Environment

end FeedIntake
