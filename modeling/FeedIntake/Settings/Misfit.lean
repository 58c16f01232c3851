/-! # Misfits

What is wrong with one setting. Settings are read as a whole, so that every misfit among them is
told at once.
-/

namespace FeedIntake

inductive MisfitKind where
  | noWholeNumber
  | unreadableNumber
  | oversizedNumber
  | fraction
  | notFinite
  | tooSmall
  | tooLarge
  | noTruthValue
  | unreadableTruthValue
  | noText
  | emptyText
  | noList
  | noSection
  | unknownLevel
  | noMoment
  | unreadableMoment
  | momentOutOfRange
  | rejected (why : String)
  | unknownSetting
  deriving DecidableEq, Repr

namespace MisfitKind

def name : MisfitKind → String
  | noWholeNumber => "int_type"
  | unreadableNumber => "int_parsing"
  | oversizedNumber => "int_parsing_size"
  | fraction => "int_from_float"
  | notFinite => "finite_number"
  | tooSmall => "greater_than_equal"
  | tooLarge => "less_than_equal"
  | noTruthValue => "bool_type"
  | unreadableTruthValue => "bool_parsing"
  | noText => "string_type"
  | emptyText => "string_too_short"
  | noList => "list_type"
  | noSection => "model_type"
  | unknownLevel => "enum"
  | noMoment => "datetime_type"
  | unreadableMoment => "datetime_from_date_parsing"
  | momentOutOfRange => "datetime_parsing"
  | rejected _ => "value_error"
  | unknownSetting => "extra_forbidden"

/-- The words of a misfit that was found by a rule of this library. -/
def words? : MisfitKind → Option String
  | rejected why => some ("Value error, " ++ why)
  | _ => none

end MisfitKind

inductive PlaceStep where
  | name (s : String)
  | position (n : Nat)
  deriving DecidableEq, Repr

structure Misfit where
  place : List PlaceStep
  kind : MisfitKind
  deriving DecidableEq, Repr

namespace Misfit

def PlaceStep.text : PlaceStep → String
  | .name s => s
  | .position n => toString n

def text (m : Misfit) : String :=
  ".".intercalate (m.place.map PlaceStep.text) ++ ": " ++ m.kind.words?.getD m.kind.name

end Misfit

end FeedIntake
