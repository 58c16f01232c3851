/-! # Letter case

Lower case as far as names made of ASCII letters are concerned.
-/

namespace FeedIntake.Text

/-- The lower-case form of a character as far as it can meet an ASCII name: besides the ASCII
capitals only the Kelvin sign has an ASCII letter as its lower case. -/
def foldChar (c : Char) : Char :=
  if c = '\u212A' then 'k' else c.toLower

def fold (s : String) : String := String.ofList (s.toList.map foldChar)

/-- Equality of a text with a lower-case ASCII word, where only ASCII capitals are folded. -/
def equalsIgnoringCase (s word : String) : Bool := s.toLower == word

end FeedIntake.Text
