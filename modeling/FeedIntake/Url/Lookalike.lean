import FeedIntake.Text.Blank

/-! # Lookalikes of delimiters

Some characters turn into a delimiter of URLs when text is brought into compatibility form. A host
with one of them would then be read as another host, so an authority must not hold any.
-/

namespace FeedIntake.Url

/-- The code points whose compatibility form has a slash, question mark, hash, at sign or colon,
themselves not counted, as of version 14 of the standard. -/
def lookalikeRanges : List (Nat × Nat) :=
  [(0x2047, 0x2049), (0x2100, 0x2101), (0x2105, 0x2106), (0x2A74, 0x2A74), (0xFE13, 0xFE13),
    (0xFE16, 0xFE16), (0xFE55, 0xFE56), (0xFE5F, 0xFE5F), (0xFE6B, 0xFE6B), (0xFF03, 0xFF03),
    (0xFF0F, 0xFF0F), (0xFF1A, 0xFF1A), (0xFF1F, 0xFF20)]

def isLookalike (c : Char) : Bool := Text.inRanges lookalikeRanges c.toNat

end FeedIntake.Url
