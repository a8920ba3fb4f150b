/-
SqlMarkers.Text.Blank — blank characters and trimming.

A character is blank when it has the Unicode property `White_Space`: the
25 characters listed by `isBlank`. This is wider than the gaps between
tokens, where only ASCII characters count, so a kept piece of source text
can lose a leading or trailing character that is part of a name.
-/
namespace SqlMarkers.Text

/-- The Unicode property `White_Space`. -/
def isBlank (c : Char) : Bool :=
  (0x09 ≤ c.toNat && c.toNat ≤ 0x0D) || c.toNat == 0x20 || c.toNat == 0x85 ||
  c.toNat == 0xA0 || c.toNat == 0x1680 || (0x2000 ≤ c.toNat && c.toNat ≤ 0x200A) ||
  c.toNat == 0x2028 || c.toNat == 0x2029 || c.toNat == 0x202F || c.toNat == 0x205F ||
  c.toNat == 0x3000

/-- `cs` without the blanks at either end. -/
def trim (cs : List Char) : List Char :=
  ((cs.dropWhile isBlank).reverse.dropWhile isBlank).reverse

end SqlMarkers.Text
