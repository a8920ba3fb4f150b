/-
SqlMarkers.CharClass — the character classes that decide where tokens begin
and end.

Only ASCII characters are told apart; every other character may be part of
a word. The control character `endMark` stands for the end of the text:
reading past the end gives it, so it never counts as a gap.
-/
namespace SqlMarkers.CharClass

/-- What reading past the end of a text gives. -/
def endMark : Char := '\x1a'

/-- The first character of what is left of a text. -/
def peek (cs : List Char) : Char := cs.headD endMark

/-- Whether `c` lies outside ASCII. -/
def isWide (c : Char) : Bool := decide (0x80 ≤ c.toNat)

/-- Characters skipped between tokens: the control characters other than
`endMark`, the space and the delete character. -/
def isSpace (c : Char) : Bool :=
  (decide (c.toNat ≤ 0x20) && c != endMark) || c.toNat == 0x7F

/-- Decimal digits. -/
def isDigit (c : Char) : Bool := c.isDigit

/-- Hexadecimal digits of either case. -/
def isHexDigit (c : Char) : Bool :=
  c.isDigit || (decide (0x41 ≤ c.toNat) && decide (c.toNat ≤ 0x46)) ||
  (decide (0x61 ≤ c.toNat) && decide (c.toNat ≤ 0x66))

/-- Characters that may continue a word. -/
def isWordChar (c : Char) : Bool :=
  c.isAlphanum || c == '_' || c == '$' || c == '#' || isWide c

/-- Characters that may start a word. -/
def isWordStart (c : Char) : Bool :=
  c.isAlpha || c == '_' || c == '$' || isWide c

/-- Characters that may start an operator or a punctuation mark. -/
def isSymbolStart (c : Char) : Bool :=
  "()[]\x7b\x7d+-*/%^=><~!?&|.:#,;@".toList.contains c

end SqlMarkers.CharClass
