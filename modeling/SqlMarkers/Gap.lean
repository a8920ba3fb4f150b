/-
SqlMarkers.Gap — the text between tokens.

A gap is any mix of space characters, line comments (`--`, `//`, and `#` in
a dialect that has it) up to and including their line end, block comments,
and hints in a dialect that has them. A line comment may also run to the end
of the text; a block comment or hint must be closed.

`Gap.skip` steps over the longest gap at the front of a text. An unclosed
`/*!` is called a hint as long as no comment came before it in the same gap,
and a block comment after that. A second try starts at the unclosed block
itself, so it calls such a block a hint whatever came before.
-/
import SqlMarkers.CharClass
import SqlMarkers.Dialect
import SqlMarkers.Fault
import SqlMarkers.Text

namespace SqlMarkers.Gap

/-- A gap stepped over, or the comment that is not closed. -/
inductive Outcome where
  /-- The gap is `skipped` bytes wide, and `rest` follows it. -/
  | passed (skipped : Nat) (rest : List Char)
  /-- The block that starts `skipped` bytes into the gap has no end. `again` is
  the cause when the gap is taken to start at that block. -/
  | unclosed (skipped : Nat) (cause again : LexicalCause)
deriving DecidableEq, Repr

/-- What a block without end is called. `hint` tells whether it is marked as a
hint, `commented` whether a comment came before it in the gap. -/
def blockCause (hint commented : Bool) : LexicalCause :=
  if hint && !commented then .unterminatedHint else .unterminatedComment

mutual

/-- Steps over a gap. `n` bytes of it are done, and `commented` tells whether
they hold a comment. -/
def between (d : Dialect) (commented : Bool) (n : Nat) : List Char → Outcome
  | [] => .passed n []
  | [c] =>
      if CharClass.isSpace c || (c == '#' && d.features.hashComments) then
        .passed (n + 1) []
      else .passed n [c]
  | a :: b :: cs =>
      if CharClass.isSpace a then between d commented (n + 1) (b :: cs)
      else if a == '#' && d.features.hashComments then inLine d (n + 1) (b :: cs)
      else if (a == '-' && b == '-') || (a == '/' && b == '/') then inLine d (n + 2) cs
      else if a == '/' && b == '*' then
        inBlock d (d.features.hints && CharClass.peek cs == '!') commented n (n + 2) cs
      else .passed n (a :: b :: cs)

/-- Steps over the rest of a line comment. -/
def inLine (d : Dialect) (n : Nat) : List Char → Outcome
  | [] => .passed n []
  | c :: cs =>
      if c == '\n' then between d true (n + 1) cs else inLine d (n + c.utf8Size) cs

/-- Steps over the rest of the block that starts at `start`. A hint behind a
comment counts as a comment itself. -/
def inBlock (d : Dialect) (hint commented : Bool) (start n : Nat) : List Char → Outcome
  | [] => .unclosed start (blockCause hint commented) (blockCause hint false)
  | [_] => .unclosed start (blockCause hint commented) (blockCause hint false)
  | a :: b :: cs =>
      if a == '*' && b == '/' then between d (commented || !hint) (n + 2) cs
      else inBlock d hint commented start (n + a.utf8Size) (b :: cs)

end

/-- Steps over the longest gap at the front of `cs`. -/
def skip (d : Dialect) (cs : List Char) : Outcome := between d false 0 cs

/-! ## Single pieces of a gap -/

/-- The number of bytes of space characters in front of `cs`. -/
def spaces (cs : List Char) : Nat := Text.width (cs.takeWhile CharClass.isSpace)

/-- Whether a comment starts here. -/
def startsComment (d : Dialect) : List Char → Bool
  | a :: b :: _ =>
      (a == '-' && b == '-') || (a == '/' && b == '/') || (a == '/' && b == '*') ||
        (a == '#' && d.features.hashComments)
  | [a] => a == '#' && d.features.hashComments
  | [] => false

/-- Whether a hint starts here. -/
def startsHint (d : Dialect) (cs : List Char) : Bool :=
  d.features.hints && "/*!".toList.isPrefixOf cs

/-- The bytes up to and including the end of a block, whose first two
characters are gone. -/
def blockWidth? : List Char → Option Nat
  | [] => none
  | [_] => none
  | a :: b :: cs =>
      if a == '*' && b == '/' then some 2 else (blockWidth? (b :: cs)).map (· + a.utf8Size)

/-- The bytes of a line comment, its line end included. -/
def lineWidth : List Char → Nat
  | [] => 0
  | c :: cs => if c == '\n' then 1 else c.utf8Size + lineWidth cs

/-- The bytes of the comment that starts here. -/
def commentWidth (cs : List Char) : Except LexicalCause Nat :=
  if "/*".toList.isPrefixOf cs then
    match blockWidth? (cs.drop 2) with
    | some n => .ok (n + 2)
    | none => .error .unterminatedComment
  else .ok (lineWidth cs)

/-- The bytes of the hint that starts here. -/
def hintWidth (cs : List Char) : Except LexicalCause Nat :=
  match blockWidth? (cs.drop 2) with
  | some n => .ok (n + 2)
  | none => .error .unterminatedHint

end SqlMarkers.Gap
