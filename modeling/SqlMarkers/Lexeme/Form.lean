/-
SqlMarkers.Lexeme.Form — one form of token, asked for at any byte offset.

The readers of `SqlMarkers.Lexeme` tell ASCII characters apart and take all
others alike. So they read the bytes of a text as well as its characters,
once each byte is taken as the character of its number, and then they can
start inside a character, or end inside one. What they found is cut out of
the text afterwards, and the cut fails unless both its ends are character
boundaries.

An offset past the end finds nothing to read. Offsets are counted in 64
bits, so a form that steps over the last of them finds the front of the text.
-/
import SqlMarkers.Error
import SqlMarkers.Lexeme

namespace SqlMarkers

/-- The forms of token. -/
inductive Form where
  | sqlVariable | nationalString | name | hexadecimal | number | string | operator
deriving DecidableEq, Repr, Inhabited

namespace Form

/-- Splits a token of this form off the front of a text. -/
def split (d : Dialect) (cs : List Char) : Form → Except Slip Lexeme
  | .sqlVariable => Lexeme.sqlVariable cs
  | .nationalString => Lexeme.nationalString d cs
  | .name => Lexeme.name d cs
  | .hexadecimal => Lexeme.hexadecimal cs
  | .number => Lexeme.number cs
  | .string => Lexeme.string d cs
  | .operator => Lexeme.operator cs

/-- The number of offsets. -/
def offsetCount : Nat := 18446744073709551616

/-- The number of bytes a form steps over before it reads on: the mark of a
variable, an opening quote, a mark and an opening quote, or the two characters
in front of hexadecimal digits. It steps over them whatever they are. -/
def lead : Form → Nat
  | .sqlVariable | .string => 1
  | .nationalString | .hexadecimal => 2
  | .name | .number | .operator => 0

/-- The bytes a form finds in a text from an offset on. Past the end there are
none, unless the step over the lead goes beyond the last offset: then what
follows the last offset is the front of the text. -/
def bytesFrom (f : Form) (source : List Char) (offset : Nat) : List Char :=
  if offsetCount ≤ offset + f.lead then
    List.replicate (offsetCount - offset) CharClass.endMark ++ Text.bytes source
  else (Text.bytes source).drop offset

/-- Whether the text is cut out before this cause is found: a number is cut out
first, and its range is looked at then. -/
def followsCut : LexicalCause → Bool
  | .hexOutOfRange | .integerOutOfRange => true
  | _ => false

/-- Reads a token of this form at a byte offset of `source`. -/
def readAt (f : Form) (d : Dialect) (source : List Char) (offset : Nat) : Except Failure Token :=
  match f.split d (f.bytesFrom source offset) with
  | .ok l =>
      let span : Span := ⟨offset, offset + l.text.length⟩
      match span.slice? source with
      | some text => .ok ⟨l.kind, String.ofList text, span⟩
      | none => .error .undecodable
  | .error slip =>
      if followsCut slip.cause && (Text.dropWidth? offset source).isNone then
        .error .undecodable
      else
        .error (.error (Error.locate .lexical source ((offset + slip.skip) % offsetCount)
          slip.cause.detail))

end Form

end SqlMarkers
