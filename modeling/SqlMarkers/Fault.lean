/-
SqlMarkers.Fault — everything that can stop the reading of a statement.

A fault is a cause at a place. Lexical faults come from text that is no
token; grammar faults from a token that does not fit. Three more outcomes
have no place: `undecodable`, a name that has no decoded form (see
`SqlMarkers.Token.Name`), and two that no statement leads to, `overflow`, a
count out of range (see `SqlMarkers.Counter`), and `stalled`, a reading loop
that made no progress.

The wording of every cause is `LexicalCause.detail` and `GrammarCause.detail`.
-/
namespace SqlMarkers

/-- Why a piece of text is no token. -/
inductive LexicalCause where
  | malformedVariable
  | malformedHex
  | hexOutOfRange
  | integerOutOfRange
  | unterminatedString
  | unterminatedName
  | unterminatedComment
  | unterminatedHint
  | unrecognized
  /-- The whole statement is longer than offsets reach. -/
  | oversized
deriving DecidableEq, Repr, Inhabited

/-- Why a token does not fit. -/
inductive GrammarCause where
  /-- Something else had to come; `found` is the text of the token, or `none`
  at the end of the input. -/
  | expected (what : String) (found : Option String)
  | unbalanced
  | nesting (limit : Nat)
  | unsupported (what : String)
  | openCase
  | topWithPaging
  | integerOutOfRange
  | malformedNumber
deriving DecidableEq, Repr, Inhabited

namespace LexicalCause

/-- The wording of a lexical cause. -/
def detail : LexicalCause → String
  | .malformedVariable => "malformed variable"
  | .malformedHex => "malformed hex literal"
  | .hexOutOfRange => "hex literal out of range"
  | .integerOutOfRange => "integer literal out of range"
  | .unterminatedString => "unterminated string literal"
  | .unterminatedName => "unterminated quoted identifier"
  | .unterminatedComment => "unterminated block comment"
  | .unterminatedHint => "unterminated hint"
  | .unrecognized => "unrecognized character"
  | .oversized => "statement exceeds 4 GiB"

end LexicalCause

namespace GrammarCause

/-- The wording of a grammar cause. -/
def detail : GrammarCause → String
  | .expected what none => "expected " ++ what ++ ", found end of input"
  | .expected what (some text) => "expected " ++ what ++ ", found '" ++ text ++ "'"
  | .unbalanced => "unbalanced parentheses: missing ')'"
  | .nesting limit => "nesting depth exceeds limit of " ++ toString limit
  | .unsupported what => "unsupported " ++ what
  | .openCase => "CASE without matching END"
  | .topWithPaging => "TOP cannot be combined with OFFSET or FETCH"
  | .integerOutOfRange => "integer literal out of range"
  | .malformedNumber => "malformed number"

end GrammarCause

/-- What stopped the reading of a statement. -/
inductive Fault where
  | lexical (offset : Nat) (cause : LexicalCause)
  | grammar (offset : Nat) (cause : GrammarCause)
  | undecodable
  | overflow
  | stalled
deriving DecidableEq, Repr, Inhabited

namespace Fault

/-- Whether a reading that was only tried may be given up because of this
fault and the same text read another way. A name without decoded form and a count out
of range end the whole reading instead. -/
def isRecoverable : Fault → Bool
  | .undecodable => false
  | .overflow => false
  | .stalled => false
  | _ => true

/-- Whether the text of the statement is at fault, and not its grammar. -/
def isLexical : Fault → Bool
  | .lexical _ _ => true
  | _ => false

end Fault

end SqlMarkers
