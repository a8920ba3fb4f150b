/-
SqlMarkers.Token — tokens of a statement and what their position allows.

A token keeps the text it was read from, quotes and signs included, and the
span it was read at. What a literal or a quoted name stands for is decoded
separately (`SqlMarkers.Token.Value`, `SqlMarkers.Token.Name`).
-/
import SqlMarkers.Keyword
import SqlMarkers.Span
import SqlMarkers.Symbol

namespace SqlMarkers

/-- What a token is. -/
inductive Kind where
  | keyword (word : Keyword)
  /-- A name: plain, in back-quotes or in brackets. -/
  | identifier
  /-- A decimal integer, with its sign: `42`, `-5`. -/
  | integer
  /-- A decimal with a fraction, an exponent or a suffix: `12.5`, `1e3`, `2d`. -/
  | float
  /-- A hexadecimal integer: `0x1F`. -/
  | hex
  /-- A string: `'text'`, `"text"` or `N'text'`. -/
  | chars
  | symbol (mark : Symbol)
  /-- A variable: `@name` or `@@name`. -/
  | sqlVariable
  | endOfInput
deriving DecidableEq, Repr, Inhabited

namespace Kind

/-- What a message calls a token of this kind. -/
def describe : Kind → String
  | .keyword k => k.spelling
  | .identifier => "identifier"
  | .integer => "integer"
  | .hex => "integer"
  | .float => "number"
  | .chars => "string"
  | .symbol s => "'" ++ s.spelling ++ "'"
  | .sqlVariable => "variable"
  | .endOfInput => "end of input"

/-- Whether a token of this kind may name a table, a column or an alias. -/
def isName : Kind → Bool
  | .identifier => true
  | .keyword k => k.isNameLike
  | _ => false

/-- Whether a token of this kind can end an operand, so that a following `-`
is an operator and not a sign. -/
def endsOperand : Kind → Bool
  | .identifier | .integer | .float | .hex | .chars | .sqlVariable => true
  | .symbol s => s == .rightParen || s == .rightBracket || s == .question
  | .keyword k => k.isNameLike || k == .NULL || k == .TRUE || k == .FALSE || k == .END
  | .endOfInput => false

/-- Whether a single token of this kind is a complete operand. -/
def isOperand : Kind → Bool
  | .identifier | .integer | .float | .hex | .chars | .sqlVariable => true
  | .symbol s => s == .question
  | .keyword k => k.isNameLike || k.startsOperand
  | .endOfInput => false

end Kind

/-- A token of a statement. -/
structure Token where
  kind : Kind
  /-- The text as written. -/
  text : String
  span : Span
deriving DecidableEq, Repr, Inhabited

namespace Token

/-- Whether the token is this keyword. -/
def isKeyword (t : Token) (k : Keyword) : Bool := t.kind == .keyword k

/-- Whether the token is this symbol. -/
def isSymbol (t : Token) (s : Symbol) : Bool := t.kind == .symbol s

/-- Whether the token is the end of the input. -/
def isEnd (t : Token) : Bool := t.kind == .endOfInput

/-- Whether the token may name a table, a column or an alias. -/
def isName (t : Token) : Bool := t.kind.isName

/-- Whether the token is any keyword. -/
def isAnyKeyword (t : Token) : Bool :=
  match t.kind with
  | .keyword _ => true
  | _ => false

/-- Whether the token is the unquoted name `word`, in any case. -/
def isWord (t : Token) (word : String) : Bool :=
  t.kind == .identifier && Text.sameWord t.text word

/-- Whether the token is the operator `REGEXP` or `RLIKE`, which is read as a
plain name. -/
def isRegexp (t : Token) : Bool := t.isWord "REGEXP" || t.isWord "RLIKE"

/-- Whether the token is a national string, `N'text'`. -/
def isNational (t : Token) : Bool :=
  t.kind == .chars && (t.text.toList.head? == some 'N' || t.text.toList.head? == some 'n')

end Token

end SqlMarkers
