/-
SqlMarkers.Lexeme — one token's text split off the front of a text.

There is one reader for each form of token: `sqlVariable`, `nationalString`,
`name`, `hexadecimal`, `number`, `string` and `operator`. None of them knows
where in a statement it stands; `Lexeme.read` looks at the first characters
and at the token before, and picks one of them.
-/
import SqlMarkers.CharClass
import SqlMarkers.Dialect
import SqlMarkers.Fault
import SqlMarkers.Token.Value

namespace SqlMarkers

/-- The text of one token and what follows it. -/
structure Lexeme where
  kind : Kind
  text : List Char
  rest : List Char
deriving DecidableEq, Repr, Inhabited

/-- Why no token can be split off, and how many bytes further on to point. -/
structure Slip where
  cause : LexicalCause
  skip : Nat
deriving DecidableEq, Repr, Inhabited

namespace Lexeme

open CharClass

/-- A slip that points at the first character. -/
def refuse (cause : LexicalCause) : Except Slip Lexeme := .error ⟨cause, 0⟩

/-! ## Quoted text -/

/-- Splits a text right after the `quote` that closes it. A doubled quote does
not close, nor does one behind a backslash where backslashes escape. -/
def close? (quote : Char) (escapes : Bool) : List Char → Option (List Char × List Char)
  | [] => none
  | [c] => if c == quote && c != '\\' && c != endMark then some ([c], []) else none
  | c :: d :: cs =>
      if c == '\\' && (escapes || quote == '\\') then
        (close? quote escapes cs).map fun (body, rest) => (c :: d :: body, rest)
      else if c == quote then
        if d == quote then (close? quote escapes cs).map fun (body, rest) => (c :: d :: body, rest)
        else some ([c], d :: cs)
      else (close? quote escapes (d :: cs)).map fun (body, rest) => (c :: body, rest)

/-- A string that starts with its quote. -/
def string (d : Dialect) : List Char → Except Slip Lexeme
  | [] => refuse .unterminatedString
  | quote :: cs =>
      match close? quote (d.features.backslashEscapes && quote != '\x60') cs with
      | some (body, rest) => .ok ⟨.chars, quote :: body, rest⟩
      | none => refuse .unterminatedString

/-- A string behind its mark `N`. An unclosed one is reported behind the mark. -/
def nationalString (d : Dialect) : List Char → Except Slip Lexeme
  | [] => .error ⟨.unterminatedString, 1⟩
  | mark :: cs =>
      match string d cs with
      | .ok l => .ok { l with text := mark :: l.text }
      | .error _ => .error ⟨.unterminatedString, 1⟩

/-! ## Names and variables -/

/-- Whether the word `BY` comes next, after any space characters. -/
def beforeBy (cs : List Char) : Bool :=
  match cs.dropWhile isSpace with
  | b :: y :: rest => b.toLower == 'b' && y.toLower == 'y' && !isWordChar (peek rest)
  | _ => false

/-- The kind of an unquoted word. `GROUP` and `ORDER` are keywords only in
front of `BY`. -/
def wordKind (d : Dialect) (word rest : List Char) : Kind :=
  match d.keyword? word with
  | some .GROUP => if beforeBy rest then .keyword .GROUP else .identifier
  | some .ORDER => if beforeBy rest then .keyword .ORDER else .identifier
  | some k => .keyword k
  | none => .identifier

/-- An unquoted word: the longest run of word characters. -/
def word (d : Dialect) (cs : List Char) : Lexeme :=
  let text := cs.takeWhile isWordChar
  let rest := cs.dropWhile isWordChar
  ⟨wordKind d text rest, text, rest⟩

/-- A name or keyword: in back-quotes, in brackets, or an unquoted word. -/
def name (d : Dialect) : List Char → Except Slip Lexeme
  | [] => .ok (word d [])
  | c :: cs =>
      if c == '\x60' || (c == '[' && d.features.bracketNames) then
        match close? (if c == '[' then ']' else c) false cs with
        | some (body, rest) => .ok ⟨.identifier, c :: body, rest⟩
        | none => refuse .unterminatedName
      else .ok (word d (c :: cs))

/-- A variable: a first character, another `@` if there is one, and a run of
word characters and points. -/
def sqlVariable : List Char → Except Slip Lexeme
  | [] => refuse .malformedVariable
  | c :: cs =>
      let marks := if peek cs == '@' then ['@'] else []
      let tail := cs.drop marks.length
      let named (x : Char) : Bool := isWordChar x || x == '.'
      let body := tail.takeWhile named
      if body.isEmpty then refuse .malformedVariable
      else .ok ⟨.sqlVariable, c :: marks ++ body, tail.dropWhile named⟩

/-! ## Numbers -/

/-- A hexadecimal integer: two characters, an optional `-` and digits. -/
def hexadecimal (cs : List Char) : Except Slip Lexeme :=
  let tail := cs.drop 2
  let sign := if peek tail == '-' then ['-'] else []
  let tail := tail.drop sign.length
  let digits := tail.takeWhile isHexDigit
  if digits.isEmpty then refuse .malformedHex
  else if (Token.hexDigits? (sign ++ digits)).isNone then refuse .hexOutOfRange
  else .ok ⟨.hex, cs.take 2 ++ sign ++ digits, tail.dropWhile isHexDigit⟩

/-- The fraction of a number: a point and the digits after it, unless a second
point follows the first. -/
def fraction : List Char → List Char
  | '.' :: cs => if peek cs == '.' then [] else '.' :: cs.takeWhile isDigit
  | _ => []

/-- The exponent of a number, if at least one digit belongs to it. -/
def exponent : List Char → List Char
  | [] => []
  | e :: cs =>
      if e == 'e' || e == 'E' then
        let sign := if peek cs == '+' || peek cs == '-' then [peek cs] else []
        let digits := (cs.drop sign.length).takeWhile isDigit
        if digits.isEmpty then [] else e :: sign ++ digits
      else []

/-- The suffix of a float, unless a word goes on after it. -/
def suffix : List Char → List Char
  | [] => []
  | c :: cs => if Token.isFloatSuffix c && !isWordChar (peek cs) then [c] else []

/-- A decimal number with an optional sign. It is a float as soon as it has a
fraction, an exponent or a suffix. -/
def number (cs : List Char) : Except Slip Lexeme :=
  let sign := if peek cs == '-' then ['-'] else []
  let cs := cs.drop sign.length
  let whole := cs.takeWhile isDigit
  let cs := cs.dropWhile isDigit
  let frac := fraction cs
  let cs := cs.drop frac.length
  let expo := exponent cs
  let cs := cs.drop expo.length
  let suff := suffix cs
  let cs := cs.drop suff.length
  let text := sign ++ whole ++ frac ++ expo ++ suff
  if frac.isEmpty && expo.isEmpty && suff.isEmpty then
    if (Token.decimal? text).isNone then refuse .integerOutOfRange
    else .ok ⟨.integer, text, cs⟩
  else .ok ⟨.float, text, cs⟩

/-! ## Operators -/

/-- The longest symbol of at most `n` characters in front of `cs`. -/
def operatorWithin (cs : List Char) : Nat → Except Slip Lexeme
  | 0 => refuse .unrecognized
  | n + 1 =>
      match Symbol.find? (cs.take (n + 1)) with
      | some s => .ok ⟨.symbol s, cs.take (n + 1), cs.drop (n + 1)⟩
      | none => operatorWithin cs n

/-- An operator or punctuation mark: the longest that fits. -/
def operator (cs : List Char) : Except Slip Lexeme := operatorWithin cs Symbol.longest

/-! ## Which form comes next -/

/-- What the text before a token tells about it. -/
structure Before where
  /-- The token before can end an operand, so that a `-` is an operator. -/
  endsOperand : Bool
  /-- A word character stands right in front, so that a `.` belongs to a name. -/
  touchesWord : Bool
deriving DecidableEq, Repr

/-- Whether a number starts here: a digit, a point and a digit that no word
touches, or a sign and a number where an operand is due. -/
def startsNumber (b : Before) (cs : List Char) : Bool :=
  let digitAt (n : Nat) : Bool := isDigit (peek (cs.drop n))
  digitAt 0 ||
    (peek cs == '.' && digitAt 1 && !b.touchesWord) ||
    (peek cs == '-' && !b.endsOperand &&
      (digitAt 1 || (peek (cs.drop 1) == '.' && digitAt 2)))

/-- Splits the next token off the front of a text that does not start with a
gap and is not empty. -/
def read (d : Dialect) (b : Before) (cs : List Char) : Except Slip Lexeme :=
  let first := peek cs
  let second := peek (cs.drop 1)
  if d.features.sqlVariables && first == '@' then sqlVariable cs
  else if d.features.nationalStrings && (first == 'N' || first == 'n') && second == '\x27' then
    nationalString d cs
  else if isWordStart first || first == '\x60' || (first == '[' && d.features.bracketNames) then
    name d cs
  else if first == '0' && (second == 'x' || second == 'X') then hexadecimal cs
  else if startsNumber b cs then number cs
  else if isSymbolStart first then operator cs
  else if first == '\x27' || first == '\x22' then string d cs
  else refuse .unrecognized

end Lexeme

end SqlMarkers
