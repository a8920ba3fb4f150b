/-
SqlMarkers.Symbol — operators and punctuation marks.

A symbol is known by its spelling alone; the longest spelling has three
characters. `isComposite` marks the operators after which an expression goes
on, `isComparison` those that compare two operands of a predicate.
-/
namespace SqlMarkers

/-- An operator or a punctuation mark. -/
inductive Symbol where
  | leftParen | rightParen | leftBracket | rightBracket | leftBrace | rightBrace | plus | minus
  | star | slash | percent | caret | eq | gt | lt | tilde | bang | question | amp | bar | dot
  | colon | hash | comma | semicolon | atSign | dotDot | doubleColon | colonEq | ltEq | gtEq
  | ltEqGt | ltGt | bangEq | bangGt | bangLt | ampAmp | barBar | shiftLeft | shiftRight | arrow
deriving DecidableEq, Repr, Inhabited

namespace Symbol

/-- The spelling of a symbol. -/
def spelling : Symbol → String
  | .leftParen => "("
  | .rightParen => ")"
  | .leftBracket => "["
  | .rightBracket => "]"
  | .leftBrace => "\x7b"
  | .rightBrace => "\x7d"
  | .plus => "+"
  | .minus => "-"
  | .star => "*"
  | .slash => "/"
  | .percent => "%"
  | .caret => "^"
  | .eq => "="
  | .gt => ">"
  | .lt => "<"
  | .tilde => "~"
  | .bang => "!"
  | .question => "?"
  | .amp => "&"
  | .bar => "|"
  | .dot => "."
  | .colon => ":"
  | .hash => "#"
  | .comma => ","
  | .semicolon => ";"
  | .atSign => "@"
  | .dotDot => ".."
  | .doubleColon => "::"
  | .colonEq => ":="
  | .ltEq => "<="
  | .gtEq => ">="
  | .ltEqGt => "<=>"
  | .ltGt => "<>"
  | .bangEq => "!="
  | .bangGt => "!>"
  | .bangLt => "!<"
  | .ampAmp => "&&"
  | .barBar => "||"
  | .shiftLeft => "<<"
  | .shiftRight => ">>"
  | .arrow => "->"

/-- Every symbol. -/
def all : List Symbol :=
  [.leftParen, .rightParen, .leftBracket, .rightBracket, .leftBrace, .rightBrace, .plus,
   .minus, .star, .slash, .percent, .caret, .eq, .gt, .lt, .tilde, .bang, .question, .amp,
   .bar, .dot, .colon, .hash, .comma, .semicolon, .atSign, .dotDot, .doubleColon, .colonEq,
   .ltEq, .gtEq, .ltEqGt, .ltGt, .bangEq, .bangGt, .bangLt, .ampAmp, .barBar, .shiftLeft,
   .shiftRight, .arrow]

/-- The symbol spelt exactly `text`. -/
def find? (text : List Char) : Option Symbol :=
  all.find? fun s => s.spelling.toList == text

/-- The number of characters of the longest spelling. -/
def longest : Nat := 3

/-- Operators after which a composite expression goes on. -/
def isComposite : Symbol → Bool
  | .plus | .minus | .star | .slash | .percent | .amp | .bar | .barBar | .caret | .shiftLeft
  | .shiftRight | .doubleColon | .arrow | .dot | .leftParen => true
  | _ => false

/-- Operators that compare two operands. -/
def isComparison : Symbol → Bool
  | .eq | .gt | .lt | .ltEq | .gtEq | .ltEqGt | .ltGt | .bangEq | .bangGt | .bangLt => true
  | _ => false

end Symbol

end SqlMarkers
