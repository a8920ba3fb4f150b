/-
SqlMarkers.Cursor — a place in the tokens of a statement.

A cursor stands on its current token. It can look further ahead, require or
skip tokens, and step over a balanced pair of parentheses. Moving past the
last token before a lexical fault fails with that fault and leaves the cursor
on its token, but in front of the faulty piece, so further tries meet the
fault as `LexicalFault.repeated`. Moving past the end of the input stays
there.

Every operation is an `EStateM` step on the cursor, so what a failed
operation leaves behind is part of its meaning.
-/
import SqlMarkers.Counter
import SqlMarkers.Loop
import SqlMarkers.TokenStream

namespace SqlMarkers

/-- A place in the tokens of a statement. -/
structure Cursor where
  current : Token
  /-- The tokens after the current one. -/
  ahead : List Token
  /-- The lexical fault behind the last token, if there is one. -/
  failure : Option LexicalFault
  /-- Where the token consumed last ends. -/
  lastEnd : Nat
deriving DecidableEq, Repr, Inhabited

/-- A balanced pair of parentheses that was stepped over. -/
structure Skipped where
  /-- From the opening to the closing parenthesis. -/
  span : Span
  /-- The number of `?` between them. -/
  placeholders : Nat
deriving DecidableEq, Repr, Inhabited

namespace Cursor

/-- The cursor on the first token of a stream. -/
def ofStream : TokenStream → Except Fault Cursor
  | ⟨t :: ts, failure⟩ => .ok ⟨t, ts, failure, 0⟩
  | ⟨[], some f⟩ => .error f.toFault
  | ⟨[], none⟩ => .error .stalled

/-- The cursor on the first token of a statement. -/
def ofText (d : Dialect) (source : List Char) : Except Fault Cursor :=
  ofStream (TokenStream.ofText d source)

/-- A step on a cursor. -/
abbrev Action (α : Type) := EStateM Fault Cursor α

/-- Consumes the current token. -/
def next : Action Unit := fun c =>
  let c := { c with lastEnd := c.current.span.stop }
  match c.ahead, c.failure with
  | t :: ts, _ => .ok () { c with current := t, ahead := ts }
  | [], some f => .error f.toFault { c with failure := some f.repeated }
  | [], none => .ok () c

/-- The token `n` places ahead. Beyond the end of the input that is the end of
the input, and beyond a lexical fault it is the fault. -/
def lookAhead (c : Cursor) (n : Nat) : Except Fault Token :=
  match (c.current :: c.ahead)[n]?, c.failure with
  | some t, _ => .ok t
  | none, some f => .error f.toFault
  | none, none => .ok (c.ahead.getLastD c.current)

/-- The token `n` places ahead; the cursor does not move. -/
def peekNth (n : Nat) : Action Token := fun c =>
  match c.lookAhead n with
  | .ok t => .ok t c
  | .error f => .error f c

/-- The token after the current one. -/
def peek : Action Token := peekNth 1

/-- Whether the current token is of one of these kinds. -/
def isOneOf (c : Cursor) (kinds : List Kind) : Bool := kinds.contains c.current.kind

/-- A fault at the current token. -/
def fault (c : Cursor) (cause : GrammarCause) : Fault := .grammar c.current.span.start cause

/-- The fault that `what` had to come instead of the current token. -/
def unexpected (c : Cursor) (what : String) : Fault :=
  c.fault (.expected what (if c.current.isEnd then none else some c.current.text))

/-- Fails because `what` had to come. -/
def failExpected {α : Type} (what : String) : Action α := fun c => .error (c.unexpected what) c

/-- Consumes the current token if it is of one of these kinds. -/
def skipOneOf (kinds : List Kind) : Action Bool := do
  if (← get).isOneOf kinds then
    next
    return true
  else return false

/-- The number of tokens a cursor can still move over. -/
def remaining (c : Cursor) : Nat := c.ahead.length

/-- Consumes tokens as long as they are of one of these kinds. -/
def skipWhile (kinds : List Kind) : Action Unit :=
  repeatStep remaining .stalled (fun () => do
    if ← skipOneOf kinds then return .again () else return .stop ()) ()

/-- Consumes the current token, which must be of this kind. -/
def accept (kind : Kind) : Action Token := do
  let t := (← get).current
  if t.kind = kind then
    next
    return t
  else failExpected kind.describe

/-- Steps over a balanced pair of parentheses, counting the `?` in it. -/
def skipParentheses : Action Skipped := do
  let opening ← accept (.symbol .leftParen)
  let start := opening.span.start
  repeatStep remaining .stalled (fun (depth, placeholders) => do
    if depth = 0 then
      return .stop ⟨⟨start, (← get).lastEnd⟩, placeholders⟩
    match (← get).current.kind with
    | .endOfInput => throw (.grammar start .unbalanced)
    | .symbol .leftParen =>
        let depth ← Counter.up depth
        next
        return .again (depth, placeholders)
    | .symbol .rightParen =>
        let depth ← Counter.down depth
        next
        return .again (depth, placeholders)
    | .symbol .question =>
        let placeholders ← Counter.up placeholders
        next
        return .again (depth, placeholders)
    | _ =>
        next
        return .again (depth, placeholders)) (1, 0)

end Cursor

end SqlMarkers
