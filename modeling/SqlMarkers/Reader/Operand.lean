/-
SqlMarkers.Reader.Operand — reading over the operands and operators of an
expression.

These readers take nothing apart: they move to the end of an operand or of
what continues it, count the `?` on the way, note the owners, and collect
the queries they meet in parentheses.
-/
import SqlMarkers.Reader

namespace SqlMarkers.Reader

/-- Reads from an opening parenthesis over the closing one that belongs to it.
Queries inside are read as queries and attached to the scope. -/
def parentheses (inner : Inner) : Reader Span := do
  let opening ← acceptSymbol .leftParen
  let start := opening.span.start
  repeating (fun depth => do
    if depth = 0 then return .stop ⟨start, ← lastEnd⟩
    match (← current).kind with
    | .endOfInput => failAt start .unbalanced
    | .symbol .leftParen =>
        let depth ← Counter.up depth
        next
        return .again depth
    | .symbol .rightParen =>
        let depth ← Counter.down depth
        next
        return .again depth
    | .keyword .SELECT =>
        let q ← inner.embed
        modifyDraft fun d => { d with subqueries := d.subqueries ++ [q] }
        return .again depth
    | _ => consume; return .again depth) 1

/-- Reads over `CASE ... END`, with other `CASE` blocks in it. -/
def caseBlock (inner : Inner) : Reader Unit := do
  let opening ← acceptKeyword .CASE
  repeating (fun depth => do
    if depth = 0 then return .stop ()
    match (← current).kind with
    | .endOfInput => failAt opening.span.start .openCase
    | .symbol .leftParen =>
        let _ ← parentheses inner
        return .again depth
    | .keyword .CASE =>
        let depth ← Counter.up depth
        next
        return .again depth
    | .keyword .END =>
        let depth ← Counter.down depth
        next
        return .again depth
    | _ => consume; return .again depth) 1

/-- Whether the current token names a function and a parenthesis follows. -/
def atCall : Reader Bool := do
  let t ← current
  let callable := t.isName || t.isKeyword .LEFT || t.isKeyword .RIGHT || t.isKeyword .VALUES ||
    t.isKeyword .INSERT || t.isKeyword .IF
  if callable then return (← peek).isSymbol .leftParen else return false

/-- Whether a token is a sign in front of an operand. -/
def isSign (k : Kind) : Bool :=
  k == .symbol .minus || k == .symbol .plus || k == .symbol .tilde || k == .symbol .bang ||
    k == .keyword .NOT

/-- Reads over any signs. -/
def signs : Reader Unit :=
  repeating (fun () => do
    if isSign (← current).kind then
      next
      return .again ()
    else return .stop ()) ()

/-- Reads over one operand: a literal, a name, a call, a term in parentheses,
`CASE ... END`, `EXISTS (...)` or `INTERVAL operand unit`, with any signs in
front. -/
def operand (inner : Inner) : Reader Unit := do
  signs
  let t ← current
  match t.kind with
  | .symbol .leftParen =>
      let _ ← parentheses inner
  | .keyword .CASE => caseBlock inner
  | .keyword .EXISTS =>
      next
      let _ ← parentheses inner
  | .keyword .INTERVAL =>
      next
      inner.operand
      let measure ← current
      if measure.isName then
        next
        recordPassage .unit measure.span
  | _ =>
      if ← atCall then
        next
        let _ ← parentheses inner
      else if t.kind.isOperand then consume
      else failExpected "expression"

/-- Reads over members, arguments, and binary operators with their right
operands, and tells whether there were any. -/
def continuation (inner : Inner) : Reader Bool :=
  repeating (fun (found : Bool) => do
    match (← current).kind with
    | .symbol .leftParen =>
        let _ ← parentheses inner
        return .again true
    | .symbol .dot =>
        next
        let t ← current
        if t.isName || t.isSymbol .star || t.isAnyKeyword then
          consume
          return .again true
        else failExpected "column name"
    | .symbol s =>
        if s.isComposite then
          next
          operand inner
          return .again true
        else return .stop found
    | .keyword .DIV =>
        next
        operand inner
        return .again true
    | .keyword .MOD =>
        next
        operand inner
        return .again true
    | _ => return .stop found) false

end SqlMarkers.Reader
