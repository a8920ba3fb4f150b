/-
SqlMarkers.Reader.Expression — expressions and aliases.

A name, `owner.member`, a literal or a placeholder that stands alone is taken
apart; anything longer is kept as source text.
-/
import SqlMarkers.Reader.Operand
import SqlMarkers.Token.Value

namespace SqlMarkers.Reader

/-- `leaf`, or the source text from `start` on if the expression goes on. -/
def leafOr (env : Setting) (inner : Inner) (start : Nat) (leaf : Expr) : Reader Expr := do
  if ← continuation inner then verbatimFrom env start else return leaf

/-- An expression that starts with a name. -/
def namedExpression (env : Setting) (inner : Inner) : Reader Expr := do
  let ownerToken ← current
  let start := ownerToken.span.start
  next
  let owner : Ident := ⟨← nameOf ownerToken, ownerToken.span⟩
  if ← atSymbol .dot then
    noteOwner ownerToken
    next
    let t ← current
    let member ←
      if t.isSymbol .star then pure "*"
      else if t.kind = .identifier || t.isAnyKeyword then nameOf t
      else failExpected "column name"
    next
    recordPassage .member t.span
    let stop ← lastEnd
    leafOr env inner start (.member owner member ⟨start, stop⟩)
  else leafOr env inner start (.name owner)

/-- An expression. -/
def expression (env : Setting) (inner : Inner) : Reader Expr := do
  let t ← current
  let start := t.span.start
  match t.kind with
  | .symbol .question =>
      next
      let index ← nextParameter
      leafOr env inner start (.placeholder index t.span)
  | .integer | .hex =>
      next
      match t.integer? with
      | some v => leafOr env inner start (.number (.integer v) t.span)
      | none => failAt start .integerOutOfRange
  | .float =>
      next
      match t.real? with
      | some v => leafOr env inner start (.number (.real v) t.span)
      | none => failAt start .malformedNumber
  | .chars =>
      next
      let value := (t.chars? env.dialect.features.backslashEscapes).getD ""
      leafOr env inner start (.text value t.isNational t.span)
  | _ =>
      let composite ← if t.isName then atCall else pure true
      if composite then
        operand inner
        let _ ← continuation inner
        verbatimFrom env start
      else namedExpression env inner

/-- Keywords that may be an alias without `AS` in front. -/
def aliasKeywords : List Keyword := [.USER, .END, .CASE, .KEY, .INTERVAL, .CONSTRAINT]

/-- The alias that a token stands for. -/
def aliasOf (env : Setting) (t : Token) : Reader String :=
  if t.kind = .chars then
    return (t.chars? env.dialect.features.backslashEscapes).getD ""
  else nameOf t

/-- An optional alias. `AS` in front of a symbol gives none. -/
def optionalAlias (env : Setting) : Reader (Option String) := do
  let marked ← skipKeyword .AS
  let t ← current
  let taken ←
    if marked then
      match t.kind with
      | .symbol _ => pure false
      | .endOfInput => failExpected "alias"
      | _ => pure true
    else
      match t.kind with
      | .identifier | .chars => pure true
      | .keyword k => pure (aliasKeywords.contains k)
      | _ => pure false
  if taken then
    next
    return some (← aliasOf env t)
  else return none

end SqlMarkers.Reader
