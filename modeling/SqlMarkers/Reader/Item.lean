/-
SqlMarkers.Reader.Item — the entries of a select list.
-/
import SqlMarkers.Reader.Expression

namespace SqlMarkers.Reader

/-- An operand and what continues it. -/
def fullOperand (inner : Inner) : Reader Unit := do
  operand inner
  let _ ← continuation inner

/-- Whether `NOT` at the current token belongs to the operator behind it. -/
def negatesOperator (env : Setting) : Reader Bool := do
  let t ← peek
  return t.isKeyword .IN || t.isKeyword .LIKE || t.isKeyword .BETWEEN || isRegexp env t

/-- Reads over comparisons and tests behind a select item, and tells whether
there were any. -/
def comparisonTail (env : Setting) (inner : Inner) : Reader Bool :=
  repeating (fun (found : Bool) => do
    let t ← current
    match t.kind with
    | .symbol s =>
        if s.isComparison then
          next
          fullOperand inner
          return .again true
        else return .stop found
    | .keyword .IS =>
        next
        let _ ← skipKeyword .NOT
        operand inner
        return .again true
    | .keyword .NOT =>
        if ← negatesOperator env then
          next
          return .again true
        else return .stop found
    | .keyword .LIKE =>
        next
        fullOperand inner
        return .again true
    | .keyword .IN =>
        next
        fullOperand inner
        return .again true
    | .keyword .BETWEEN =>
        next
        fullOperand inner
        let _ ← acceptKeyword .AND
        fullOperand inner
        return .again true
    | _ =>
        if isRegexp env t then
          next
          fullOperand inner
          return .again true
        else return .stop found) false

/-- The aggregate function that is called at the current token. -/
def aggregateAt? : Reader (Option Aggregate) := do
  let t ← current
  if t.kind = .identifier then
    if (← peek).isSymbol .leftParen then return Aggregate.ofName? t.text else return none
  else return none

/-- Whether `owner.*` starts at the current token. -/
def atOwnedStar : Reader Bool := do
  if (← current).isName then
    if (← peekNth 1).isSymbol .dot then return (← peekNth 2).isSymbol .star else return false
  else return false

/-- A call of an aggregate function. It is kept as source text when the
expression goes on behind it. -/
def aggregateItem (env : Setting) (inner : Inner) (function : Aggregate) : Reader SelectItem := do
  let start ← here
  next
  let arguments ← parentheses inner
  let goesOn ← if ← continuation inner then pure true else comparisonTail env inner
  if goesOn then
    let e ← verbatimFrom env start
    return .expr e (← optionalAlias env)
  else
    let argumentsStop ← Counter.down arguments.stop
    let argument := sourceText env (arguments.start + 1) argumentsStop
    let span : Span := ⟨start, ← lastEnd⟩
    return .aggregate function argument (← optionalAlias env) span

/-- An expression with comparisons behind it and an optional alias. -/
def expressionItem (env : Setting) (inner : Inner) : Reader SelectItem := do
  let start ← here
  let e ← expression env inner
  let e ← if ← comparisonTail env inner then verbatimFrom env start else pure e
  return .expr e (← optionalAlias env)

/-- An entry of a select list. -/
def selectItem (env : Setting) (inner : Inner) : Reader SelectItem := do
  let t ← current
  if t.isSymbol .star then
    next
    return .star none t.span
  else if ← atOwnedStar then
    noteOwner t
    next
    next
    next
    let owner : Ident := ⟨← nameOf t, t.span⟩
    return .star (some owner) ⟨t.span.start, ← lastEnd⟩
  else
    match ← aggregateAt? with
    | some function => aggregateItem env inner function
    | none => expressionItem env inner

end SqlMarkers.Reader
