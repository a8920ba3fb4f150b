/-
SqlMarkers.Reader.Condition — predicates and the lists they are joined in.

Conditions are kept flat: each one carries the word that joins it to the one
before. A parenthesis in front of a predicate is first tried as a group of
conditions; if the group cannot be read, or an operator behind it shows that
it was only the first operand, the reader goes back and reads an operand.
-/
import SqlMarkers.Reader.Expression

namespace SqlMarkers.Reader

/-- The values or the query behind `IN`. -/
def membership (env : Setting) (inner : Inner) (left : Expr) (negated : Bool) :
    Reader Predicate := do
  let opening ← acceptSymbol .leftParen
  if ← atKeyword .SELECT then
    let q ← inner.embed
    close opening
    return .inQuery left negated q
  else
    let values ← commaSeparated (expression env inner)
    close opening
    return .inValues left negated values

/-- The right side of a comparison. `ALL (...)` is kept as source text. -/
def comparand (env : Setting) (inner : Inner) : Reader Expr := do
  let start ← here
  let all ← if ← atKeyword .ALL then pure ((← peek).isSymbol .leftParen) else pure false
  if all then
    next
    let _ ← parentheses inner
    verbatimFrom env start
  else expression env inner

/-- What follows `IS`: `[NOT] NULL`, or an operand that is kept as source text. -/
def nullTest (env : Setting) (inner : Inner) (left : Expr) : Reader Predicate := do
  let negated ← skipKeyword .NOT
  if ← skipKeyword .NULL then return .isNull left negated
  operand inner
  return .bare (← verbatimFrom env left.span.start)

/-- What follows the first operand of a predicate, from an optional `NOT` on. -/
def matching (env : Setting) (inner : Inner) (left : Expr) : Reader Predicate := do
  let negated ← skipKeyword .NOT
  let t ← current
  match t.kind with
  | .keyword .IN =>
      next
      membership env inner left negated
  | .keyword .BETWEEN =>
      next
      let low ← expression env inner
      let _ ← acceptKeyword .AND
      let high ← expression env inner
      return .between left negated low high
  | .keyword .LIKE =>
      next
      let pattern ← expression env inner
      if ← skipKeyword .ESCAPE then
        let escape ← expression env inner
        return .like left negated pattern (some escape)
      else return .like left negated pattern none
  | _ =>
      if isRegexp env t then
        next
        let _ ← expression env inner
        return .bare (← verbatimFrom env left.span.start)
      else if negated then failExpected "IN, BETWEEN, LIKE or REGEXP"
      else return .bare left

/-- The comparison that a token stands for. -/
def comparisonAt? (t : Token) : Option Comparison :=
  match t.kind with
  | .symbol s => Comparison.ofSymbol? s
  | _ => none

/-- A predicate from its first operand on. -/
def operandPredicate (env : Setting) (inner : Inner) : Reader Predicate := do
  let left ← expression env inner
  let t ← current
  match comparisonAt? t with
  | some comparison =>
      next
      let right ← comparand env inner
      return .compare left comparison right
  | none =>
      if t.isKeyword .IS then
        next
        nullTest env inner left
      else matching env inner left

/-- Whether the current token shows that what came before was only an operand. -/
def operandGoesOn (env : Setting) : Reader Bool := do
  let t ← current
  match t.kind with
  | .symbol s => return s.isComparison || s.isComposite
  | .keyword .NOT =>
      let t ← peek
      return t.isKeyword .IN || t.isKeyword .BETWEEN || t.isKeyword .LIKE || isRegexp env t
  | .keyword k => return [Keyword.IS, .IN, .BETWEEN, .LIKE, .DIV, .MOD].contains k
  | _ => return isRegexp env t

/-- Tries to read a group of conditions. If that fails, or the group turns out
to be an operand, the cursor and the scope are set back. Once the nesting limit
was met no fault is given up, and a name without decoded form still ends the
whole reading. -/
def attemptGroup (env : Setting) (inner : Inner) : Reader (Option (List Condition)) := fun r =>
  match inner.group r with
  | .ok conditions r' =>
      match operandGoesOn env r' with
      | .ok false r'' => .ok (some conditions) r''
      | .ok true r'' => .ok none (r.resumed r'')
      | .error f r'' => .error f r''
  | .error f r' =>
      if f.isRecoverable && !r'.nesting.exhausted then .ok none (r.resumed r') else .error f r'

/-- The negation of a predicate. -/
def negate : Predicate → Predicate
  | .existsIn false q => .existsIn true q
  | p => .not p

/-- A predicate. -/
def predicate (env : Setting) (inner : Inner) : Reader Predicate := do
  match (← current).kind with
  | .keyword .NOT =>
      next
      return negate (← inner.predicate)
  | .keyword .EXISTS =>
      next
      let opening ← acceptSymbol .leftParen
      if !(← atKeyword .SELECT) then failExpected "SELECT"
      let q ← inner.embed
      close opening
      return .existsIn false q
  | .symbol .leftParen =>
      if (← peek).isKeyword .SELECT then operandPredicate env inner
      else
        match ← attemptGroup env inner with
        | some conditions => return .group conditions
        | none => operandPredicate env inner
  | _ => operandPredicate env inner

/-- The word that joins the next condition, if there is one. -/
def connectorOf : Kind → Option Connector
  | .keyword .AND | .symbol .ampAmp => some .and
  | .keyword .OR => some .or
  | _ => none

/-- Predicates joined by `AND`, `&&` and `OR`. -/
def conditions (env : Setting) (inner : Inner) : Reader (List Condition) :=
  repeating (fun ((connector, done) : Connector × List Condition) => do
    let start ← here
    let p ← predicate env inner
    let done := done ++ [⟨connector, p, ⟨start, ← lastEnd⟩⟩]
    match connectorOf (← current).kind with
    | some connector =>
        next
        return .again (connector, done)
    | none => return .stop done) (.first, [])

/-- Conditions in parentheses. -/
def group (env : Setting) (inner : Inner) : Reader (List Condition) := do
  let _ ← acceptSymbol .leftParen
  let cs ← conditions env inner
  let _ ← acceptSymbol .rightParen
  return cs

/-- The conditions behind `keyword`, if it is there. -/
def conditionClause (env : Setting) (inner : Inner) (keyword : Keyword) :
    Reader (Option ConditionList) := do
  if ← skipKeyword keyword then
    let start ← here
    let cs ← conditions env inner
    return some ⟨cs, ⟨start, ← lastEnd⟩⟩
  else return none

end SqlMarkers.Reader
