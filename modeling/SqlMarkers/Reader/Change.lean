/-
SqlMarkers.Reader.Change — `INSERT`, `UPDATE` and `DELETE` statements.
-/
import SqlMarkers.Reader.Paging
import SqlMarkers.Reader.Source

namespace SqlMarkers.Reader

/-- The scope of the statement that ends here. -/
def finishedScope : Reader Scope := return (← get).draft.finish

/-- Expressions in parentheses, possibly none. -/
def exprTuple (env : Setting) (inner : Inner) : Reader (List Expr) := do
  let opening ← acceptSymbol .leftParen
  let values ←
    if ← atSymbol .rightParen then pure []
    else commaSeparated (expression env inner)
  close opening
  return values

/-- A row of `VALUES`. -/
def valuesRow (env : Setting) (inner : Inner) : Reader ValuesRow := do
  let start ← here
  let values ← exprTuple env inner
  return { values, span := ⟨start, ← lastEnd⟩ }

/-- An assignment. -/
def assignment (env : Setting) (inner : Inner) : Reader Assignment := do
  let column ← expression env inner
  let _ ← acceptSymbol .eq
  let value ← expression env inner
  return { column, value }

/-- Assignments with commas between them. -/
def assignments (env : Setting) (inner : Inner) : Reader (List Assignment) :=
  commaSeparated (assignment env inner)

/-- The columns of an `INSERT`. A parenthesis in front of `SELECT` holds none. -/
def insertColumns (env : Setting) (inner : Inner) : Reader (List Expr) := do
  if ← atSymbol .leftParen then
    if (← peek).isKeyword .SELECT then return [] else exprTuple env inner
  else return []

/-- Where the inserted rows come from. -/
def insertSource (env : Setting) (inner : Inner) : Reader InsertSource := do
  match (← current).kind with
  | .keyword .VALUES => rows
  | .keyword .VALUE => rows
  | .keyword .SET =>
      next
      return .set (← assignments env inner)
  | .keyword .SELECT => return .query (← inner.embed)
  | .symbol .leftParen =>
      let opening ← acceptSymbol .leftParen
      let q ← inner.embed
      close opening
      return .query q
  | _ => failExpected "VALUES, SET or SELECT"
where
  /-- The rows behind `VALUES`. -/
  rows : Reader InsertSource := do
    next
    return .values (← commaSeparated (valuesRow env inner))

/-- The assignments of `ON DUPLICATE KEY UPDATE`, if it is there. -/
def onDuplicate (env : Setting) (inner : Inner) : Reader (List Assignment) := do
  let present ← if ← atKeyword .ON then pure ((← peek).isKeyword .DUPLICATE) else pure false
  if present then
    next
    next
    let _ ← acceptKeyword .KEY
    let _ ← acceptKeyword .UPDATE
    assignments env inner
  else return []

/-- An `INSERT` statement. -/
def insert (env : Setting) (inner : Inner) : Reader Insert := do
  let start ← here
  let _ ← acceptKeyword .INSERT
  skipKeywords [.LOW_PRIORITY, .DELAYED, .HIGH_PRIORITY, .IGNORE]
  let _ ← skipKeyword .INTO
  let table ← tableReference env
  let columns ← insertColumns env inner
  let source ← insertSource env inner
  let onDuplicate ← onDuplicate env inner
  let span : Span := ⟨start, ← lastEnd⟩
  return { table, columns, source, onDuplicate, scope := ← finishedScope, span }

/-- An `UPDATE` statement. -/
def update (env : Setting) (inner : Inner) : Reader Update := do
  let start ← here
  let _ ← acceptKeyword .UPDATE
  skipKeywords [.LOW_PRIORITY, .IGNORE]
  let table ← tableReference env
  let _ ← acceptKeyword .SET
  let assignments ← assignments env inner
  let filter ← conditionClause env inner .WHERE
  let orderBy ← orderBy env inner
  let paging ← optionalPaging
  let span : Span := ⟨start, ← lastEnd⟩
  return { table, assignments, filter, orderBy, paging, scope := ← finishedScope, span }

/-- A `DELETE` statement. -/
def delete (env : Setting) (inner : Inner) : Reader Delete := do
  let start ← here
  let _ ← acceptKeyword .DELETE
  skipKeywords [.LOW_PRIORITY, .QUICK, .IGNORE]
  let _ ← skipKeyword .FROM
  let table ← tableReference env
  let filter ← conditionClause env inner .WHERE
  let orderBy ← orderBy env inner
  let paging ← optionalPaging
  let span : Span := ⟨start, ← lastEnd⟩
  return { table, filter, orderBy, paging, scope := ← finishedScope, span }

end SqlMarkers.Reader
