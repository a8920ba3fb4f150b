/-
SqlMarkers.Reader.Source — tables, joins and the `FROM` clause.

A table becomes a declared table of the scope when the catalogue accepts its
name; the name `dual` is never declared.
-/
import SqlMarkers.Reader.Condition

namespace SqlMarkers.Reader

/-! ## Tables -/

/-- The current token, which must be a name. -/
def nameToken (what : String) : Reader Token := do
  let t ← current
  if t.isName then
    next
    return t
  else failExpected what

/-- A table `[schema.]name` and the token of its name. -/
def tableName : Reader (Table × Token) := do
  let first ← nameToken "table name"
  if ← atSymbol .dot then
    next
    let second ← nameToken "table name"
    let schema ← nameOf first
    let name ← nameOf second
    return ({ name, schema := some schema, aliasName := none, span := second.span }, second)
  else
    let name ← nameOf first
    return ({ name, schema := none, aliasName := none, span := first.span }, first)

/-- Whether a table is sharded. -/
def isSharded (env : Setting) (t : Table) : Bool :=
  !Text.sameWord t.name "dual" && env.catalogue.accepts t.name

/-- Declares a table if it is sharded. -/
def declare (env : Setting) (t : Table) (token : Token) : Reader Unit :=
  if isSharded env t then modifyDraft fun d => d.declare t token.text else pure ()

/-- Whether an index hint starts at the current token. -/
def atIndexHint : Reader Bool := do
  let t ← current
  if t.isKeyword .USE || t.isKeyword .FORCE || t.isKeyword .IGNORE then
    let t ← peek
    return t.isKeyword .INDEX || t.isKeyword .KEY
  else return false

/-- Whether a table hint `WITH (` starts at the current token. -/
def atTableHint (env : Setting) : Reader Bool := do
  if env.dialect = .sqlserver then
    if ← atKeyword .WITH then return (← peek).isSymbol .leftParen else return false
  else return false

/-- What an index hint is for: `FOR JOIN`, `FOR ORDER BY` or `FOR GROUP BY`. -/
def hintPurpose : Reader Unit := do
  if ← skipKeyword .FOR then
    if !(← skipKeyword .JOIN) then
      if !(← skipKeyword .ORDER) then
        let _ ← acceptKeyword .GROUP
      let _ ← acceptKeyword .BY

/-- Reads over index hints and table hints. -/
def tableHints (env : Setting) : Reader Unit :=
  repeating (fun () => do
    if ← atIndexHint then
      next
      next
      hintPurpose
      passParentheses
      return .again ()
    else if ← atTableHint env then
      next
      passParentheses
      return .again ()
    else return .stop ()) ()

/-- A table with an optional alias and hints. -/
def tableReference (env : Setting) : Reader Table := do
  let (t, token) ← tableName
  let aliasName ← optionalAlias env
  tableHints env
  let t := { t with aliasName }
  declare env t token
  return t

/-! ## Joins -/

/-- A table, a query in parentheses, or sources in parentheses. -/
def tableFactor (env : Setting) (inner : Inner) : Reader TableFactor := do
  if ← atSymbol .leftParen then
    let start ← here
    let opening ← acceptSymbol .leftParen
    if ← atKeyword .SELECT then
      let q ← inner.embed
      close opening
      let span : Span := ⟨start, ← lastEnd⟩
      let aliasName ← optionalAlias env
      return .derived q aliasName span
    else
      let sources ← inner.sources
      close opening
      return .group sources
  else return .table (← tableReference env)

/-- The words of a join; `none` if no join starts here. -/
def joinKind (natural : Bool) : Reader (Option JoinKind) := do
  match (← current).kind with
  | .keyword .JOIN => next; return some .inner
  | .keyword .STRAIGHT_JOIN => next; return some .straight
  | .keyword .INNER => next; let _ ← acceptKeyword .JOIN; return some .inner
  | .keyword .CROSS => next; let _ ← acceptKeyword .JOIN; return some .cross
  | .keyword .LEFT => outer .left
  | .keyword .RIGHT => outer .right
  | .keyword .FULL => outer .full
  | _ => if natural then failExpected "JOIN" else return none
where
  /-- A direction, an optional `OUTER` and `JOIN`. -/
  outer (kind : JoinKind) : Reader (Option JoinKind) := do
    next
    let _ ← skipKeyword .OUTER
    let _ ← acceptKeyword .JOIN
    return some kind

/-- A column of `USING`. -/
def usingColumn : Reader String := do
  let t ← nameToken "column name"
  nameOf t

/-- The columns of `USING` in parentheses. -/
def usingColumns : Reader (List String) := do
  let opening ← acceptSymbol .leftParen
  let columns ← commaSeparated usingColumn
  close opening
  return columns

/-- A join, if one starts here. -/
def optionalJoin (env : Setting) (inner : Inner) : Reader (Option Join) := do
  let natural ← skipKeyword .NATURAL
  match ← joinKind natural with
  | none => return none
  | some kind =>
      let factor ← tableFactor env inner
      if ← skipKeyword .ON then
        let on ← conditions env inner
        return some { natural, kind, factor, on, columns := [] }
      else if ← skipKeyword .USING then
        let columns ← usingColumns
        return some { natural, kind, factor, on := [], columns }
      else return some { natural, kind, factor, on := [], columns := [] }

/-- A table factor and its joins. -/
def tableSource (env : Setting) (inner : Inner) : Reader TableSource := do
  let factor ← tableFactor env inner
  repeating (fun (joins : List Join) => do
    match ← optionalJoin env inner with
    | some j => return .again (joins ++ [j])
    | none => return .stop { factor, joins }) []

/-- Table sources with commas between them. -/
def tableSources (env : Setting) (inner : Inner) : Reader (List TableSource) :=
  commaSeparated (tableSource env inner)

/-- An optional `FROM` clause. -/
def fromClause (env : Setting) (inner : Inner) : Reader (Option (List TableSource)) := do
  if ← skipKeyword .FROM then return some (← tableSources env inner) else return none

end SqlMarkers.Reader
