/-
SqlMarkers.Reader.Paging — `LIMIT`, `OFFSET ... FETCH` and `TOP`, and the
entries of `ORDER BY` and `GROUP BY`.
-/
import SqlMarkers.Reader.Expression

namespace SqlMarkers.Reader

/-! ## Paging -/

/-- A row count or offset: an integer or a `?`. -/
def pagingValue : Reader PagingValue := do
  let t ← current
  match t.kind with
  | .symbol .question =>
      let index ← nextParameter
      next
      return .placeholder index t.span
  | .integer | .hex =>
      match t.integer? with
      | some v =>
          next
          return .literal v t.span
      | none => failAt t.span.start .integerOutOfRange
  | _ => failExpected "row count"

/-- `[OFFSET o [ROW|ROWS]] [FETCH FIRST|NEXT n ROW|ROWS ONLY]`. -/
def offsetFetch : Reader Paging := do
  let offset ←
    if ← skipKeyword .OFFSET then
      let v ← pagingValue
      let _ ← skipAnyOf [.ROW, .ROWS]
      pure (some v)
    else pure none
  if ← skipKeyword .FETCH then
    if !(← skipAnyOf [.FIRST, .NEXT]) then failExpected "FIRST or NEXT"
    let count ← pagingValue
    if !(← skipAnyOf [.ROW, .ROWS]) then failExpected "ROW or ROWS"
    let _ ← acceptKeyword .ONLY
    return { form := .offsetFetch, offset, rowCount := some count }
  else return { form := .offsetFetch, offset }

/-- An optional paging clause behind the other clauses. -/
def optionalPaging : Reader (Option Paging) := do
  match (← current).kind with
  | .keyword .LIMIT =>
      next
      let first ← pagingValue
      if ← skipSymbol .comma then
        let count ← pagingValue
        return some { form := .limitComma, offset := some first, rowCount := some count }
      else if ← skipKeyword .OFFSET then
        let offset ← pagingValue
        return some { offset := some offset, rowCount := some first }
      else return some { rowCount := some first }
  | .keyword .OFFSET => return some (← offsetFetch)
  | .keyword .FETCH => return some (← offsetFetch)
  | _ => return none

/-- An optional `TOP n [PERCENT] [WITH TIES]`, where the dialect has it. -/
def optionalTop (env : Setting) : Reader (Option Paging) := do
  if env.dialect ≠ .sqlserver then return none
  if !(← skipKeyword .TOP) then return none
  let count ←
    if ← atSymbol .leftParen then
      let opening ← acceptSymbol .leftParen
      let v ← pagingValue
      close opening
      pure v
    else pagingValue
  let percent ← skipKeyword .PERCENT
  let withTies ← if ← atKeyword .WITH then pure ((← peek).isKeyword .TIES) else pure false
  if withTies then
    next
    next
  return some { form := .top, rowCount := some count, percent, withTies }

/-! ## Orders -/

/-- An optional direction. -/
def optionalDirection : Reader (Option Direction) := do
  match (← current).kind with
  | .keyword .ASC => next; return some .ascending
  | .keyword .DESC => next; return some .descending
  | _ => return none

/-- An optional place of nulls. -/
def optionalNulls : Reader (Option NullsPlace) := do
  if ← skipKeyword .NULLS then
    match (← current).kind with
    | .keyword .FIRST => next; return some .first
    | .keyword .LAST => next; return some .last
    | _ => failExpected "FIRST or LAST"
  else return none

/-- An entry of `ORDER BY` or `GROUP BY`. -/
def orderItem (env : Setting) (inner : Inner) : Reader OrderItem := do
  let expr ← expression env inner
  let direction ← optionalDirection
  let nulls ← optionalNulls
  return { expr, direction, nulls }

/-- An optional `ORDER BY`, without entries if it is missing. -/
def orderBy (env : Setting) (inner : Inner) : Reader (List OrderItem) := do
  if ← skipKeyword .ORDER then
    let _ ← acceptKeyword .BY
    commaSeparated (orderItem env inner)
  else return []

/-- An optional `GROUP BY`, without entries if it is missing. -/
def groupBy (env : Setting) (inner : Inner) : Reader (List OrderItem) := do
  if ← skipKeyword .GROUP then
    let _ ← acceptKeyword .BY
    let items ← commaSeparated (orderItem env inner)
    let rollup ← if ← atKeyword .WITH then pure ((← peek).isKeyword .ROLLUP) else pure false
    if rollup then
      next
      next
    return items
  else return []

end SqlMarkers.Reader
