/-
SqlMarkers.Reader.Query — `SELECT` statements, and the tower of nested readers.

`Inner.upTo env n` are the readers that may nest `n` levels deeper. Each of them
counts its level in the state and is refused where the count has reached the
limit; the height of the tower only bounds the recursion.
-/
import SqlMarkers.Reader.Item
import SqlMarkers.Reader.Paging
import SqlMarkers.Reader.Source

namespace SqlMarkers

namespace Reader

/-- `ALL`, `DISTINCT` or `DISTINCTROW`, and whether duplicates are dropped. -/
def distinctness : Reader Bool := do
  match (← current).kind with
  | .keyword .ALL => next; return false
  | .keyword .DISTINCT => next; return true
  | .keyword .DISTINCTROW => next; return true
  | _ => return false

/-- The words that may stand in front of a select list in MySQL. -/
def selectOptions : List Keyword :=
  [.HIGH_PRIORITY, .STRAIGHT_JOIN, .SQL_SMALL_RESULT, .SQL_BIG_RESULT, .SQL_BUFFER_RESULT,
   .SQL_CACHE, .SQL_NO_CACHE, .SQL_CALC_FOUND_ROWS]

/-- `NOWAIT` or `SKIP LOCKED` behind a lock. -/
def lockWait : Reader Unit := do
  let t ← current
  if t.isWord "nowait" then next
  else if t.isWord "skip" then
    if (← peek).isWord "locked" then
      next
      next

/-- The options behind a query: locks and `OPTION (...)`, in any order. The last
one of each kind counts. -/
def trailingOptions (env : Setting) : Reader (Option Lock × Option String) :=
  repeating (fun ((lock, option) : Option Lock × Option String) => do
    let t ← current
    match t.kind with
    | .keyword .FOR =>
        next
        let lock ←
          match (← current).kind with
          | .keyword .UPDATE => pure Lock.forUpdate
          | .keyword .SHARE => pure Lock.shareMode
          | _ => failExpected "UPDATE or SHARE"
        next
        lockWait
        return .again (some lock, option)
    | .keyword .LOCK =>
        next
        let _ ← acceptKeyword .IN
        let _ ← acceptKeyword .SHARE
        let _ ← acceptKeyword .MODE
        return .again (some Lock.shareMode, option)
    | .keyword .OPTION =>
        if (← peek).isSymbol .leftParen then
          next
          passParentheses
          return .again (lock, some (sourceText env t.span.start (← lastEnd)))
        else return .stop (lock, option)
    | _ => return .stop (lock, option)) (none, none)

/-- Fails at a set operation, which is not supported. -/
def refuseSetOperation : Reader Unit := do
  match (← current).kind with
  | .keyword .UNION => failHere (.unsupported Keyword.UNION.spelling)
  | .keyword .INTERSECT => failHere (.unsupported Keyword.INTERSECT.spelling)
  | .keyword .EXCEPT => failHere (.unsupported Keyword.EXCEPT.spelling)
  | _ => return

/-- A query. Its scope is the one the reader is in. -/
def query (env : Setting) (inner : Inner) : Reader Query := do
  let start ← here
  let _ ← acceptKeyword .SELECT
  let distinct ← distinctness
  if env.dialect = .mysql then skipKeywords selectOptions
  let top ← optionalTop env
  let items ← commaSeparated (selectItem env inner)
  let sources ← fromClause env inner
  let filter ← conditionClause env inner .WHERE
  let groupBy ← groupBy env inner
  let having ← conditionClause env inner .HAVING
  let orderBy ← orderBy env inner
  let pagingStart ← here
  let paging ← optionalPaging
  if top.isSome && paging.isSome then failAt pagingStart .topWithPaging
  let (lock, option) ← trailingOptions env
  refuseSetOperation
  let span : Span := ⟨start, ← lastEnd⟩
  let scope := (← get).draft.finish
  return { distinct, items, sources, filter, groupBy, having, orderBy
           paging := paging <|> top, lock, option, scope, span }

end Reader

/-- The readers that may nest `n` levels deeper. -/
def Inner.upTo (env : Setting) : Nat → Inner
  | 0 => Inner.exhausted env
  | n + 1 =>
      { query := Reader.nested env fun r => Reader.query env (Inner.upTo env n) r
        operand := Reader.nested env fun r => Reader.operand (Inner.upTo env n) r
        predicate := Reader.nested env fun r => Reader.predicate env (Inner.upTo env n) r
        group := Reader.nested env fun r => Reader.group env (Inner.upTo env n) r
        sources := Reader.nested env fun r => Reader.tableSources env (Inner.upTo env n) r }

end SqlMarkers
