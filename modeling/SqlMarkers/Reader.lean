/-
SqlMarkers.Reader — the state in which a statement is read, and the few steps
that every reader is built from.

A reader moves a cursor over the tokens and fills in the scope of the
statement it is in: the sharded tables declared so far, their markers, the
count of `?`, the queries found inside expressions, and the owners, that is
the names in front of a `.` that may turn out to refer to a table.

An owner can stand before the clause that declares its table, so owners are
resolved when the statement ends (`Draft.finish`). Those that no table of the
statement answers to are handed on to the statement around it.

Every recursion of the grammar goes through one of the five readers in
`Inner`, and each use of one of them counts against the nesting limit.
-/
import SqlMarkers.Catalogue
import SqlMarkers.Cursor
import SqlMarkers.Text.Blank
import SqlMarkers.Token.Name
import SqlMarkers.Tree

namespace SqlMarkers

/-! ## A scope in the making -/

/-- A name in front of a `.`. -/
structure Owner where
  start : Nat
  /-- The name as written. -/
  literal : String
  /-- The decoded name. -/
  name : String
deriving DecidableEq, Repr, Inhabited

/-- A scope that is being filled in. -/
structure Draft where
  tables : List Table
  /-- The markers of declared tables. -/
  markers : List Marker
  parameters : Nat
  subqueries : List Query
  owners : List Owner

namespace Draft

/-- A scope without tables whose count of `?` starts at `parameters`. -/
def startingAt (parameters : Nat) : Draft :=
  { tables := [], markers := [], parameters, subqueries := [], owners := [] }

/-- Declares a sharded table and marks its name. -/
def declare (d : Draft) (table : Table) (literal : String) : Draft :=
  { d with
    tables := d.tables ++ [table]
    markers := d.markers ++ [⟨table.span.start, literal, table.name⟩] }

/-- The first declared table that `owner` refers to. -/
def find? (d : Draft) (owner : Owner) : Option Table :=
  d.tables.find? fun t => t.answersTo owner.name

/-- The marker of an owner that a declared table answers to. -/
def resolve? (d : Draft) (owner : Owner) : Option Marker :=
  (d.find? owner).map fun t => ⟨owner.start, owner.literal, t.name⟩

/-- The scope of the finished statement. -/
def finish (d : Draft) : Scope :=
  { tables := d.tables
    markers := Marker.normalize (d.markers ++ d.owners.filterMap d.resolve?)
    parameters := d.parameters
    subqueries := d.subqueries }

/-- The owners that no table of the statement answers to. -/
def unresolved (d : Draft) : List Owner :=
  d.owners.filter fun o => (d.find? o).isNone

end Draft

/-! ## Reading -/

/-- What stays the same while a statement is read. -/
structure Setting where
  source : List Char
  dialect : Dialect
  catalogue : Catalogue
  /-- How deep statements, groups and signs may be nested. -/
  limit : Nat

/-- Why a stretch of tokens was read without looking for owners in it. -/
inductive Passage.Kind where
  /-- The parentheses of an index hint, a table hint or `OPTION (...)`. -/
  | hint
  /-- The name behind the first `.` of an expression. -/
  | member
  /-- The unit of an `INTERVAL`. -/
  | unit
deriving DecidableEq, Repr, Inhabited

/-- A stretch of tokens that was read without looking for owners in it. -/
structure Passage where
  kind : Passage.Kind
  span : Span
deriving DecidableEq, Repr, Inhabited

/-- How deep a reader is, and whether the limit kept one from going deeper. -/
structure Nesting where
  /-- The number of levels the reader is in. -/
  depth : Nat
  /-- Whether a reader was refused at the limit. It is never taken back. -/
  exhausted : Bool
deriving DecidableEq, Repr, Inhabited

/-- What changes while a statement is read. -/
structure Reading where
  cursor : Cursor
  draft : Draft
  nesting : Nesting
  /-- The passages so far, the latest first. No reader looks at them: they are
  the history that statements about owners refer to. -/
  passages : List Passage

/-- A reading that begins at `cursor`. -/
def Reading.start (cursor : Cursor) : Reading :=
  { cursor, draft := Draft.startingAt 0, nesting := ⟨0, false⟩, passages := [] }

/-- The reading one level deeper. -/
def Reading.deeper (r : Reading) : Reading :=
  { r with nesting := { r.nesting with depth := r.nesting.depth + 1 } }

/-- The reading one level further out. -/
def Reading.shallower (r : Reading) : Reading :=
  { r with nesting := { r.nesting with depth := r.nesting.depth - 1 } }

/-- The reading `r` again, with the nesting of a later one. -/
def Reading.resumed (r later : Reading) : Reading := { r with nesting := later.nesting }

/-- A step of reading. -/
abbrev Reader (α : Type) := EStateM Fault Reading α

namespace Reader

/-! ### The cursor -/

/-- A step on the cursor alone. -/
def onCursor {α : Type} (action : Cursor.Action α) : Reader α := fun r =>
  match action r.cursor with
  | .ok a c => .ok a { r with cursor := c }
  | .error f c => .error f { r with cursor := c }

/-- The current token. -/
def current : Reader Token := return (← get).cursor.current

/-- Where the token consumed last ends. -/
def lastEnd : Reader Nat := return (← get).cursor.lastEnd

/-- Where the current token starts. -/
def here : Reader Nat := return (← current).span.start

/-- Consumes the current token. -/
def next : Reader Unit := onCursor Cursor.next

/-- The token `n` places ahead. -/
def peekNth (n : Nat) : Reader Token := onCursor (Cursor.peekNth n)

/-- The token after the current one. -/
def peek : Reader Token := peekNth 1

/-- Whether the current token is this keyword. -/
def atKeyword (k : Keyword) : Reader Bool := return (← current).isKeyword k

/-- Whether the current token is this symbol. -/
def atSymbol (s : Symbol) : Reader Bool := return (← current).isSymbol s

/-- Consumes the current token if it is this keyword. -/
def skipKeyword (k : Keyword) : Reader Bool := onCursor (Cursor.skipOneOf [.keyword k])

/-- Consumes the current token if it is one of these keywords. -/
def skipAnyOf (ks : List Keyword) : Reader Bool := onCursor (Cursor.skipOneOf (ks.map .keyword))

/-- Consumes the current token if it is this symbol. -/
def skipSymbol (s : Symbol) : Reader Bool := onCursor (Cursor.skipOneOf [.symbol s])

/-- Consumes tokens as long as they are one of these keywords. -/
def skipKeywords (ks : List Keyword) : Reader Unit := onCursor (Cursor.skipWhile (ks.map .keyword))

/-- Consumes the current token, which must be this keyword. -/
def acceptKeyword (k : Keyword) : Reader Token := onCursor (Cursor.accept (.keyword k))

/-- Consumes the current token, which must be this symbol. -/
def acceptSymbol (s : Symbol) : Reader Token := onCursor (Cursor.accept (.symbol s))

/-- Records a passage. -/
def recordPassage (kind : Passage.Kind) (span : Span) : Reader Unit :=
  modify fun r => { r with passages := ⟨kind, span⟩ :: r.passages }

/-- Steps over a pair of parentheses without looking for anything in it. -/
def passParentheses : Reader Unit := do
  let skipped ← onCursor Cursor.skipParentheses
  recordPassage .hint skipped.span

/-- Fails because `what` had to come. -/
def failExpected {α : Type} (what : String) : Reader α := onCursor (Cursor.failExpected what)

/-- Fails at the current token. -/
def failHere {α : Type} (cause : GrammarCause) : Reader α := do
  throw ((← get).cursor.fault cause)

/-- Fails at an offset. -/
def failAt {α : Type} (offset : Nat) (cause : GrammarCause) : Reader α :=
  throw (.grammar offset cause)

/-- Repeats a step until it stops; every round has to consume a token. -/
def repeating {β α : Type} (step : β → Reader (Round β α)) (b : β) : Reader α :=
  repeatStep (fun r => r.cursor.remaining) .stalled step b

/-- One or more entries with commas between them. -/
def commaSeparated {α : Type} (entry : Reader α) : Reader (List α) :=
  repeating (fun done => do
    let done := done ++ [← entry]
    if ← skipSymbol .comma then return .again done else return .stop done) []

/-- Consumes the `)` that belongs to `opening`. -/
def close (opening : Token) : Reader Unit := do
  if ← skipSymbol .rightParen then return
  if (← current).isEnd then failAt opening.span.start .unbalanced else failExpected "')'"

/-! ### The scope -/

/-- Changes the scope. -/
def modifyDraft (f : Draft → Draft) : Reader Unit :=
  modify fun r => { r with draft := f r.draft }

/-- Counts a `?` and gives its index. -/
def nextParameter : Reader Nat := do
  let index := (← get).draft.parameters
  let count ← Counter.up index
  modifyDraft fun d => { d with parameters := count }
  return index

/-- The name that a token stands for. -/
def nameOf (t : Token) : Reader String :=
  match t.name? with
  | some name => pure name
  | none => throw .undecodable

/-- Notes that a token is the owner of what follows its `.`. -/
def noteOwner (t : Token) : Reader Unit := do
  let owner : Owner := ⟨t.span.start, t.text, ← nameOf t⟩
  modifyDraft fun d => { d with owners := d.owners ++ [owner] }

/-- Consumes the current token, counting a `?` and noting an owner. -/
def consume : Reader Unit := do
  let t ← current
  if t.isSymbol .question then
    let _ ← nextParameter
  next
  if t.isName && (← atSymbol .dot) then noteOwner t

/-! ### Source text -/

/-- The trimmed source text between two offsets. -/
def sourceText (env : Setting) (start stop : Nat) : String :=
  String.ofList (Text.trim ((Text.slice? start stop env.source).getD []))

/-- Everything from `start` to the last consumed token, as source text. -/
def verbatimFrom (env : Setting) (start : Nat) : Reader Expr := do
  let stop ← lastEnd
  return .verbatim (sourceText env start stop) ⟨start, stop⟩

/-- Whether a token is the operator `REGEXP` or `RLIKE` of MySQL. -/
def isRegexp (env : Setting) (t : Token) : Bool := env.dialect == .mysql && t.isRegexp

end Reader

/-! ## Nesting -/

/-- Fails because the nesting limit is reached, and keeps that in mind. -/
def Reader.refuseNesting {α : Type} (env : Setting) : Reader α := fun r =>
  .error (r.cursor.fault (.nesting env.limit))
    { r with nesting := { r.nesting with exhausted := true } }

/-- Reads something one level deeper, if the limit allows it. Afterwards the
reader is on its own level again, whether `body` succeeded or failed. -/
def Reader.nested {α : Type} (env : Setting) (body : Reader α) : Reader α := fun r =>
  if env.limit ≤ r.nesting.depth then Reader.refuseNesting env r
  else
    match body r.deeper with
    | .ok a r' => .ok a r'.shallower
    | .error f r' => .error f r'.shallower

/-- The readers of what is nested one level deeper. -/
structure Inner where
  /-- A query, in a scope of its own. -/
  query : Reader Query
  /-- The operand of `INTERVAL`. -/
  operand : Reader Unit
  /-- The predicate behind `NOT`. -/
  predicate : Reader Predicate
  /-- Conditions in parentheses. -/
  group : Reader (List Condition)
  /-- The table sources behind an opening parenthesis. -/
  sources : Reader (List TableSource)

/-- The readers at the nesting limit: each of them fails. -/
def Inner.exhausted (env : Setting) : Inner :=
  { query := Reader.refuseNesting env
    operand := Reader.refuseNesting env
    predicate := Reader.refuseNesting env
    group := Reader.refuseNesting env
    sources := Reader.refuseNesting env }

/-- Reads a nested query. The count of `?` goes on in it, and the owners it
cannot resolve come back. -/
def Inner.embed (inner : Inner) : Reader Query := fun r =>
  match inner.query { r with draft := Draft.startingAt r.draft.parameters } with
  | .error f r' => .error f r'
  | .ok q r' =>
      .ok q { r' with
        draft := { r.draft with
          parameters := q.scope.parameters
          owners := r.draft.owners ++ r'.draft.unresolved } }

end SqlMarkers
