/-
SqlMarkers.Tree — statements as they are understood.

The tree is shallow. Names, `owner.member` references, literals,
placeholders, tables and paging values are taken apart, since those are what
routing looks at; every other expression is kept as its source text
(`Expr.verbatim`). Each statement owns a `Scope` with the sharded tables it
declares, its markers and its count of `?`.
-/
import SqlMarkers.Binary64
import SqlMarkers.Marker
import SqlMarkers.Symbol

namespace SqlMarkers

/-! ## Expressions -/

/-- A name with its place. -/
structure Ident where
  /-- The decoded name, without quotes. -/
  name : String
  /-- Where the name is written, quotes included. -/
  span : Span
deriving DecidableEq, Repr, Inhabited

/-- The value of a numeric literal. -/
inductive Number where
  | integer (value : Int)
  | real (value : Binary64)
deriving DecidableEq, Repr, Inhabited

/-- An expression. -/
inductive Expr where
  /-- A plain name. -/
  | name (ident : Ident)
  /-- A qualified name, `owner.member`. -/
  | member (owner : Ident) (member : String) (span : Span)
  /-- A `?`; indices count from zero in source order. -/
  | placeholder (index : Nat) (span : Span)
  | number (value : Number) (span : Span)
  /-- A string, decoded; `national` marks the form `N'text'`. -/
  | text (value : String) (national : Bool) (span : Span)
  /-- Any other expression, as its trimmed source text. -/
  | verbatim (text : String) (span : Span)
deriving DecidableEq, Repr, Inhabited

namespace Expr

/-- Where an expression is written. -/
def span : Expr → Span
  | .name ident => ident.span
  | .member _ _ span | .placeholder _ span | .number _ span | .text _ _ span
  | .verbatim _ span => span

/-- Whether an expression is kept as source text. -/
def isVerbatim : Expr → Bool
  | .verbatim _ _ => true
  | _ => false

/-- The column that a plain or qualified name refers to. -/
def column? : Expr → Option String
  | .name ident => some ident.name
  | .member _ column _ => some column
  | _ => none

end Expr

/-! ## Tables -/

/-- A table as it is named in a statement. -/
structure Table where
  name : String
  schema : Option String
  aliasName : Option String
  /-- Where the name is written, without the schema. -/
  span : Span
deriving DecidableEq, Repr, Inhabited

/-- Whether `owner` refers to this table, by name or by alias, in any case. -/
def Table.answersTo (t : Table) (owner : String) : Bool :=
  Text.sameWord t.name owner ||
    match t.aliasName with
    | some other => Text.sameWord other owner
    | none => false

/-! ## Select items -/

/-- The aggregate functions that are told apart. -/
inductive Aggregate where
  | count | sum | max | min | avg
deriving DecidableEq, Repr, Inhabited

namespace Aggregate

/-- The name of an aggregate function. -/
def name : Aggregate → String
  | .count => "COUNT"
  | .sum => "SUM"
  | .max => "MAX"
  | .min => "MIN"
  | .avg => "AVG"

/-- The aggregate function that `word` names, in any case. -/
def ofName? (word : String) : Option Aggregate :=
  [count, sum, max, min, avg].find? fun a => Text.sameWord a.name word

end Aggregate

/-- An entry of a select list. -/
inductive SelectItem where
  /-- `*` or `owner.*`. -/
  | star (owner : Option Ident) (span : Span)
  /-- A call of an aggregate function; the argument is trimmed source text. -/
  | aggregate (function : Aggregate) (argument : String) (aliasName : Option String) (span : Span)
  | expr (expr : Expr) (aliasName : Option String)
deriving DecidableEq, Repr, Inhabited

/-- The alias of a select item. -/
def SelectItem.aliasName? : SelectItem → Option String
  | .star _ _ => none
  | .aggregate _ _ aliasName _ => aliasName
  | .expr _ aliasName => aliasName

/-! ## Orders, paging and locks -/

/-- The direction of an order. -/
inductive Direction where
  | ascending | descending
deriving DecidableEq, Repr, Inhabited

/-- Where nulls stand in an order. -/
inductive NullsPlace where
  | first | last
deriving DecidableEq, Repr, Inhabited

/-- An entry of `ORDER BY` or `GROUP BY`. -/
structure OrderItem where
  expr : Expr
  direction : Option Direction
  nulls : Option NullsPlace
deriving DecidableEq, Repr, Inhabited

/-- A row count or row offset. -/
inductive PagingValue where
  | literal (value : Int) (span : Span)
  | placeholder (index : Nat) (span : Span)
deriving DecidableEq, Repr, Inhabited

/-- Where a paging value is written. -/
def PagingValue.span : PagingValue → Span
  | .literal _ span | .placeholder _ span => span

/-- The form paging is written in. -/
inductive PagingForm where
  /-- `LIMIT n [OFFSET o]` -/
  | limit
  /-- `LIMIT o, n` -/
  | limitComma
  /-- `[OFFSET o ROWS] [FETCH NEXT n ROWS ONLY]` -/
  | offsetFetch
  /-- `TOP (n)` -/
  | top
deriving DecidableEq, Repr, Inhabited

/-- A restriction to some of the rows. -/
structure Paging where
  form : PagingForm := .limit
  offset : Option PagingValue := none
  rowCount : Option PagingValue := none
  /-- The count of `TOP` is in percent. -/
  percent : Bool := false
  /-- Rows equal to the last one of `TOP` are included. -/
  withTies : Bool := false
deriving DecidableEq, Repr, Inhabited

/-- How selected rows are locked. -/
inductive Lock where
  | forUpdate | shareMode
deriving DecidableEq, Repr, Inhabited

/-! ## Conditions and queries -/

/-- How a condition attaches to the one before it. -/
inductive Connector where
  | first | and | or
deriving DecidableEq, Repr, Inhabited

/-- A comparison between two operands. -/
inductive Comparison where
  | eq | notEq | nullSafeEq | lt | ltEq | gt | gtEq
deriving DecidableEq, Repr, Inhabited

namespace Comparison

/-- The operator a comparison is written with. -/
def spelling : Comparison → String
  | .eq => "="
  | .notEq => "<>"
  | .nullSafeEq => "<=>"
  | .lt => "<"
  | .ltEq => "<="
  | .gt => ">"
  | .gtEq => ">="

/-- The comparison that a symbol stands for. -/
def ofSymbol? : Symbol → Option Comparison
  | .eq => some .eq
  | .ltGt | .bangEq => some .notEq
  | .ltEqGt => some .nullSafeEq
  | .lt => some .lt
  | .ltEq | .bangGt => some .ltEq
  | .gt => some .gt
  | .gtEq | .bangLt => some .gtEq
  | _ => none

end Comparison

/-- The kind of a join. -/
inductive JoinKind where
  | inner | cross | left | right | full | straight
deriving DecidableEq, Repr, Inhabited

mutual

/-- What a statement declares and counts. -/
structure Scope where
  /-- The sharded tables, in the order they are declared. -/
  tables : List Table
  /-- The markers, by ascending start. -/
  markers : List Marker
  /-- The number of `?` read up to the end of the statement. -/
  parameters : Nat
  /-- Queries found inside expressions that are kept as source text. -/
  subqueries : List Query

/-- A `SELECT` statement, on its own or inside another one. -/
structure Query where
  distinct : Bool
  items : List SelectItem
  sources : Option (List TableSource)
  filter : Option ConditionList
  groupBy : List OrderItem
  having : Option ConditionList
  orderBy : List OrderItem
  paging : Option Paging
  lock : Option Lock
  /-- The text of `OPTION (...)`. -/
  option : Option String
  scope : Scope
  span : Span

/-- A table factor and the joins that follow it. -/
structure TableSource where
  factor : TableFactor
  joins : List Join

/-- What rows are taken from. -/
inductive TableFactor where
  | table (table : Table)
  /-- `(SELECT ...) alias` -/
  | derived (query : Query) (aliasName : Option String) (span : Span)
  /-- `(a JOIN b ...)` -/
  | group (sources : List TableSource)

/-- A join. -/
structure Join where
  natural : Bool
  kind : JoinKind
  factor : TableFactor
  /-- The conditions of `ON`, empty without it. -/
  on : List Condition
  /-- The columns of `USING`, empty without it. -/
  columns : List String

/-- The conditions of `WHERE` or `HAVING`. -/
structure ConditionList where
  conditions : List Condition
  span : Span

/-- A predicate and how it attaches to the one before it. -/
structure Condition where
  connector : Connector
  predicate : Predicate
  span : Span

/-- A predicate. -/
inductive Predicate where
  | compare (left : Expr) (comparison : Comparison) (right : Expr)
  | inValues (left : Expr) (negated : Bool) (values : List Expr)
  | inQuery (left : Expr) (negated : Bool) (query : Query)
  | between (left : Expr) (negated : Bool) (low high : Expr)
  | isNull (left : Expr) (negated : Bool)
  | like (left : Expr) (negated : Bool) (pattern : Expr) (escape : Option Expr)
  | existsIn (negated : Bool) (query : Query)
  | not (predicate : Predicate)
  /-- Conditions in parentheses. -/
  | group (conditions : List Condition)
  /-- An expression used as a truth value. -/
  | bare (expr : Expr)

end

namespace Scope

/-- The first declared table that `owner` refers to. -/
def find? (s : Scope) (owner : String) : Option Table :=
  s.tables.find? fun t => t.answersTo owner

/-- The number of placeholder indices. -/
def indexCount : Nat := 4294967296

/-- The scope with one `?` more, whose index is the count before. Behind the last
index the count starts again. -/
def withParameter (s : Scope) : Scope := { s with parameters := (s.parameters + 1) % indexCount }

end Scope

/-- A query without clauses whose `?` count starts at `parameters`. -/
def Query.startingAt (parameters : Nat) : Query :=
  { distinct := false, items := [], sources := none, filter := none, groupBy := []
    having := none, orderBy := [], paging := none, lock := none, option := none
    scope := { tables := [], markers := [], parameters, subqueries := [] }
    span := Span.zero }

/-! ## Statements -/

/-- `column = value`. -/
structure Assignment where
  column : Expr
  value : Expr
deriving DecidableEq, Repr, Inhabited

/-- A row of `VALUES`. -/
structure ValuesRow where
  values : List Expr
  span : Span
deriving DecidableEq, Repr, Inhabited

/-- Where the inserted rows come from. -/
inductive InsertSource where
  | values (rows : List ValuesRow)
  | set (assignments : List Assignment)
  | query (query : Query)

/-- An `INSERT` statement. -/
structure Insert where
  table : Table
  columns : List Expr
  source : InsertSource
  /-- The assignments of `ON DUPLICATE KEY UPDATE`. -/
  onDuplicate : List Assignment
  scope : Scope
  span : Span

/-- An `UPDATE` statement. -/
structure Update where
  table : Table
  assignments : List Assignment
  filter : Option ConditionList
  orderBy : List OrderItem
  paging : Option Paging
  scope : Scope
  span : Span

/-- A `DELETE` statement. -/
structure Delete where
  table : Table
  filter : Option ConditionList
  orderBy : List OrderItem
  paging : Option Paging
  scope : Scope
  span : Span

/-- What a definition does to its tables. -/
inductive DefinitionKind where
  | createTable | alterTable | dropTable | truncateTable
deriving DecidableEq, Repr, Inhabited

/-- A statement that defines tables. Only the table names are taken apart. -/
structure Definition where
  kind : DefinitionKind
  tables : List Table
  /-- The source text without a closing `;`. -/
  text : String
  scope : Scope
  span : Span

/-- A statement. -/
inductive Statement where
  | select (query : Query)
  | insert (insert : Insert)
  | update (update : Update)
  | delete (delete : Delete)
  | define (definition : Definition)

namespace Statement

/-- The scope of a statement. -/
def scope : Statement → Scope
  | .select s => s.scope
  | .insert s => s.scope
  | .update s => s.scope
  | .delete s => s.scope
  | .define s => s.scope

/-- The name of the kind of a statement. -/
def kindName : Statement → String
  | .select _ => "select"
  | .insert _ => "insert"
  | .update _ => "update"
  | .delete _ => "delete"
  | .define _ => "ddl"

/-- The number of `?` in a statement. -/
def parameterCount (s : Statement) : Nat := s.scope.parameters

end Statement

end SqlMarkers
