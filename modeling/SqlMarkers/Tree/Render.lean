/-
SqlMarkers.Tree.Render — the text of a statement.

Rendering writes every part of a tree in one fixed form: names are quoted
with double quotes where they need it, keywords are in upper case, and
expressions kept as source text are written back as they are. The text is
for messages and logs; markers are replaced in the source text instead.
-/
import SqlMarkers.Tree

namespace SqlMarkers.Render

/-! ## Pieces -/

/-- `items` with `, ` between them. -/
def commaList (items : List String) : String := ", ".intercalate items

/-- Whether a name has to be quoted: only ASCII letters, digits, `_` and `$`
may stand in a plain name, and no digit or `$` in front. -/
def needsQuotes (name : String) : Bool :=
  match name.toList with
  | [] => true
  | c :: cs =>
      !(c.isAlpha || c == '_') || (c :: cs).any fun x => !(x.isAlphanum || x == '_' || x == '$')

/-- A name, in double quotes if it needs them. -/
def name (n : String) : String :=
  if needsQuotes n then "\x22" ++ String.ofList (Text.doubling '\x22' n.toList) ++ "\x22" else n

/-- An alias with the word in front of it. -/
def aliasClause : Option String → String
  | some a => " AS " ++ name a
  | none => ""

/-- A word in front of a negated operator. -/
def negation (negated : Bool) : String := if negated then "NOT " else ""

/-! ## Expressions, tables and items -/

/-- The text of a number. -/
def number : Number → String
  | .integer v => toString v
  | .real v => v.render

/-- The text of an expression. -/
def expr : Expr → String
  | .name ident => name ident.name
  | .member owner member _ =>
      name owner.name ++ "." ++ if member = "*" then "*" else name member
  | .placeholder _ _ => "?"
  | .number value _ => number value
  | .text value national _ =>
      (if national then "N" else "") ++
        "'" ++ String.ofList (Text.doubling '\x27' value.toList) ++ "'"
  | .verbatim text _ => text

/-- The text of a list of expressions. -/
def exprs (es : List Expr) : String := commaList (es.map expr)

/-- The text of a table. -/
def table (t : Table) : String :=
  (match t.schema with
   | some schema => name schema ++ "."
   | none => "") ++ name t.name ++ aliasClause t.aliasName

/-- The text of a select item. -/
def item : SelectItem → String
  | .star (some owner) _ => name owner.name ++ ".*"
  | .star none _ => "*"
  | .aggregate function argument as _ => function.name ++ "(" ++ argument ++ ")" ++ aliasClause as
  | .expr e as => expr e ++ aliasClause as

/-- The text of an entry of `ORDER BY` or `GROUP BY`. -/
def orderItem (o : OrderItem) : String :=
  expr o.expr ++
    (match o.direction with
     | some .ascending => " ASC"
     | some .descending => " DESC"
     | none => "") ++
    (match o.nulls with
     | some .first => " NULLS FIRST"
     | some .last => " NULLS LAST"
     | none => "")

/-- The text of an assignment. -/
def assignment (a : Assignment) : String := expr a.column ++ " = " ++ expr a.value

/-- The text of a row of values. -/
def valuesRow (r : ValuesRow) : String := "(" ++ exprs r.values ++ ")"

/-! ## Paging -/

/-- The text of a paging value. -/
def pagingValue : PagingValue → String
  | .literal value _ => toString value
  | .placeholder _ _ => "?"

/-- The text of a row count, `ALL` without one. -/
def rowCount : Option PagingValue → String
  | some v => pagingValue v
  | none => "ALL"

/-- The text of a paging clause, in the form it was written in. -/
def paging (p : Paging) : String :=
  match p.form with
  | .limit =>
      "LIMIT " ++ rowCount p.rowCount ++
        match p.offset with
        | some o => " OFFSET " ++ pagingValue o
        | none => ""
  | .limitComma =>
      "LIMIT " ++
        (match p.offset with
         | some o => pagingValue o ++ ", "
         | none => "") ++ rowCount p.rowCount
  | .offsetFetch =>
      (match p.offset with
       | some o => "OFFSET " ++ pagingValue o ++ " ROWS"
       | none => "") ++
        match p.rowCount with
        | some n =>
            (if p.offset.isSome then " " else "") ++ "FETCH NEXT " ++ pagingValue n ++ " ROWS ONLY"
        | none => ""
  | .top =>
      (match p.rowCount with
       | some n => "TOP (" ++ pagingValue n ++ ")"
       | none => "") ++
        (if p.percent then " PERCENT" else "") ++ if p.withTies then " WITH TIES" else ""

/-- A paging clause written as `TOP`, with a blank behind it. -/
def topClause : Option Paging → String
  | some p => if p.form = .top then paging p ++ " " else ""
  | none => ""

/-- A paging clause of any other form, with a blank in front of it. -/
def pagingClause : Option Paging → String
  | some p => if p.form = .top then "" else " " ++ paging p
  | none => ""

/-- A paging clause behind a statement that has no place for `TOP`. -/
def trailingPaging : Option Paging → String
  | some p => " " ++ paging p
  | none => ""

/-! ## Clauses without queries in them -/

/-- An `ORDER BY` or `GROUP BY` clause, empty without entries. -/
def orderClause (keyword : String) (items : List OrderItem) : String :=
  if items.isEmpty then "" else keyword ++ commaList (items.map orderItem)

/-- The text of a lock. -/
def lockClause : Option Lock → String
  | some .forUpdate => " FOR UPDATE"
  | some .shareMode => " LOCK IN SHARE MODE"
  | none => ""

/-- The words that a join is written with. -/
def joinWords : JoinKind → String
  | .inner => "JOIN"
  | .cross => "CROSS JOIN"
  | .left => "LEFT JOIN"
  | .right => "RIGHT JOIN"
  | .full => "FULL JOIN"
  | .straight => "STRAIGHT_JOIN"

/-- The columns of `USING`. -/
def usingClause (columns : List String) : String :=
  if columns.isEmpty then "" else " USING (" ++ commaList (columns.map name) ++ ")"

/-- The word that joins a condition to the one before it. -/
def connectorWord : Connector → String
  | .first => ""
  | .and => "AND "
  | .or => "OR "

/-! ## Queries -/

mutual

/-- The text of a query. -/
def query : Query → String
  | ⟨distinct, items, from?, filter, groupBy, having, orderBy, limit, lock, option, _, _⟩ =>
      "SELECT " ++ (if distinct then "DISTINCT " else "") ++ topClause limit ++
        commaList (items.map item) ++
        (match from? with
         | some ss => " FROM " ++ sources ss
         | none => "") ++
        (match filter with
         | some w => " WHERE " ++ conditionList w
         | none => "") ++
        orderClause " GROUP BY " groupBy ++
        (match having with
         | some h => " HAVING " ++ conditionList h
         | none => "") ++
        orderClause " ORDER BY " orderBy ++ pagingClause limit ++ lockClause lock ++
        match option with
        | some text => " " ++ text
        | none => ""

/-- The text of table sources with `, ` between them. -/
def sources : List TableSource → String
  | [] => ""
  | [s] => source s
  | s :: ss => source s ++ ", " ++ sources ss

/-- The text of a table source. -/
def source : TableSource → String
  | ⟨f, js⟩ => factor f ++ joins js

/-- The text of a table factor. -/
def factor : TableFactor → String
  | .table t => table t
  | .derived q as _ => "(" ++ query q ++ ")" ++ aliasClause as
  | .group ss => "(" ++ sources ss ++ ")"

/-- The text of joins, each with a blank in front. -/
def joins : List Join → String
  | [] => ""
  | j :: js => " " ++ join j ++ joins js

/-- The text of a join. -/
def join : Join → String
  | ⟨natural, kind, f, on, columns⟩ =>
      (if natural then "NATURAL " else "") ++ joinWords kind ++ " " ++ factor f ++
        (match on with
         | [] => ""
         | cs => " ON " ++ conditions cs) ++ usingClause columns

/-- The text of a condition clause. -/
def conditionList : ConditionList → String
  | ⟨cs, _⟩ => conditions cs

/-- The text of conditions with blanks between them. -/
def conditions : List Condition → String
  | [] => ""
  | [c] => condition c
  | c :: cs => condition c ++ " " ++ conditions cs

/-- The text of a condition. -/
def condition : Condition → String
  | ⟨connector, p, _⟩ => connectorWord connector ++ predicate p

/-- The text of a predicate. -/
def predicate : Predicate → String
  | .compare left comparison right =>
      expr left ++ " " ++ comparison.spelling ++ " " ++ expr right
  | .inValues left negated values =>
      expr left ++ " " ++ negation negated ++ "IN (" ++ exprs values ++ ")"
  | .inQuery left negated q =>
      expr left ++ " " ++ negation negated ++ "IN (" ++ query q ++ ")"
  | .between left negated low high =>
      expr left ++ " " ++ negation negated ++ "BETWEEN " ++ expr low ++ " AND " ++ expr high
  | .isNull left negated => expr left ++ " IS " ++ negation negated ++ "NULL"
  | .like left negated pattern escape =>
      expr left ++ " " ++ negation negated ++ "LIKE " ++ expr pattern ++
        match escape with
        | some e => " ESCAPE " ++ expr e
        | none => ""
  | .existsIn negated q => negation negated ++ "EXISTS (" ++ query q ++ ")"
  | .not p => "NOT " ++ predicate p
  | .group cs => "(" ++ conditions cs ++ ")"
  | .bare e => expr e

end

/-! ## Statements -/

/-- A `WHERE` clause, empty without conditions. -/
def whereClause : Option ConditionList → String
  | some w => " WHERE " ++ conditionList w
  | none => ""

/-- The text of an `INSERT` statement. -/
def insert (s : Insert) : String :=
  "INSERT INTO " ++ table s.table ++
    (if s.columns.isEmpty then "" else " (" ++ exprs s.columns ++ ")") ++
    (match s.source with
     | .values rows => " VALUES " ++ commaList (rows.map valuesRow)
     | .set assignments => " SET " ++ commaList (assignments.map assignment)
     | .query q => " " ++ query q) ++
    if s.onDuplicate.isEmpty then ""
    else " ON DUPLICATE KEY UPDATE " ++ commaList (s.onDuplicate.map assignment)

/-- The text of an `UPDATE` statement. -/
def update (s : Update) : String :=
  "UPDATE " ++ table s.table ++ " SET " ++ commaList (s.assignments.map assignment) ++
    whereClause s.filter ++ orderClause " ORDER BY " s.orderBy ++ trailingPaging s.paging

/-- The text of a `DELETE` statement. -/
def delete (s : Delete) : String :=
  "DELETE FROM " ++ table s.table ++ whereClause s.filter ++
    orderClause " ORDER BY " s.orderBy ++ trailingPaging s.paging

/-- The text of a statement. -/
def statement : Statement → String
  | .select s => query s
  | .insert s => insert s
  | .update s => update s
  | .delete s => delete s
  | .define s => s.text

end SqlMarkers.Render
