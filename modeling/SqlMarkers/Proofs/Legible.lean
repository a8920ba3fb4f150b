/-
SqlMarkers.Proofs.Legible — trees whose text can be read back.

A tree is built on leaves that pass a test if it has the shape that readers give and its
leaves pass (`Statement.isBuilt`): lists that cannot be empty are not, only the first of some
conditions has no word in front of it, and so on. Every parsed statement has that shape
(`SqlMarkers.Proofs.Shape`). It is legible in a dialect if it is built on leaves that recover
alone (`Leaf.legible`). Few of these tests look at two parts at once, where the first token of
a text decides what the text is taken for.

`Below.upTo reads n` are the trees that are built so `n` levels down. It is built like the
tower of nested readers, so that a tree that is legible there is one that these readers can
come across. All of it can be decided by running the readers of the leaves.
-/
import SqlMarkers.Proofs.Replay.Predicate

namespace SqlMarkers

open Glyph Reader

/-! ## Leaves -/

/-- The expression recovers. -/
def Expr.legible (d : Dialect) (n : Nat) (e : Expr) : Bool :=
  recovers expression Render.expr d n (Render.expr e)

/-- The expression recovers and, in front of the operator of its predicate, is not taken for the
beginning of another predicate. -/
def Expr.legibleOperand (d : Dialect) (n : Nat) (operator : List Glyph) (e : Expr) : Bool :=
  e.legible d n && startsOperandAlone d n (Glyph.ofText d (Render.expr e) ++ spaced operator)

/-- The right side of a comparison, which may be `ALL (...)`, recovers. -/
def Expr.legibleComparand (d : Dialect) (n : Nat) (e : Expr) : Bool :=
  recovers comparand Render.expr d n (Render.expr e)

/-- The predicate that is kept as this text recovers and is not taken for another one. -/
def Expr.legiblePredicate (d : Dialect) (n : Nat) (e : Expr) : Bool :=
  recovers barePredicate Render.expr d n (Render.expr e) &&
    startsOperandAlone d n (Glyph.ofText d (Render.expr e))

def SelectItem.legible (d : Dialect) (n : Nat) (x : SelectItem) : Bool :=
  recovers selectItem Render.item d n (Render.item x)

def Table.legible (d : Dialect) (t : Table) : Bool :=
  recovers (fun env _ => plainTable env) (fun t => Render.table t.1) d 0 (Render.table t)

def PagingValue.legible (d : Dialect) (v : PagingValue) : Bool :=
  recovers (fun _ _ => pagingValue) Render.pagingValue d 0 (Render.pagingValue v)

/-- The alias, if there is one, recovers. -/
def legibleAlias (d : Dialect) (name : Option String) : Bool :=
  name.isNone || recovers (fun env _ => optionalAlias env) aliasText d 0 (aliasText name)

/-- The column of `USING` recovers. -/
def legibleColumn (d : Dialect) (column : String) : Bool :=
  recovers (fun _ _ => usingColumn) Render.name d 0 (Render.name column)

/-- The text of `OPTION (...)` recovers, behind whatever stands in front of it. -/
def legibleOption (d : Dialect) (text : String) : Bool :=
  recovers (fun env _ => optionClause env) id d 0 text && standsAnywhere text

/-- The text of the definition, read alone where `n` levels may be nested, gives a definition
with this text. A definition is kept as its source text, so it is a leaf as a whole. -/
def Definition.legible (d : Dialect) (n : Nat) (s : Definition) : Bool :=
  match Setting.run (.lone d n s.text) with
  | .ok (.define s', _) => s'.text == s.text
  | _ => false

/-- The first select item is not taken for a part of `TOP`. -/
def SelectItem.legibleBehindTop (d : Dialect) (x : SelectItem) : Bool :=
  standsAnywhere (Render.item x) &&
    ahead (Glyph.ofText d (Render.item x)) != .keyword .PERCENT

/-- The table is not taken for a word behind `UPDATE`. -/
def Table.legibleBehindUpdate (d : Dialect) (t : Table) : Bool :=
  !List.contains [.keyword .LOW_PRIORITY, .keyword .IGNORE]
    (ahead (Glyph.ofText d (Render.table t)))

/-- Whether an `ON` behind the source would be taken for that of its last join. -/
def TableSource.endsInBareJoin (s : TableSource) : Bool :=
  s.joins.getLast?.any fun j => j.on.isEmpty && j.columns.isEmpty

/-- Whether an `ON` behind the query would be taken for that of its last join. -/
def Query.endsInBareJoin (q : Query) : Bool :=
  q.filter.isNone && q.groupBy.isEmpty && q.having.isNone && q.orderBy.isEmpty &&
    q.paging.all (·.form == .top) && q.lock.isNone && q.option.isNone &&
    (q.sources.getD []).getLast?.any (·.endsInBareJoin)

/-- Whether an `ON` behind the rows would be taken for that of a join. -/
def InsertSource.endsInBareJoin : InsertSource → Bool
  | .query q => q.endsInBareJoin
  | _ => false

/-- What a tree is tested for: the parts that are rendered as one text each, some of them
again for the place where they stand, and the words that not every dialect has. -/
inductive Leaf where
  | expr (e : Expr)
  /-- An expression that a predicate begins with, and what shows behind it which one. -/
  | operand (e : Expr) (operator : List Glyph)
  /-- The right side of a comparison. -/
  | comparand (e : Expr)
  /-- A predicate that is kept as text. -/
  | predicate (e : Expr)
  | item (x : SelectItem)
  | itemBehindTop (x : SelectItem)
  | table (t : Table)
  | tableBehindUpdate (t : Table)
  | value (v : PagingValue)
  /-- A value behind `NEXT`, which may be a name, so that a `-` behind it is no sign. -/
  | valueBehindNext (v : PagingValue)
  | aliasName (name : Option String)
  | column (name : String)
  | option (text : String)
  | word (k : Keyword)
  /-- The rows in front of `ON DUPLICATE KEY`. -/
  | rowsBeforeOn (source : InsertSource)
  | definition (s : Definition)

/-- The leaf is read back, where `n` levels may be nested. -/
def Leaf.legible (d : Dialect) (n : Nat) : Leaf → Bool
  | .expr e => e.legible d n
  | .operand e operator => e.legibleOperand d n operator
  | .comparand e => e.legibleComparand d n
  | .predicate e => e.legiblePredicate d n
  | .item x => x.legible d n
  | .itemBehindTop x => x.legibleBehindTop d
  | .table t => t.legible d
  | .tableBehindUpdate t => t.legibleBehindUpdate d
  | .value v => v.legible d
  | .valueBehindNext v => standsAnywhere (Render.pagingValue v)
  | .aliasName name => legibleAlias d name
  | .column name => legibleColumn d name
  | .option text => legibleOption d text
  | .word k => d.vocabulary.contains k
  | .rowsBeforeOn source => !source.endsInBareJoin
  | .definition s => s.legible d n

/-- The words of MySQL that a statement can be rendered with. -/
theorem Leaf.mysql_of_word {d : Dialect} {n : Nat} {k : Keyword}
    (hk : k ∈ [.STRAIGHT_JOIN, .SHARE, .DUPLICATE]) (h : Leaf.legible d n (.word k) = true) :
    d = .mysql := by
  have hword : d.vocabulary.contains k = true := h
  simp only [List.mem_cons, List.not_mem_nil, or_false] at hk
  clear h
  rcases hk with rfl | rfl | rfl <;> cases d <;> first | rfl | exact absurd hword (by decide)

/-- `TOP` is a word of SQL Server only. -/
theorem Leaf.sqlserver_of_top {d : Dialect} {n : Nat} (h : Leaf.legible d n (.word .TOP) = true) :
    d = .sqlserver := by
  have hword : d.vocabulary.contains .TOP = true := h
  clear h
  cases d <;> first | rfl | exact absurd hword (by decide)

/-! ## Trees -/

/-- Which trees are built as they should one level down. -/
structure Below where
  query : Query → Bool
  predicate : Predicate → Bool
  group : List Condition → Bool
  sources : List TableSource → Bool

/-- Glyphs with `NOT` in front, if they are negated. -/
def Glyph.negated (negative : Bool) (gs : List Glyph) : List Glyph :=
  if negative then word .NOT :: spaced gs else gs

/-- The operator behind the first operand of a predicate. -/
def Predicate.operator : Predicate → List Glyph
  | .compare _ comparison _ => [mark comparison.symbol]
  | .inValues _ negative _ | .inQuery _ negative _ => negated negative [word .IN]
  | .between _ negative _ _ => negated negative [word .BETWEEN]
  | .isNull _ _ => [word .IS]
  | .like _ negative _ _ => negated negative [word .LIKE]
  | _ => []

section Trees

variable (reads : Leaf → Bool) (below : Below)

/-- An entry of `ORDER BY` or `GROUP BY`. -/
def OrderItem.isBuilt (o : OrderItem) : Bool := reads (.expr o.expr)

/-- A paging clause has the values that its form is written with. -/
def Paging.isBuilt (p : Paging) : Bool :=
  match p.form with
  | .limit => p.rowCount.any (reads <| .value ·) && p.offset.all (reads <| .value ·)
  | .limitComma => p.rowCount.any (reads <| .value ·) && p.offset.any (reads <| .value ·)
  | .offsetFetch =>
      (p.offset.isSome || p.rowCount.isSome) && p.offset.all (reads <| .value ·) &&
        p.rowCount.all fun n => reads (.value n) && reads (.valueBehindNext n)
  | .top => reads (.word .TOP) && p.rowCount.any (reads <| .value ·)

def Predicate.isBuilt (p : Predicate) : Bool :=
  match p with
  | .compare left _ right => reads (.operand left p.operator) && reads (.comparand right)
  | .inValues left _ values =>
      reads (.operand left p.operator) && !values.isEmpty && values.all (reads <| .expr ·)
  | .inQuery left _ q => reads (.operand left p.operator) && below.query q
  | .between left _ low high =>
      reads (.operand left p.operator) && reads (.expr low) && reads (.expr high)
  | .isNull left _ => reads (.operand left p.operator)
  | .like left _ pattern escape =>
      reads (.operand left p.operator) && reads (.expr pattern) && escape.all (reads <| .expr ·)
  | .existsIn false q => below.query q
  | .existsIn true q => below.predicate (.existsIn false q)
  | .not p => below.predicate p
  | .group cs => below.group cs
  | .bare e => reads (.predicate e)

/-- Conditions are joined by words, the first one apart. -/
def conditionsBuilt : List Condition → Bool
  | [] => false
  | c :: cs =>
      c.connector == .first && c.predicate.isBuilt reads below &&
        cs.all fun c => c.connector != .first && c.predicate.isBuilt reads below

def TableFactor.isBuilt : TableFactor → Bool
  | .table t => reads (.table t)
  | .derived q name _ => below.query q && reads (.aliasName name)
  | .group ss => below.sources ss

/-- A join has conditions or columns or none of them. -/
def Join.isBuilt (j : Join) : Bool :=
  (j.kind != .straight || reads (.word .STRAIGHT_JOIN)) && j.factor.isBuilt reads below &&
    (j.on.isEmpty || (conditionsBuilt reads below j.on && j.columns.isEmpty)) &&
    j.columns.all (reads <| .column ·)

def TableSource.isBuilt (s : TableSource) : Bool :=
  s.factor.isBuilt reads below && s.joins.all (·.isBuilt reads below)

def sourcesBuilt (ss : List TableSource) : Bool :=
  !ss.isEmpty && ss.all (·.isBuilt reads below)

def Query.isBuilt (q : Query) : Bool :=
  !q.items.isEmpty && q.items.all (reads <| .item ·) &&
    q.sources.all (sourcesBuilt reads below) &&
    q.filter.all (conditionsBuilt reads below ·.conditions) &&
    q.groupBy.all (·.isBuilt reads) &&
    q.having.all (conditionsBuilt reads below ·.conditions) &&
    q.orderBy.all (·.isBuilt reads) &&
    q.paging.all (fun p => p.isBuilt reads &&
      (p.form != .top || q.items.head?.all (reads <| .itemBehindTop ·))) &&
    (q.lock != some .shareMode || reads (.word .SHARE)) &&
    q.option.all (reads <| .option ·)

end Trees

/-- The trees that are built on leaves that pass, `n` levels down. A leaf is tested for the number
of levels that may be nested in it. -/
def Below.upTo (reads : Nat → Leaf → Bool) : Nat → Below
  | 0 =>
      { query := fun _ => false
        predicate := fun _ => false
        group := fun _ => false
        sources := fun _ => false }
  | n + 1 =>
      { query := Query.isBuilt (reads n) (upTo reads n)
        predicate := Predicate.isBuilt (reads n) (upTo reads n)
        group := conditionsBuilt (reads n) (upTo reads n)
        sources := sourcesBuilt (reads n) (upTo reads n) }

/-! ## Statements -/

section Statements

variable (reads : Leaf → Bool) (below : Below)

def Assignment.isBuilt (a : Assignment) : Bool := reads (.expr a.column) && reads (.expr a.value)

def InsertSource.isBuilt : InsertSource → Bool
  | .values rows => !rows.isEmpty && rows.all fun row => row.values.all (reads <| .expr ·)
  | .set assignments => !assignments.isEmpty && assignments.all (·.isBuilt reads)
  | .query q => below.query q

def Insert.isBuilt (s : Insert) : Bool :=
  reads (.table s.table) && s.columns.all (reads <| .expr ·) && s.source.isBuilt reads below &&
    s.onDuplicate.all (·.isBuilt reads) &&
    (s.onDuplicate.isEmpty || (reads (.word .DUPLICATE) && reads (.rowsBeforeOn s.source)))

/-- A paging clause behind a statement that has no place for `TOP`. -/
def pagingBuilt (p : Option Paging) : Bool := p.all fun p => p.form != .top && p.isBuilt reads

def Update.isBuilt (s : Update) : Bool :=
  reads (.table s.table) && reads (.tableBehindUpdate s.table) &&
    !s.assignments.isEmpty && s.assignments.all (·.isBuilt reads) &&
    s.filter.all (conditionsBuilt reads below ·.conditions) &&
    s.orderBy.all (·.isBuilt reads) && pagingBuilt reads s.paging

def Delete.isBuilt (s : Delete) : Bool :=
  reads (.table s.table) && s.filter.all (conditionsBuilt reads below ·.conditions) &&
    s.orderBy.all (·.isBuilt reads) && pagingBuilt reads s.paging

end Statements

/-- The statement has the shape that readers give, with at most `n` levels of nesting, and its
leaves pass. -/
def Statement.isBuilt (reads : Nat → Leaf → Bool) (n : Nat) : Statement → Bool
  | .select q => q.isBuilt (reads n) (.upTo reads n)
  | .insert s => s.isBuilt (reads n) (.upTo reads n)
  | .update s => s.isBuilt (reads n) (.upTo reads n)
  | .delete s => s.isBuilt (reads n) (.upTo reads n)
  | .define s => reads n (.definition s)

/-- The statement is built on leaves that are read back, with at most `n` levels of nesting. -/
def Statement.legible (d : Dialect) (n : Nat) (s : Statement) : Bool :=
  s.isBuilt (Leaf.legible d) n

end SqlMarkers
