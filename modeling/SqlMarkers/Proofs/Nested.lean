/-
SqlMarkers.Proofs.Nested — everything that hangs off a statement.

Queries hang off a statement in many places: in `FROM`, in predicates, as the
source of an `INSERT`, and in the list of queries that a scope found inside
kept source text. `Statement.nested` lists all of them, at any depth, by
going through the tree itself and not through the walk of
`SqlMarkers.Tree.Walk`. `Statement.blocks` are the scopes of a statement with
their spans, its own first.

The other view goes one level at a time. `parts` lists, in source order, the
table references, queries and placeholders that a piece of the tree keeps,
without looking into the queries. Both views agree: the queries inside a
query are the families of the queries among its parts and of those its scope
found (`Query.nested_eq`, `Statement.nested_eq`).
-/
import SqlMarkers.Tree

namespace SqlMarkers

/-! ## Nested queries -/

mutual

/-- Every query inside a query, at any depth. -/
def Query.nested : Query → List Query
  | ⟨_, _, sources, filter, _, having, _, _, _, _, ⟨_, _, _, subqueries⟩, _⟩ =>
      (match sources with
       | some ss => TableSource.nestedIn ss
       | none => []) ++
      (match filter with
       | some ⟨cs, _⟩ => Condition.nestedIn cs
       | none => []) ++
      (match having with
       | some ⟨cs, _⟩ => Condition.nestedIn cs
       | none => []) ++
      Query.nestedIn subqueries

/-- Queries and every query inside them. -/
def Query.nestedIn : List Query → List Query
  | [] => []
  | q :: qs => q :: (q.nested ++ Query.nestedIn qs)

/-- Every query inside table sources. -/
def TableSource.nestedIn : List TableSource → List Query
  | [] => []
  | ⟨factor, joins⟩ :: ss =>
      factor.nested ++ Join.nestedIn joins ++ TableSource.nestedIn ss

/-- Every query inside a table factor. -/
def TableFactor.nested : TableFactor → List Query
  | .table _ => []
  | .derived q _ _ => q :: q.nested
  | .group ss => TableSource.nestedIn ss

/-- Every query inside joins. -/
def Join.nestedIn : List Join → List Query
  | [] => []
  | ⟨_, _, factor, on, _⟩ :: js => factor.nested ++ Condition.nestedIn on ++ Join.nestedIn js

/-- Every query inside conditions. -/
def Condition.nestedIn : List Condition → List Query
  | [] => []
  | ⟨_, p, _⟩ :: cs => p.nested ++ Condition.nestedIn cs

/-- Every query inside a predicate. -/
def Predicate.nested : Predicate → List Query
  | .inQuery _ _ q => q :: q.nested
  | .existsIn _ q => q :: q.nested
  | .not p => p.nested
  | .group cs => Condition.nestedIn cs
  | _ => []

end

/-- Every query inside a condition clause. -/
def ConditionList.nestedIn : Option ConditionList → List Query
  | some clause => Condition.nestedIn clause.conditions
  | none => []

/-- Every query inside the source of inserted rows. -/
def InsertSource.nested : InsertSource → List Query
  | .query q => q :: q.nested
  | _ => []

/-- Every query inside a statement, at any depth. -/
def Statement.nested : Statement → List Query
  | .select q => q.nested
  | .insert s => s.source.nested ++ Query.nestedIn s.scope.subqueries
  | .update s => ConditionList.nestedIn s.filter ++ Query.nestedIn s.scope.subqueries
  | .delete s => ConditionList.nestedIn s.filter ++ Query.nestedIn s.scope.subqueries
  | .define s => Query.nestedIn s.scope.subqueries

/-- Where a statement is written. -/
def Statement.span : Statement → Span
  | .select s => s.span
  | .insert s => s.span
  | .update s => s.span
  | .delete s => s.span
  | .define s => s.span

/-- The scope of a statement or query, and where that is written. -/
structure Block where
  scope : Scope
  span : Span

/-- A query as a block. -/
def Query.block (q : Query) : Block := ⟨q.scope, q.span⟩

/-- The blocks of a statement: its own one and those of all queries in it. -/
def Statement.blocks (s : Statement) : List Block :=
  ⟨s.scope, s.span⟩ :: s.nested.map Query.block

/-! ## Parts -/

/-- What the tree keeps of a statement beyond names and literals. -/
inductive Part where
  | table (table : Table)
  | query (query : Query)
  | placeholder (index : Nat) (span : Span)
  /-- An expression that is kept as source text. -/
  | verbatim (span : Span)

/-- The part that an expression is. -/
def Expr.parts : Expr → List Part
  | .placeholder index span => [.placeholder index span]
  | .verbatim _ span => [.verbatim span]
  | _ => []

/-- The parts of expressions. -/
def Expr.partsIn (es : List Expr) : List Part := es.flatMap Expr.parts

/-- The parts of a select item. -/
def SelectItem.parts : SelectItem → List Part
  | .expr e _ => e.parts
  | _ => []

/-- The placeholder that a paging value is. -/
def PagingValue.parts : PagingValue → List Part
  | .placeholder index span => [.placeholder index span]
  | .literal _ _ => []

/-- The parts of a paging clause. -/
def Paging.parts (p : Paging) : List Part :=
  (p.offset.toList ++ p.rowCount.toList).flatMap PagingValue.parts

/-- The parts of an optional paging clause. -/
def Paging.partsIn (p : Option Paging) : List Part := p.toList.flatMap Paging.parts

/-- The parts of `ORDER BY` or `GROUP BY`. -/
def OrderItem.partsIn (os : List OrderItem) : List Part := os.flatMap fun o => o.expr.parts

mutual

/-- The parts of a predicate. -/
def Predicate.parts : Predicate → List Part
  | .compare left _ right => left.parts ++ right.parts
  | .inValues left _ values => left.parts ++ Expr.partsIn values
  | .inQuery left _ q => left.parts ++ [.query q]
  | .between left _ low high => left.parts ++ low.parts ++ high.parts
  | .isNull left _ => left.parts
  | .like left _ pattern escape =>
      left.parts ++ pattern.parts ++ Expr.partsIn escape.toList
  | .existsIn _ q => [.query q]
  | .not p => p.parts
  | .group cs => Condition.partsIn cs
  | .bare e => e.parts

/-- The parts of conditions. -/
def Condition.partsIn : List Condition → List Part
  | [] => []
  | ⟨_, p, _⟩ :: cs => p.parts ++ Condition.partsIn cs

end

/-- The parts of a condition clause. -/
def ConditionList.partsIn : Option ConditionList → List Part
  | some clause => Condition.partsIn clause.conditions
  | none => []

mutual

/-- The parts of table sources. -/
def TableSource.partsIn : List TableSource → List Part
  | [] => []
  | ⟨factor, joins⟩ :: ss => factor.parts ++ Join.partsIn joins ++ TableSource.partsIn ss

/-- The parts of a table factor. -/
def TableFactor.parts : TableFactor → List Part
  | .table t => [.table t]
  | .derived q _ _ => [.query q]
  | .group ss => TableSource.partsIn ss

/-- The parts of joins. -/
def Join.partsIn : List Join → List Part
  | [] => []
  | ⟨_, _, factor, on, _⟩ :: js => factor.parts ++ Condition.partsIn on ++ Join.partsIn js

end

/-- The parts of a query, without those of the queries in it. -/
def Query.parts (q : Query) : List Part :=
  q.items.flatMap SelectItem.parts ++ TableSource.partsIn (q.sources.getD []) ++
    ConditionList.partsIn q.filter ++ OrderItem.partsIn q.groupBy ++
    ConditionList.partsIn q.having ++ OrderItem.partsIn q.orderBy ++ Paging.partsIn q.paging

/-- The parts of assignments. -/
def Assignment.partsIn (as : List Assignment) : List Part :=
  as.flatMap fun a => a.column.parts ++ a.value.parts

/-- The parts of the source of inserted rows. -/
def InsertSource.parts : InsertSource → List Part
  | .values rows => rows.flatMap fun r => Expr.partsIn r.values
  | .set assignments => Assignment.partsIn assignments
  | .query q => [.query q]

/-- The parts of a statement, without those of the queries in it. -/
def Statement.parts : Statement → List Part
  | .select q => q.parts
  | .insert s =>
      [.table s.table] ++ Expr.partsIn s.columns ++ s.source.parts ++
        Assignment.partsIn s.onDuplicate
  | .update s =>
      [.table s.table] ++ Assignment.partsIn s.assignments ++ ConditionList.partsIn s.filter ++
        OrderItem.partsIn s.orderBy ++ Paging.partsIn s.paging
  | .delete s =>
      [.table s.table] ++ ConditionList.partsIn s.filter ++ OrderItem.partsIn s.orderBy ++
        Paging.partsIn s.paging
  | .define s => s.tables.map .table

/-! ## The two views agree -/

/-- The queries among parts. -/
def Part.queries (parts : List Part) : List Query :=
  parts.filterMap fun
    | .query q => some q
    | _ => none

/-- The table references among parts. -/
def Part.tables (parts : List Part) : List Table :=
  parts.filterMap fun
    | .table t => some t
    | _ => none

namespace Part

variable (as bs : List Part)

@[simp] theorem queries_nil : queries [] = [] := rfl

@[simp] theorem queries_append : queries (as ++ bs) = queries as ++ queries bs :=
  List.filterMap_append

@[simp] theorem queries_cons_query (q : Query) : queries (.query q :: as) = q :: queries as := rfl

@[simp] theorem queries_cons_table (t : Table) : queries (.table t :: as) = queries as := rfl

@[simp] theorem queries_cons_placeholder (i : Nat) (s : Span) :
    queries (.placeholder i s :: as) = queries as := rfl

@[simp] theorem queries_cons_verbatim (s : Span) :
    queries (.verbatim s :: as) = queries as := rfl

@[simp] theorem tables_nil : tables [] = [] := rfl

@[simp] theorem tables_append : tables (as ++ bs) = tables as ++ tables bs :=
  List.filterMap_append

@[simp] theorem tables_cons_query (q : Query) : tables (.query q :: as) = tables as := rfl

@[simp] theorem tables_cons_table (t : Table) : tables (.table t :: as) = t :: tables as := rfl

@[simp] theorem tables_cons_placeholder (i : Nat) (s : Span) :
    tables (.placeholder i s :: as) = tables as := rfl

@[simp] theorem tables_cons_verbatim (s : Span) : tables (.verbatim s :: as) = tables as := rfl

theorem queries_flatMap_eq_nil {α : Type} {f : α → List Part} (h : ∀ a, queries (f a) = [])
    (l : List α) : queries (l.flatMap f) = [] := by
  induction l with
  | nil => rfl
  | cons a l ih => rw [List.flatMap_cons, queries_append, h, ih, List.nil_append]

end Part

@[simp] theorem Expr.queries_parts (e : Expr) : Part.queries e.parts = [] := by cases e <;> rfl

@[simp] theorem Expr.tables_parts (e : Expr) : Part.tables e.parts = [] := by cases e <;> rfl

@[simp] theorem Expr.queries_partsIn (es : List Expr) : Part.queries (Expr.partsIn es) = [] :=
  Part.queries_flatMap_eq_nil Expr.queries_parts es

@[simp] theorem OrderItem.queries_partsIn (os : List OrderItem) :
    Part.queries (OrderItem.partsIn os) = [] :=
  Part.queries_flatMap_eq_nil (fun o => o.expr.queries_parts) os

@[simp] theorem SelectItem.queries_parts (i : SelectItem) : Part.queries i.parts = [] := by
  cases i <;> simp [SelectItem.parts]

@[simp] theorem Paging.queries_partsIn (p : Option Paging) :
    Part.queries (Paging.partsIn p) = [] :=
  Part.queries_flatMap_eq_nil
    (fun _ => Part.queries_flatMap_eq_nil (fun v => by cases v <;> rfl) _) p.toList

@[simp] theorem Assignment.queries_partsIn (as : List Assignment) :
    Part.queries (Assignment.partsIn as) = [] :=
  Part.queries_flatMap_eq_nil (fun a => by simp) as

theorem Query.nestedIn_eq (qs : List Query) :
    Query.nestedIn qs = qs.flatMap fun q => q :: q.nested := by
  induction qs with
  | nil => rfl
  | cons q qs ih => rw [Query.nestedIn, ih, List.flatMap_cons, List.cons_append]

@[simp] theorem Query.nestedIn_nil : Query.nestedIn [] = [] := rfl

@[simp] theorem Query.nestedIn_append (as bs : List Query) :
    Query.nestedIn (as ++ bs) = Query.nestedIn as ++ Query.nestedIn bs := by
  rw [nestedIn_eq, nestedIn_eq, nestedIn_eq, List.flatMap_append]

@[simp] theorem Query.nestedIn_singleton (q : Query) : Query.nestedIn [q] = q :: q.nested := by
  rw [nestedIn_eq, List.flatMap_singleton]

mutual

theorem Predicate.nested_eq : ∀ p : Predicate, p.nested = Query.nestedIn (Part.queries p.parts)
  | .compare left _ right => by simp [Predicate.nested, Predicate.parts]
  | .inValues left _ values => by simp [Predicate.nested, Predicate.parts]
  | .inQuery left _ q => by simp [Predicate.nested, Predicate.parts]
  | .between left _ low high => by simp [Predicate.nested, Predicate.parts]
  | .isNull left _ => by simp [Predicate.nested, Predicate.parts]
  | .like left _ pattern escape => by simp [Predicate.nested, Predicate.parts]
  | .existsIn _ q => by simp [Predicate.nested, Predicate.parts]
  | .not p => by rw [Predicate.nested, Predicate.parts, Predicate.nested_eq p]
  | .group cs => by rw [Predicate.nested, Predicate.parts, Condition.nestedIn_eq cs]
  | .bare e => by simp [Predicate.nested, Predicate.parts]

theorem Condition.nestedIn_eq :
    ∀ cs : List Condition, Condition.nestedIn cs = Query.nestedIn (Part.queries (Condition.partsIn cs))
  | [] => rfl
  | ⟨_, p, _⟩ :: cs => by
      rw [Condition.nestedIn, Condition.partsIn, Predicate.nested_eq p, Condition.nestedIn_eq cs,
        Part.queries_append, Query.nestedIn_append]

end

mutual

theorem TableSource.nestedIn_eq : ∀ ss : List TableSource,
    TableSource.nestedIn ss = Query.nestedIn (Part.queries (TableSource.partsIn ss))
  | [] => rfl
  | ⟨factor, joins⟩ :: ss => by
      rw [TableSource.nestedIn, TableSource.partsIn, TableFactor.nested_eq factor,
        Join.nestedIn_eq joins, TableSource.nestedIn_eq ss]
      simp

theorem TableFactor.nested_eq :
    ∀ f : TableFactor, f.nested = Query.nestedIn (Part.queries f.parts)
  | .table _ => rfl
  | .derived q _ _ => by simp [TableFactor.nested, TableFactor.parts]
  | .group ss => by rw [TableFactor.nested, TableFactor.parts, TableSource.nestedIn_eq ss]

theorem Join.nestedIn_eq :
    ∀ js : List Join, Join.nestedIn js = Query.nestedIn (Part.queries (Join.partsIn js))
  | [] => rfl
  | ⟨_, _, factor, on, _⟩ :: js => by
      rw [Join.nestedIn, Join.partsIn, TableFactor.nested_eq factor, Condition.nestedIn_eq on,
        Join.nestedIn_eq js]
      simp

end

theorem ConditionList.nestedIn_eq (clause : Option ConditionList) :
    ConditionList.nestedIn clause = Query.nestedIn (Part.queries (ConditionList.partsIn clause)) := by
  cases clause with
  | none => rfl
  | some clause => exact Condition.nestedIn_eq clause.conditions

/-- The queries inside a query, clause by clause. -/
theorem Query.nested_clauses (q : Query) :
    q.nested = TableSource.nestedIn (q.sources.getD []) ++ ConditionList.nestedIn q.filter ++
      ConditionList.nestedIn q.having ++ Query.nestedIn q.scope.subqueries := by
  obtain ⟨_, _, sources, filter, _, having, _, _, _, _, ⟨_, _, _, _⟩, _⟩ := q
  rcases sources with _ | ss <;> rcases filter with _ | ⟨_, _⟩ <;> rcases having with _ | ⟨_, _⟩ <;>
    rfl

/-- The queries inside a query are the queries among its parts and those its
scope found, each with the queries inside it. -/
theorem Query.nested_eq (q : Query) :
    q.nested = Query.nestedIn (Part.queries q.parts ++ q.scope.subqueries) := by
  have hitems : Part.queries (q.items.flatMap SelectItem.parts) = [] :=
    Part.queries_flatMap_eq_nil SelectItem.queries_parts q.items
  rw [q.nested_clauses, TableSource.nestedIn_eq, ConditionList.nestedIn_eq,
    ConditionList.nestedIn_eq]
  simp [Query.parts, hitems]

/-- The queries inside a statement are the queries among its parts and those its
scope found, each with the queries inside it. -/
theorem Statement.nested_eq (s : Statement) :
    s.nested = Query.nestedIn (Part.queries s.parts ++ s.scope.subqueries) := by
  cases s with
  | select q => exact q.nested_eq
  | insert s =>
      have hsource : s.source.nested = Query.nestedIn (Part.queries s.source.parts) := by
        cases s.source with
        | values rows =>
            have := Part.queries_flatMap_eq_nil (fun r : ValuesRow => Expr.queries_partsIn r.values)
            simp [InsertSource.nested, InsertSource.parts, this]
        | set assignments => simp [InsertSource.nested, InsertSource.parts]
        | query q => simp [InsertSource.nested, InsertSource.parts]
      simp [Statement.nested, Statement.parts, Statement.scope, hsource]
  | update s => simp [Statement.nested, Statement.parts, Statement.scope, ConditionList.nestedIn_eq]
  | delete s => simp [Statement.nested, Statement.parts, Statement.scope, ConditionList.nestedIn_eq]
  | define s =>
      have htables : Part.queries (s.tables.map .table) = [] := by
        induction s.tables with
        | nil => rfl
        | cons t ts ih => exact ih
      simp [Statement.nested, Statement.parts, Statement.scope, htables]

end SqlMarkers
