/-
SqlMarkers.Proofs.Outline — what is left of a statement without its markers.

`Statement.outline w` drops the tables and the markers of every scope of a
statement, at any depth, and replaces each word `x` of it by `w x`. Two statements
with one outline have the same shape, the same spans, the same placeholders and the
same values; with `w := id` they also have the same words, and with
`w := Text.folded` the same words up to the case of ASCII letters.

What `SqlMarkers.Proofs.Nested` reads off a statement can be read off its outline:
the queries inside it (`Statement.outline_nested`) and its parts
(`Statement.outline_parts`).
-/
import SqlMarkers.Proofs.Nested

namespace SqlMarkers

/-! ## Outlines -/

section Outline

variable (w : String → String)

/-- A name in other words. -/
def Ident.outline (i : Ident) : Ident := ⟨w i.name, i.span⟩

/-- An expression in other words. -/
def Expr.outline : Expr → Expr
  | .name ident => .name (ident.outline w)
  | .member owner column span => .member (owner.outline w) (w column) span
  | .text value national span => .text (w value) national span
  | .verbatim kept span => .verbatim (w kept) span
  | e => e

/-- A table in other words. -/
def Table.outline (t : Table) : Table := ⟨w t.name, t.schema.map w, t.aliasName.map w, t.span⟩

/-- A select item in other words. -/
def SelectItem.outline : SelectItem → SelectItem
  | .star owner span => .star (owner.map (Ident.outline w)) span
  | .aggregate function argument aliasName span =>
      .aggregate function (w argument) (aliasName.map w) span
  | .expr e aliasName => .expr (e.outline w) (aliasName.map w)

/-- An entry of `ORDER BY` or `GROUP BY` in other words. -/
def OrderItem.outline (o : OrderItem) : OrderItem := { o with expr := o.expr.outline w }

mutual

/-- The outline of a query. -/
def Query.outline : Query → Query
  | ⟨distinct, items, sources, filter, groupBy, having, orderBy, paging, lock, option,
      ⟨_, _, parameters, subqueries⟩, span⟩ =>
      { distinct, paging, lock, span
        items := items.map (SelectItem.outline w)
        sources :=
          match sources with
          | some ss => some (TableSource.outlines ss)
          | none => none
        filter :=
          match filter with
          | some ⟨cs, span⟩ => some ⟨Condition.outlines cs, span⟩
          | none => none
        groupBy := groupBy.map (OrderItem.outline w)
        having :=
          match having with
          | some ⟨cs, span⟩ => some ⟨Condition.outlines cs, span⟩
          | none => none
        orderBy := orderBy.map (OrderItem.outline w)
        option := option.map w
        scope := ⟨[], [], parameters, Query.outlines subqueries⟩ }

/-- The outlines of queries. -/
def Query.outlines : List Query → List Query
  | [] => []
  | q :: qs => q.outline :: Query.outlines qs

/-- The outlines of table sources. -/
def TableSource.outlines : List TableSource → List TableSource
  | [] => []
  | ⟨factor, joins⟩ :: ss => ⟨factor.outline, Join.outlines joins⟩ :: TableSource.outlines ss

/-- The outline of a table factor. -/
def TableFactor.outline : TableFactor → TableFactor
  | .table t => .table (t.outline w)
  | .derived q aliasName span => .derived q.outline (aliasName.map w) span
  | .group ss => .group (TableSource.outlines ss)

/-- The outlines of joins. -/
def Join.outlines : List Join → List Join
  | [] => []
  | ⟨natural, kind, factor, on, columns⟩ :: js =>
      ⟨natural, kind, factor.outline, Condition.outlines on, columns.map w⟩ :: Join.outlines js

/-- The outlines of conditions. -/
def Condition.outlines : List Condition → List Condition
  | [] => []
  | ⟨connector, p, span⟩ :: cs => ⟨connector, p.outline, span⟩ :: Condition.outlines cs

/-- The outline of a predicate. -/
def Predicate.outline : Predicate → Predicate
  | .compare left comparison right => .compare (left.outline w) comparison (right.outline w)
  | .inValues left negated values =>
      .inValues (left.outline w) negated (values.map (Expr.outline w))
  | .inQuery left negated q => .inQuery (left.outline w) negated q.outline
  | .between left negated low high =>
      .between (left.outline w) negated (low.outline w) (high.outline w)
  | .isNull left negated => .isNull (left.outline w) negated
  | .like left negated pattern escape =>
      .like (left.outline w) negated (pattern.outline w) (escape.map (Expr.outline w))
  | .existsIn negated q => .existsIn negated q.outline
  | .not p => .not p.outline
  | .group cs => .group (Condition.outlines cs)
  | .bare e => .bare (e.outline w)

end

/-- The outline of a table source. -/
def TableSource.outline (s : TableSource) : TableSource :=
  ⟨s.factor.outline w, Join.outlines w s.joins⟩

/-- The outline of a join. -/
def Join.outline (j : Join) : Join :=
  { j with factor := j.factor.outline w, on := Condition.outlines w j.on, columns := j.columns.map w }

/-- The outline of a condition. -/
def Condition.outline (c : Condition) : Condition := { c with predicate := c.predicate.outline w }

/-- The outline of a condition clause. -/
def ConditionList.outline (c : ConditionList) : ConditionList :=
  { c with conditions := Condition.outlines w c.conditions }

/-- The outline of a scope: what it counts and the queries it found. -/
def Scope.outline (s : Scope) : Scope := ⟨[], [], s.parameters, Query.outlines w s.subqueries⟩

/-- An assignment in other words. -/
def Assignment.outline (a : Assignment) : Assignment := ⟨a.column.outline w, a.value.outline w⟩

/-- A row of `VALUES` in other words. -/
def ValuesRow.outline (r : ValuesRow) : ValuesRow := ⟨r.values.map (Expr.outline w), r.span⟩

/-- The outline of the source of inserted rows. -/
def InsertSource.outline : InsertSource → InsertSource
  | .values rows => .values (rows.map (ValuesRow.outline w))
  | .set assignments => .set (assignments.map (Assignment.outline w))
  | .query q => .query (q.outline w)

/-- The outline of an `INSERT` statement. -/
def Insert.outline (s : Insert) : Insert where
  table := s.table.outline w
  columns := s.columns.map (Expr.outline w)
  source := s.source.outline w
  onDuplicate := s.onDuplicate.map (Assignment.outline w)
  scope := s.scope.outline w
  span := s.span

/-- The outline of an `UPDATE` statement. -/
def Update.outline (s : Update) : Update where
  table := s.table.outline w
  assignments := s.assignments.map (Assignment.outline w)
  filter := s.filter.map (ConditionList.outline w)
  orderBy := s.orderBy.map (OrderItem.outline w)
  paging := s.paging
  scope := s.scope.outline w
  span := s.span

/-- The outline of a `DELETE` statement. -/
def Delete.outline (s : Delete) : Delete where
  table := s.table.outline w
  filter := s.filter.map (ConditionList.outline w)
  orderBy := s.orderBy.map (OrderItem.outline w)
  paging := s.paging
  scope := s.scope.outline w
  span := s.span

/-- The outline of a definition. -/
def Definition.outline (s : Definition) : Definition where
  kind := s.kind
  tables := s.tables.map (Table.outline w)
  text := w s.text
  scope := s.scope.outline w
  span := s.span

/-- The outline of a statement. -/
def Statement.outline : Statement → Statement
  | .select q => .select (q.outline w)
  | .insert s => .insert (s.outline w)
  | .update s => .update (s.outline w)
  | .delete s => .delete (s.outline w)
  | .define s => .define (s.outline w)

/-- The outline of a part. -/
def Part.outline : Part → Part
  | .table t => .table (t.outline w)
  | .query q => .query (q.outline w)
  | p => p

end Outline

/-! ## Outlines of lists and clauses -/

section Clauses

variable {w : String → String}

theorem Expr.outline_span (e : Expr) : (e.outline w).span = e.span := by
  cases e <;> rfl

theorem Query.outlines_eq_map (qs : List Query) : Query.outlines w qs = qs.map (Query.outline w) := by
  induction qs with
  | nil => rfl
  | cons q qs ih => rw [Query.outlines, ih, List.map_cons]

theorem TableSource.outlines_eq_map (ss : List TableSource) :
    TableSource.outlines w ss = ss.map (TableSource.outline w) := by
  induction ss with
  | nil => rfl
  | cons s ss ih =>
      obtain ⟨factor, joins⟩ := s
      rw [TableSource.outlines, ih, List.map_cons, TableSource.outline]

theorem Join.outlines_eq_map (js : List Join) : Join.outlines w js = js.map (Join.outline w) := by
  induction js with
  | nil => rfl
  | cons j js ih =>
      obtain ⟨natural, kind, factor, on, columns⟩ := j
      rw [Join.outlines, ih, List.map_cons, Join.outline]

theorem Condition.outlines_eq_map (cs : List Condition) :
    Condition.outlines w cs = cs.map (Condition.outline w) := by
  induction cs with
  | nil => rfl
  | cons c cs ih =>
      obtain ⟨connector, p, span⟩ := c
      rw [Condition.outlines, ih, List.map_cons, Condition.outline]

/-- The outline of a query, clause by clause. -/
theorem Query.outline_eq (q : Query) : q.outline w =
    { q with
      items := q.items.map (SelectItem.outline w)
      sources := q.sources.map (List.map (TableSource.outline w))
      filter := q.filter.map (ConditionList.outline w)
      groupBy := q.groupBy.map (OrderItem.outline w)
      having := q.having.map (ConditionList.outline w)
      orderBy := q.orderBy.map (OrderItem.outline w)
      option := q.option.map w
      scope := q.scope.outline w } := by
  obtain ⟨_, _, sources, filter, _, having, _, _, _, _, ⟨_, _, _, _⟩, _⟩ := q
  rcases sources with _ | ss <;> rcases filter with _ | ⟨_, _⟩ <;> rcases having with _ | ⟨_, _⟩ <;>
    simp [Query.outline, ConditionList.outline, Scope.outline, TableSource.outlines_eq_map]

/-- A statement and its outline count alike. -/
theorem Statement.outline_scope (st : Statement) :
    (st.outline w).scope = st.scope.outline w := by
  cases st with
  | select q =>
      rw [Statement.outline, Statement.scope, Query.outline_eq]
      rfl
  | insert | update | delete | define => rfl

theorem Statement.outline_span (st : Statement) : (st.outline w).span = st.span := by
  cases st with
  | select q =>
      rw [Statement.outline, Statement.span, Query.outline_eq]
      rfl
  | insert | update | delete | define => rfl

end Clauses

/-! ## Queries inside -/

section Nested

variable (w : String → String)

mutual

theorem Query.outline_nested : ∀ q : Query, (q.outline w).nested = q.nested.map (Query.outline w)
  | ⟨_, _, sources, filter, _, having, _, _, _, _, ⟨_, _, _, qs⟩, _⟩ => by
      have hsources : TableSource.nestedIn ((sources.map (TableSource.outlines w)).getD []) =
          (TableSource.nestedIn (sources.getD [])).map (Query.outline w) :=
        match sources with
        | some ss => TableSource.outlines_nestedIn ss
        | none => rfl
      have hfilter : ConditionList.nestedIn (filter.map (ConditionList.outline w)) =
          (ConditionList.nestedIn filter).map (Query.outline w) :=
        match filter with
        | some ⟨cs, _⟩ => Condition.outlines_nestedIn cs
        | none => rfl
      have hhaving : ConditionList.nestedIn (having.map (ConditionList.outline w)) =
          (ConditionList.nestedIn having).map (Query.outline w) :=
        match having with
        | some ⟨cs, _⟩ => Condition.outlines_nestedIn cs
        | none => rfl
      rw [Query.outline_eq, Query.nested_clauses, Query.nested_clauses]
      simp only [← funext TableSource.outlines_eq_map, hsources, hfilter, hhaving, Scope.outline,
        Query.outlines_nestedIn qs, List.map_append]

theorem Query.outlines_nestedIn : ∀ qs : List Query,
    Query.nestedIn (Query.outlines w qs) = (Query.nestedIn qs).map (Query.outline w)
  | [] => rfl
  | q :: qs => by
      simp [Query.outlines, Query.nestedIn, Query.outline_nested q, Query.outlines_nestedIn qs]

theorem TableSource.outlines_nestedIn : ∀ ss : List TableSource,
    TableSource.nestedIn (TableSource.outlines w ss) =
      (TableSource.nestedIn ss).map (Query.outline w)
  | [] => rfl
  | ⟨factor, joins⟩ :: ss => by
      simp [TableSource.outlines, TableSource.nestedIn, TableFactor.outline_nested factor,
        Join.outlines_nestedIn joins, TableSource.outlines_nestedIn ss]

theorem TableFactor.outline_nested : ∀ f : TableFactor,
    (f.outline w).nested = f.nested.map (Query.outline w)
  | .table _ => rfl
  | .derived q _ _ => by simp [TableFactor.outline, TableFactor.nested, Query.outline_nested q]
  | .group ss => by
      simp [TableFactor.outline, TableFactor.nested, TableSource.outlines_nestedIn ss]

theorem Join.outlines_nestedIn : ∀ js : List Join,
    Join.nestedIn (Join.outlines w js) = (Join.nestedIn js).map (Query.outline w)
  | [] => rfl
  | ⟨_, _, factor, on, _⟩ :: js => by
      simp [Join.outlines, Join.nestedIn, TableFactor.outline_nested factor,
        Condition.outlines_nestedIn on, Join.outlines_nestedIn js]

theorem Condition.outlines_nestedIn : ∀ cs : List Condition,
    Condition.nestedIn (Condition.outlines w cs) = (Condition.nestedIn cs).map (Query.outline w)
  | [] => rfl
  | ⟨_, p, _⟩ :: cs => by
      simp [Condition.outlines, Condition.nestedIn, Predicate.outline_nested p,
        Condition.outlines_nestedIn cs]

theorem Predicate.outline_nested : ∀ p : Predicate,
    (p.outline w).nested = p.nested.map (Query.outline w)
  | .compare _ _ _ => rfl
  | .inValues _ _ _ => rfl
  | .inQuery _ _ q => by simp [Predicate.outline, Predicate.nested, Query.outline_nested q]
  | .between _ _ _ _ => rfl
  | .isNull _ _ => rfl
  | .like _ _ _ _ => rfl
  | .existsIn _ q => by simp [Predicate.outline, Predicate.nested, Query.outline_nested q]
  | .not p => by simp [Predicate.outline, Predicate.nested, Predicate.outline_nested p]
  | .group cs => by simp [Predicate.outline, Predicate.nested, Condition.outlines_nestedIn cs]
  | .bare _ => rfl

end

theorem ConditionList.outline_nestedIn (clause : Option ConditionList) :
    ConditionList.nestedIn (clause.map (ConditionList.outline w)) =
      (ConditionList.nestedIn clause).map (Query.outline w) := by
  cases clause with
  | none => rfl
  | some clause => exact Condition.outlines_nestedIn w clause.conditions

/-- The queries inside an outline are the outlines of the queries inside. -/
theorem Statement.outline_nested (st : Statement) :
    (st.outline w).nested = st.nested.map (Query.outline w) := by
  cases st with
  | select q => exact Query.outline_nested w q
  | insert s =>
      have hsource : (s.source.outline w).nested = s.source.nested.map (Query.outline w) := by
        cases s.source with
        | values | set => rfl
        | query q => simp [InsertSource.outline, InsertSource.nested, Query.outline_nested]
      simp [Statement.outline, Statement.nested, Insert.outline, Scope.outline, hsource,
        Query.outlines_nestedIn]
  | update s | delete s =>
      simp [Statement.outline, Statement.nested, Update.outline, Delete.outline, Scope.outline,
        ConditionList.outline_nestedIn, Query.outlines_nestedIn]
  | define s =>
      simp [Statement.outline, Statement.nested, Definition.outline, Scope.outline,
        Query.outlines_nestedIn]

end Nested

/-! ## Parts -/

section Parts

variable (w : String → String)

@[simp] theorem Expr.outline_parts (e : Expr) :
    (e.outline w).parts = e.parts.map (Part.outline w) := by
  cases e <;> rfl

@[simp] theorem Expr.outline_partsIn (es : List Expr) :
    Expr.partsIn (es.map (Expr.outline w)) = (Expr.partsIn es).map (Part.outline w) := by
  simp [Expr.partsIn, List.flatMap_map, List.map_flatMap]

@[simp] theorem SelectItem.outline_parts (i : SelectItem) :
    (i.outline w).parts = i.parts.map (Part.outline w) := by
  cases i <;> simp [SelectItem.outline, SelectItem.parts]

@[simp] theorem OrderItem.outline_partsIn (os : List OrderItem) :
    OrderItem.partsIn (os.map (OrderItem.outline w)) =
      (OrderItem.partsIn os).map (Part.outline w) := by
  simp [OrderItem.partsIn, OrderItem.outline, List.flatMap_map, List.map_flatMap]

@[simp] theorem Assignment.outline_partsIn (as : List Assignment) :
    Assignment.partsIn (as.map (Assignment.outline w)) =
      (Assignment.partsIn as).map (Part.outline w) := by
  simp [Assignment.partsIn, Assignment.outline, List.flatMap_map, List.map_flatMap]

/-- A paging clause has no words. -/
@[simp] theorem Paging.map_outline_partsIn (p : Option Paging) :
    (Paging.partsIn p).map (Part.outline w) = Paging.partsIn p := by
  have hvalue : ∀ v : PagingValue, v.parts.map (Part.outline w) = v.parts := by
    intro v
    cases v <;> rfl
  have hparts : ∀ p : Paging, p.parts.map (Part.outline w) = p.parts := by
    intro p
    simp [Paging.parts, List.map_flatMap, hvalue]
  simp [Paging.partsIn, List.map_flatMap, hparts]

mutual

theorem Predicate.outline_parts : ∀ p : Predicate,
    (p.outline w).parts = p.parts.map (Part.outline w)
  | .compare _ _ _ => by simp [Predicate.outline, Predicate.parts]
  | .inValues _ _ _ => by simp [Predicate.outline, Predicate.parts]
  | .inQuery _ _ _ => by simp [Predicate.outline, Predicate.parts, Part.outline]
  | .between _ _ _ _ => by simp [Predicate.outline, Predicate.parts]
  | .isNull _ _ => by simp [Predicate.outline, Predicate.parts]
  | .like _ _ _ escape => by
      simp [Predicate.outline, Predicate.parts, Option.toList_map]
  | .existsIn _ _ => rfl
  | .not p => by rw [Predicate.outline, Predicate.parts, Predicate.parts, Predicate.outline_parts p]
  | .group cs => by
      rw [Predicate.outline, Predicate.parts, Predicate.parts, Condition.outlines_partsIn cs]
  | .bare _ => by simp [Predicate.outline, Predicate.parts]

theorem Condition.outlines_partsIn : ∀ cs : List Condition,
    Condition.partsIn (Condition.outlines w cs) = (Condition.partsIn cs).map (Part.outline w)
  | [] => rfl
  | ⟨_, p, _⟩ :: cs => by
      rw [Condition.outlines, Condition.partsIn, Condition.partsIn, Predicate.outline_parts p,
        Condition.outlines_partsIn cs, List.map_append]

end

@[simp] theorem ConditionList.outline_partsIn (clause : Option ConditionList) :
    ConditionList.partsIn (clause.map (ConditionList.outline w)) =
      (ConditionList.partsIn clause).map (Part.outline w) := by
  cases clause with
  | none => rfl
  | some clause => exact Condition.outlines_partsIn w clause.conditions

mutual

theorem TableSource.outlines_partsIn : ∀ ss : List TableSource,
    TableSource.partsIn (TableSource.outlines w ss) =
      (TableSource.partsIn ss).map (Part.outline w)
  | [] => rfl
  | ⟨factor, joins⟩ :: ss => by
      simp [TableSource.outlines, TableSource.partsIn, TableFactor.outline_parts factor,
        Join.outlines_partsIn joins, TableSource.outlines_partsIn ss]

theorem TableFactor.outline_parts : ∀ f : TableFactor,
    (f.outline w).parts = f.parts.map (Part.outline w)
  | .table _ => rfl
  | .derived _ _ _ => rfl
  | .group ss => by
      rw [TableFactor.outline, TableFactor.parts, TableFactor.parts,
        TableSource.outlines_partsIn ss]

theorem Join.outlines_partsIn : ∀ js : List Join,
    Join.partsIn (Join.outlines w js) = (Join.partsIn js).map (Part.outline w)
  | [] => rfl
  | ⟨_, _, factor, on, _⟩ :: js => by
      simp [Join.outlines, Join.partsIn, TableFactor.outline_parts factor,
        Condition.outlines_partsIn w on, Join.outlines_partsIn js]

end

/-- The parts of an outline are the outlines of the parts. -/
theorem Query.outline_parts (q : Query) : (q.outline w).parts = q.parts.map (Part.outline w) := by
  have hsources : TableSource.partsIn ((q.sources.map (List.map (TableSource.outline w))).getD []) =
      (TableSource.partsIn (q.sources.getD [])).map (Part.outline w) := by
    cases q.sources with
    | none => rfl
    | some ss =>
        have := TableSource.outlines_partsIn w ss
        rwa [TableSource.outlines_eq_map] at this
  rw [Query.outline_eq]
  simp [Query.parts, hsources, List.flatMap_map, List.map_flatMap]

/-- The parts of an outline are the outlines of the parts. -/
theorem Statement.outline_parts (st : Statement) :
    (st.outline w).parts = st.parts.map (Part.outline w) := by
  cases st with
  | select q => exact q.outline_parts w
  | insert s =>
      have hsource : (s.source.outline w).parts = s.source.parts.map (Part.outline w) := by
        cases s.source with
        | values rows =>
            simp [InsertSource.outline, InsertSource.parts, ValuesRow.outline, List.flatMap_map,
              List.map_flatMap]
        | set assignments => simp [InsertSource.outline, InsertSource.parts]
        | query q => rfl
      simp [Statement.outline, Statement.parts, Insert.outline, Part.outline, hsource]
  | update s => simp [Statement.outline, Statement.parts, Update.outline, Part.outline]
  | delete s => simp [Statement.outline, Statement.parts, Delete.outline, Part.outline]
  | define s =>
      simp [Statement.outline, Statement.parts, Definition.outline, Part.outline]

/-- The tables among the parts of an outline. -/
theorem Part.tables_outline (parts : List Part) :
    Part.tables (parts.map (Part.outline w)) = (Part.tables parts).map (Table.outline w) := by
  induction parts with
  | nil => rfl
  | cons p ps ih => cases p <;> simp [Part.outline, ih]

end Parts

end SqlMarkers
