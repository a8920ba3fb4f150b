/-
SqlMarkers.Proofs.Shift — the same, further on in a text.

`shift n` adds `n` to every offset of a token, a tree, a marker, a scope or a fault, and
leaves names, texts, indices and counts what they are. It goes through everything that is
made from a tree: a finished scope (`Draft.shift_finish`), the nodes of a walk
(`Node.shift_below`) and the markers of a statement (`Statement.shift_allMarkers`). Pieces
of a text are found at shifted offsets behind a text that is `n` bytes wide
(`Text.slice?_shift`, `Text.tailFrom_shift`).
-/
import Mathlib.Data.List.Basic
import SqlMarkers.Parsed

namespace SqlMarkers

/-! ## Pieces of a text -/

namespace Text

theorem utf8Size_le_add_width (c : Char) (cs : List Char) (n : Nat) :
    c.utf8Size ≤ n + width (c :: cs) := by
  rw [width_cons]
  omega

theorem add_width_sub (c : Char) (cs : List Char) (n : Nat) :
    n + width (c :: cs) - c.utf8Size = n + width cs := by
  rw [width_cons]
  omega

theorem dropWidth?_shift (front cs : List Char) (n : Nat) :
    dropWidth? (n + width front) (front ++ cs) = dropWidth? n cs := by
  induction front with
  | nil => rfl
  | cons c front ih =>
      have hpos := c.utf8Size_pos
      obtain ⟨k, hk⟩ : ∃ k, n + width (c :: front) = k + 1 :=
        Nat.exists_eq_add_one.2 (by rw [width_cons]; omega)
      rw [hk, List.cons_append, dropWidth?, ← hk, if_pos (utf8Size_le_add_width c front n),
        add_width_sub, ih]

/-- The text between two offsets stands at shifted offsets behind `front`. -/
theorem slice?_shift (front cs : List Char) (start stop : Nat) :
    slice? (start + width front) (stop + width front) (front ++ cs) = slice? start stop cs := by
  have hwidth : stop + width front - (start + width front) = stop - start := by omega
  simp only [slice?, dropWidth?_shift, hwidth, Nat.add_le_add_iff_right]

theorem tailFrom_shift (front cs : List Char) (n : Nat) :
    tailFrom (n + width front) (front ++ cs) = tailFrom n cs := by
  induction front with
  | nil => rfl
  | cons c front ih =>
      rw [List.cons_append, tailFrom, if_pos (utf8Size_le_add_width c front n), add_width_sub, ih]

end Text

/-! ## Sorted lists -/

namespace Ordered

variable {α : Type} {f : α → α}

theorem insert_map {le : α → α → Bool} (h : ∀ a b, le (f a) (f b) = le a b) (a : α)
    (bs : List α) : insert le (f a) (bs.map f) = (insert le a bs).map f := by
  induction bs with
  | nil => rfl
  | cons b bs ih =>
      rw [List.map_cons, insert, insert, h, ih]
      split <;> rfl

theorem sort_map {le : α → α → Bool} (h : ∀ a b, le (f a) (f b) = le a b) (as : List α) :
    sort le (as.map f) = (sort le as).map f := by
  induction as with
  | nil => rfl
  | cons a as ih => rw [List.map_cons, sort, sort, ih, insert_map h]

theorem distinctFrom_map {same : α → α → Bool} (h : ∀ a b, same (f a) (f b) = same a b) (a : α)
    (bs : List α) : distinctFrom same (f a) (bs.map f) = (distinctFrom same a bs).map f := by
  induction bs generalizing a with
  | nil => rfl
  | cons b bs ih =>
      rw [List.map_cons, distinctFrom, distinctFrom, h, ih, ih]
      split <;> rfl

theorem distinct_map {same : α → α → Bool} (h : ∀ a b, same (f a) (f b) = same a b)
    (as : List α) : distinct same (as.map f) = (distinct same as).map f := by
  cases as with
  | nil => rfl
  | cons a as => exact distinctFrom_map h a as

end Ordered

/-! ## Trees further on -/

section Shift

variable (n : Nat)

/-- A span `n` bytes further on. -/
def Span.shift (s : Span) : Span := ⟨s.start + n, s.stop + n⟩

/-- A token `n` bytes further on. -/
def Token.shift (t : Token) : Token := { t with span := t.span.shift n }

/-- A marker `n` bytes further on. -/
def Marker.shift (m : Marker) : Marker := { m with start := m.start + n }

/-- A name `n` bytes further on. -/
def Ident.shift (i : Ident) : Ident := { i with span := i.span.shift n }

/-- An expression `n` bytes further on. -/
def Expr.shift : Expr → Expr
  | .name ident => .name (ident.shift n)
  | .member owner column span => .member (owner.shift n) column (span.shift n)
  | .placeholder index span => .placeholder index (span.shift n)
  | .number value span => .number value (span.shift n)
  | .text value national span => .text value national (span.shift n)
  | .verbatim kept span => .verbatim kept (span.shift n)

/-- A table `n` bytes further on. -/
def Table.shift (t : Table) : Table := { t with span := t.span.shift n }

/-- A select item `n` bytes further on. -/
def SelectItem.shift : SelectItem → SelectItem
  | .star owner span => .star (owner.map (Ident.shift n)) (span.shift n)
  | .aggregate function argument aliasName span =>
      .aggregate function argument aliasName (span.shift n)
  | .expr e aliasName => .expr (e.shift n) aliasName

/-- An entry of `ORDER BY` or `GROUP BY`, `n` bytes further on. -/
def OrderItem.shift (o : OrderItem) : OrderItem := { o with expr := o.expr.shift n }

/-- A row count or offset `n` bytes further on. -/
def PagingValue.shift : PagingValue → PagingValue
  | .literal value span => .literal value (span.shift n)
  | .placeholder index span => .placeholder index (span.shift n)

/-- A paging clause `n` bytes further on. -/
def Paging.shift (p : Paging) : Paging :=
  { p with offset := p.offset.map (PagingValue.shift n)
           rowCount := p.rowCount.map (PagingValue.shift n) }

mutual

/-- A query `n` bytes further on. -/
def Query.shift : Query → Query
  | ⟨distinct, items, sources, filter, groupBy, having, orderBy, paging, lock, option,
      ⟨tables, markers, parameters, subqueries⟩, span⟩ =>
      { distinct, lock, option
        items := items.map (SelectItem.shift n)
        sources :=
          match sources with
          | some ss => some (TableSource.shiftAll ss)
          | none => none
        filter :=
          match filter with
          | some ⟨cs, span⟩ => some ⟨Condition.shiftAll cs, span.shift n⟩
          | none => none
        groupBy := groupBy.map (OrderItem.shift n)
        having :=
          match having with
          | some ⟨cs, span⟩ => some ⟨Condition.shiftAll cs, span.shift n⟩
          | none => none
        orderBy := orderBy.map (OrderItem.shift n)
        paging := paging.map (Paging.shift n)
        scope := ⟨tables.map (Table.shift n), markers.map (Marker.shift n), parameters,
          Query.shiftAll subqueries⟩
        span := span.shift n }

/-- Queries `n` bytes further on. -/
def Query.shiftAll : List Query → List Query
  | [] => []
  | q :: qs => q.shift :: Query.shiftAll qs

/-- Table sources `n` bytes further on. -/
def TableSource.shiftAll : List TableSource → List TableSource
  | [] => []
  | ⟨factor, joins⟩ :: ss => ⟨factor.shift, Join.shiftAll joins⟩ :: TableSource.shiftAll ss

/-- A table factor `n` bytes further on. -/
def TableFactor.shift : TableFactor → TableFactor
  | .table t => .table (t.shift n)
  | .derived q aliasName span => .derived q.shift aliasName (span.shift n)
  | .group ss => .group (TableSource.shiftAll ss)

/-- Joins `n` bytes further on. -/
def Join.shiftAll : List Join → List Join
  | [] => []
  | ⟨natural, kind, factor, on, columns⟩ :: js =>
      ⟨natural, kind, factor.shift, Condition.shiftAll on, columns⟩ :: Join.shiftAll js

/-- Conditions `n` bytes further on. -/
def Condition.shiftAll : List Condition → List Condition
  | [] => []
  | ⟨connector, p, span⟩ :: cs => ⟨connector, p.shift, span.shift n⟩ :: Condition.shiftAll cs

/-- A predicate `n` bytes further on. -/
def Predicate.shift : Predicate → Predicate
  | .compare left comparison right => .compare (left.shift n) comparison (right.shift n)
  | .inValues left negated values => .inValues (left.shift n) negated (values.map (Expr.shift n))
  | .inQuery left negated q => .inQuery (left.shift n) negated q.shift
  | .between left negated low high => .between (left.shift n) negated (low.shift n) (high.shift n)
  | .isNull left negated => .isNull (left.shift n) negated
  | .like left negated pattern escape =>
      .like (left.shift n) negated (pattern.shift n) (escape.map (Expr.shift n))
  | .existsIn negated q => .existsIn negated q.shift
  | .not p => .not p.shift
  | .group cs => .group (Condition.shiftAll cs)
  | .bare e => .bare (e.shift n)

end

/-- A table source `n` bytes further on. -/
def TableSource.shift (s : TableSource) : TableSource := ⟨s.factor.shift n, Join.shiftAll n s.joins⟩

/-- A join `n` bytes further on. -/
def Join.shift (j : Join) : Join :=
  { j with factor := j.factor.shift n, on := Condition.shiftAll n j.on }

/-- A condition `n` bytes further on. -/
def Condition.shift (c : Condition) : Condition :=
  { c with predicate := c.predicate.shift n, span := c.span.shift n }

/-- A condition clause `n` bytes further on. -/
def ConditionList.shift (c : ConditionList) : ConditionList :=
  ⟨Condition.shiftAll n c.conditions, c.span.shift n⟩

/-- A scope `n` bytes further on. -/
def Scope.shift (s : Scope) : Scope where
  tables := s.tables.map (Table.shift n)
  markers := s.markers.map (Marker.shift n)
  parameters := s.parameters
  subqueries := Query.shiftAll n s.subqueries

/-- An assignment `n` bytes further on. -/
def Assignment.shift (a : Assignment) : Assignment := ⟨a.column.shift n, a.value.shift n⟩

/-- A row of `VALUES`, `n` bytes further on. -/
def ValuesRow.shift (r : ValuesRow) : ValuesRow := ⟨r.values.map (Expr.shift n), r.span.shift n⟩

/-- The source of inserted rows, `n` bytes further on. -/
def InsertSource.shift : InsertSource → InsertSource
  | .values rows => .values (rows.map (ValuesRow.shift n))
  | .set assignments => .set (assignments.map (Assignment.shift n))
  | .query q => .query (q.shift n)

/-- An `INSERT` statement `n` bytes further on. -/
def Insert.shift (s : Insert) : Insert where
  table := s.table.shift n
  columns := s.columns.map (Expr.shift n)
  source := s.source.shift n
  onDuplicate := s.onDuplicate.map (Assignment.shift n)
  scope := s.scope.shift n
  span := s.span.shift n

/-- An `UPDATE` statement `n` bytes further on. -/
def Update.shift (s : Update) : Update where
  table := s.table.shift n
  assignments := s.assignments.map (Assignment.shift n)
  filter := s.filter.map (ConditionList.shift n)
  orderBy := s.orderBy.map (OrderItem.shift n)
  paging := s.paging.map (Paging.shift n)
  scope := s.scope.shift n
  span := s.span.shift n

/-- A `DELETE` statement `n` bytes further on. -/
def Delete.shift (s : Delete) : Delete where
  table := s.table.shift n
  filter := s.filter.map (ConditionList.shift n)
  orderBy := s.orderBy.map (OrderItem.shift n)
  paging := s.paging.map (Paging.shift n)
  scope := s.scope.shift n
  span := s.span.shift n

/-- A definition `n` bytes further on. -/
def Definition.shift (s : Definition) : Definition :=
  { s with tables := s.tables.map (Table.shift n), scope := s.scope.shift n, span := s.span.shift n }

/-- A statement `n` bytes further on. -/
def Statement.shift : Statement → Statement
  | .select q => .select (q.shift n)
  | .insert s => .insert (s.shift n)
  | .update s => .update (s.shift n)
  | .delete s => .delete (s.shift n)
  | .define s => .define (s.shift n)

/-- A fault `n` bytes further on. Some faults have no place. -/
def Fault.shift : Fault → Fault
  | .lexical offset cause => .lexical (offset + n) cause
  | .grammar offset cause => .grammar (offset + n) cause
  | f => f

/-- An owner `n` bytes further on. -/
def Owner.shift (o : Owner) : Owner := { o with start := o.start + n }

/-- A scope in the making, `n` bytes further on. -/
def Draft.shift (d : Draft) : Draft where
  tables := d.tables.map (Table.shift n)
  markers := d.markers.map (Marker.shift n)
  parameters := d.parameters
  subqueries := d.subqueries.map (Query.shift n)
  owners := d.owners.map (Owner.shift n)

end Shift

variable {n : Nat}

/-! ### Clauses and lists -/

theorem Query.shiftAll_eq_map (qs : List Query) : Query.shiftAll n qs = qs.map (Query.shift n) := by
  induction qs with
  | nil => rfl
  | cons q qs ih => rw [Query.shiftAll, ih, List.map_cons]

theorem TableSource.shiftAll_eq_map (ss : List TableSource) :
    TableSource.shiftAll n ss = ss.map (TableSource.shift n) := by
  induction ss with
  | nil => rfl
  | cons s ss ih =>
      obtain ⟨factor, joins⟩ := s
      rw [TableSource.shiftAll, ih, List.map_cons, TableSource.shift]

theorem Join.shiftAll_eq_map (js : List Join) : Join.shiftAll n js = js.map (Join.shift n) := by
  induction js with
  | nil => rfl
  | cons j js ih =>
      obtain ⟨natural, kind, factor, on, columns⟩ := j
      rw [Join.shiftAll, ih, List.map_cons, Join.shift]

theorem Condition.shiftAll_eq_map (cs : List Condition) :
    Condition.shiftAll n cs = cs.map (Condition.shift n) := by
  induction cs with
  | nil => rfl
  | cons c cs ih =>
      obtain ⟨connector, p, span⟩ := c
      rw [Condition.shiftAll, ih, List.map_cons, Condition.shift]

/-- A query further on, clause by clause. -/
theorem Query.shift_eq (q : Query) : q.shift n =
    { q with
      items := q.items.map (SelectItem.shift n)
      sources := q.sources.map (List.map (TableSource.shift n))
      filter := q.filter.map (ConditionList.shift n)
      groupBy := q.groupBy.map (OrderItem.shift n)
      having := q.having.map (ConditionList.shift n)
      orderBy := q.orderBy.map (OrderItem.shift n)
      paging := q.paging.map (Paging.shift n)
      scope := q.scope.shift n
      span := q.span.shift n } := by
  obtain ⟨_, _, sources, filter, _, having, _, _, _, _, ⟨_, _, _, _⟩, _⟩ := q
  rcases sources with _ | ss <;> rcases filter with _ | ⟨_, _⟩ <;> rcases having with _ | ⟨_, _⟩ <;>
    simp [Query.shift, ConditionList.shift, Scope.shift, TableSource.shiftAll_eq_map]

@[simp] theorem Query.shift_scope (q : Query) : (q.shift n).scope = q.scope.shift n := by
  rw [Query.shift_eq]

theorem Statement.shift_scope (s : Statement) : (s.shift n).scope = s.scope.shift n := by
  cases s with
  | select q => exact Query.shift_scope q
  | insert | update | delete | define => rfl

@[simp] theorem Expr.shift_span (e : Expr) : (e.shift n).span = e.span.shift n := by
  cases e <;> rfl

/-! ## Finished scopes -/

namespace Marker

theorem shift_le (a b : Marker) : le (a.shift n) (b.shift n) = le a b := by
  by_cases h : a.start = b.start <;> simp [le, shift, h]

theorem shift_normalize (ms : List Marker) :
    normalize (ms.map (shift n)) = (normalize ms).map (shift n) := by
  have hstart : ∀ a b : Marker, ((a.shift n).start == (b.shift n).start) = (a.start == b.start) := by
    intro a b
    rw [Bool.eq_iff_iff, beq_iff_eq, beq_iff_eq]
    exact Nat.add_right_cancel_iff
  rw [normalize, normalize, Ordered.sort_map shift_le]
  exact Ordered.distinct_map hstart (Ordered.sort le ms)

end Marker

namespace Draft

theorem shift_find? (d : Draft) (o : Owner) :
    (d.shift n).find? (o.shift n) = (d.find? o).map (Table.shift n) :=
  List.find?_map ..

theorem shift_resolve? (d : Draft) (o : Owner) :
    (d.shift n).resolve? (o.shift n) = (d.resolve? o).map (Marker.shift n) := by
  rw [resolve?, shift_find?, resolve?, Option.map_map, Option.map_map]
  rfl

/-- The scope of a statement that ends further on. -/
theorem shift_finish (d : Draft) : (d.shift n).finish = d.finish.shift n := by
  have hmarkers : (d.shift n).markers ++ (d.shift n).owners.filterMap (d.shift n).resolve? =
      (d.markers ++ d.owners.filterMap d.resolve?).map (Marker.shift n) := by
    rw [List.map_append, List.map_filterMap]
    refine congrArg (_ ++ ·) ?_
    change (d.owners.map (Owner.shift n)).filterMap _ = _
    rw [List.filterMap_map]
    exact List.filterMap_congr fun o _ => shift_resolve? d o
  simp only [finish, Scope.shift, hmarkers, Marker.shift_normalize, Query.shiftAll_eq_map]
  rfl

theorem shift_unresolved (d : Draft) :
    (d.shift n).unresolved = d.unresolved.map (Owner.shift n) := by
  have hopen : ∀ o : Owner, ((d.shift n).find? (o.shift n)).isNone = (d.find? o).isNone := by
    intro o
    rw [shift_find?, Option.isNone_map]
  change (d.owners.map (Owner.shift n)).filter _ = _
  rw [List.filter_map, unresolved]
  exact congrArg _ (List.filter_congr fun o _ => hopen o)

end Draft

/-! ## The walk -/

namespace Node

/-- A node `n` bytes further on. -/
def shift (n : Nat) : Node → Node
  | .statement s => .statement (s.shift n)
  | .query q => .query (q.shift n)
  | .insert s => .insert (s.shift n)
  | .update s => .update (s.shift n)
  | .delete s => .delete (s.shift n)
  | .definition s => .definition (s.shift n)
  | .selectItem i => .selectItem (i.shift n)
  | .tableFactor f => .tableFactor (f.shift n)
  | .join j => .join (j.shift n)
  | .condition c => .condition (c.shift n)
  | .predicate p => .predicate (p.shift n)
  | .orderItem o => .orderItem (o.shift n)
  | .paging p => .paging (p.shift n)
  | .assignment a => .assignment (a.shift n)
  | .expr e => .expr (e.shift n)

theorem ofSources_shift (ss : List TableSource) :
    ofSources (ss.map (TableSource.shift n)) = (ofSources ss).map (shift n) := by
  rw [ofSources, ofSources, List.flatMap_map, List.map_flatMap]
  refine List.flatMap_congr fun s _ => ?_
  simp only [TableSource.shift, Join.shiftAll_eq_map, List.map_cons, List.map_map]
  rfl

theorem ofConditions_shift (cs : Option ConditionList) :
    ofConditions (cs.map (ConditionList.shift n)) = (ofConditions cs).map (shift n) := by
  cases cs with
  | none => rfl
  | some cs =>
      simp only [Option.map_some, ofConditions, ConditionList.shift, Condition.shiftAll_eq_map,
        List.map_map]
      rfl

theorem ofPaging_shift (p : Option Paging) :
    ofPaging (p.map (Paging.shift n)) = (ofPaging p).map (shift n) := by
  cases p <;> rfl

theorem ofInsertSource_shift (s : InsertSource) :
    ofInsertSource (s.shift n) = (ofInsertSource s).map (shift n) := by
  cases s with
  | values rows =>
      simp only [InsertSource.shift, ofInsertSource, List.flatMap_map, List.map_flatMap,
        ValuesRow.shift, List.map_map]
      rfl
  | set assignments =>
      simp only [InsertSource.shift, ofInsertSource, List.map_map]
      rfl
  | query q => rfl

theorem ofPredicate_shift (p : Predicate) :
    ofPredicate (p.shift n) = (ofPredicate p).map (shift n) := by
  cases p with
  | inValues left negated values =>
      simp only [Predicate.shift, ofPredicate, List.map_cons, List.map_map]
      rfl
  | like left negated pattern escape => cases escape <;> rfl
  | group cs =>
      simp only [Predicate.shift, ofPredicate, Condition.shiftAll_eq_map, List.map_map]
      rfl
  | _ => rfl

/-- What is right below a node moves on with it. -/
theorem children_shift (m : Node) : (m.shift n).children = m.children.map (shift n) := by
  cases m with
  | statement s => cases s <;> rfl
  | query q =>
      have hsources : (q.sources.map (List.map (TableSource.shift n))).getD [] =
          (q.sources.getD []).map (TableSource.shift n) := by
        cases q.sources <;> rfl
      rw [shift, Query.shift_eq]
      simp only [children, hsources, ofSources_shift, ofConditions_shift, ofPaging_shift, Scope.shift,
        Query.shiftAll_eq_map, List.map_append, List.map_map]
      rfl
  | insert s =>
      simp only [shift, Insert.shift, children, ofInsertSource_shift, Scope.shift,
        Query.shiftAll_eq_map, List.map_append, List.map_map]
      rfl
  | update s =>
      simp only [shift, Update.shift, children, ofConditions_shift, ofPaging_shift, Scope.shift,
        Query.shiftAll_eq_map, List.map_append, List.map_map]
      rfl
  | delete s =>
      simp only [shift, Delete.shift, children, ofConditions_shift, ofPaging_shift, Scope.shift,
        Query.shiftAll_eq_map, List.map_append, List.map_map]
      rfl
  | selectItem i => cases i <;> rfl
  | tableFactor f =>
      cases f with
      | table | derived => rfl
      | group ss =>
          change ofSources (TableSource.shiftAll n ss) = _
          rw [TableSource.shiftAll_eq_map]
          exact ofSources_shift ss
  | join j =>
      simp only [shift, Join.shift, children, Condition.shiftAll_eq_map, List.map_cons, List.map_map]
      rfl
  | predicate p => exact ofPredicate_shift p
  | definition | condition | orderItem | paging | assignment | expr => rfl

/-- The nodes of a walk that starts further on. -/
theorem shift_below (m : Node) : (m.shift n).below = m.below.map (shift n) := by
  induction hsize : sizeOf m using Nat.strongRecOn generalizing m with
  | ind size ih =>
      rw [below_eq, below_eq, List.map_cons, children_shift, List.flatMap_map, List.map_flatMap]
      refine congrArg (_ :: ·) (List.flatMap_congr fun child hchild => ?_)
      exact ih (sizeOf child) (hsize ▸ sizeOf_child hchild) child rfl

theorem shift_ownMarkers (m : Node) :
    (m.shift n).ownMarkers = m.ownMarkers.map (Marker.shift n) := by
  cases m with
  | query q => exact congrArg Scope.markers (Query.shift_scope q)
  | _ => rfl

end Node

/-- The markers of a statement further on. -/
theorem Statement.shift_allMarkers (s : Statement) :
    (s.shift n).allMarkers = s.allMarkers.map (Marker.shift n) := by
  rw [allMarkers, allMarkers, ← Marker.shift_normalize]
  change Marker.normalize (((Node.statement s).shift n).below.flatMap _) = _
  rw [Node.shift_below, List.flatMap_map, List.map_flatMap]
  exact congrArg _ (List.flatMap_congr fun m _ => Node.shift_ownMarkers m)

end SqlMarkers
