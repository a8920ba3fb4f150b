/-
SqlMarkers.Tree.Walk — every node of a statement, depth first.

`Node.children` lists the nodes right below a node in the order of the walk:
the clauses of a statement in source order, then the queries found inside
expressions kept as source text. A definition has no children.

`Node.trace` records the walk as a list of events, going below a node only
where it is told to; `Statement.nodes` lists all nodes in the order they are
entered. Markers and placeholder indices of a whole statement are read off
that list.
-/
import SqlMarkers.Tree

namespace SqlMarkers

/-- A node of a statement. -/
inductive Node where
  | statement (s : Statement)
  | query (q : Query)
  | insert (s : Insert)
  | update (s : Update)
  | delete (s : Delete)
  | definition (s : Definition)
  | selectItem (i : SelectItem)
  | tableFactor (f : TableFactor)
  | join (j : Join)
  | condition (c : Condition)
  | predicate (p : Predicate)
  | orderItem (o : OrderItem)
  | paging (p : Paging)
  | assignment (a : Assignment)
  | expr (e : Expr)

namespace Node

/-! ## One level down -/

/-- The nodes of table sources: each factor, then its joins. -/
def ofSources (ss : List TableSource) : List Node :=
  ss.flatMap fun s => .tableFactor s.factor :: s.joins.map .join

/-- The nodes of a condition clause. -/
def ofConditions : Option ConditionList → List Node
  | some cs => cs.conditions.map .condition
  | none => []

/-- The node of a paging clause. -/
def ofPaging : Option Paging → List Node
  | some p => [.paging p]
  | none => []

/-- The nodes of the source of inserted rows. -/
def ofInsertSource : InsertSource → List Node
  | .values rows => rows.flatMap fun r => r.values.map .expr
  | .set assignments => assignments.map .assignment
  | .query q => [.query q]

/-- The nodes of a predicate. -/
def ofPredicate : Predicate → List Node
  | .compare left _ right => [.expr left, .expr right]
  | .inValues left _ values => .expr left :: values.map .expr
  | .inQuery left _ q => [.expr left, .query q]
  | .between left _ low high => [.expr left, .expr low, .expr high]
  | .isNull left _ => [.expr left]
  | .like left _ pattern escape => [.expr left, .expr pattern] ++ escape.toList.map .expr
  | .existsIn _ q => [.query q]
  | .not p => [.predicate p]
  | .group cs => cs.map .condition
  | .bare e => [.expr e]

/-- The nodes right below a node. -/
def children : Node → List Node
  | .statement (.select s) => [.query s]
  | .statement (.insert s) => [.insert s]
  | .statement (.update s) => [.update s]
  | .statement (.delete s) => [.delete s]
  | .statement (.define s) => [.definition s]
  | .query q =>
      q.items.map .selectItem ++ ofSources (q.sources.getD []) ++ ofConditions q.filter ++
        q.groupBy.map .orderItem ++ ofConditions q.having ++ q.orderBy.map .orderItem ++
        ofPaging q.paging ++ q.scope.subqueries.map .query
  | .insert s =>
      s.columns.map .expr ++ ofInsertSource s.source ++ s.onDuplicate.map .assignment ++
        s.scope.subqueries.map .query
  | .update s =>
      s.assignments.map .assignment ++ ofConditions s.filter ++ s.orderBy.map .orderItem ++
        ofPaging s.paging ++ s.scope.subqueries.map .query
  | .delete s =>
      ofConditions s.filter ++ s.orderBy.map .orderItem ++ ofPaging s.paging ++
        s.scope.subqueries.map .query
  | .definition _ => []
  | .selectItem (.expr e _) => [.expr e]
  | .selectItem (.star _ _) => []
  | .selectItem (.aggregate _ _ _ _) => []
  | .tableFactor (.table _) => []
  | .tableFactor (.derived q _ _) => [.query q]
  | .tableFactor (.group ss) => ofSources ss
  | .join j => .tableFactor j.factor :: j.on.map .condition
  | .condition c => [.predicate c.predicate]
  | .predicate p => ofPredicate p
  | .orderItem o => [.expr o.expr]
  | .paging _ => []
  | .assignment a => [.expr a.column, .expr a.value]
  | .expr _ => []

/-! ## The walk ends -/

theorem sizeOf_mem_map {α : Type} [SizeOf α] {f : α → Node} (hf : ∀ x, sizeOf (f x) = 1 + sizeOf x)
    {xs : List α} {n : Node} (h : n ∈ xs.map f) : sizeOf n < 1 + sizeOf xs := by
  obtain ⟨x, hx, rfl⟩ := List.mem_map.1 h
  have := List.sizeOf_lt_of_mem hx
  rw [hf]
  omega

theorem sizeOf_mem_ofSources {ss : List TableSource} {n : Node} (h : n ∈ ofSources ss) :
    sizeOf n < 1 + sizeOf ss := by
  simp only [ofSources, List.mem_flatMap, List.mem_cons] at h
  obtain ⟨⟨f, js⟩, hs, rfl | hj⟩ := h
  · have := List.sizeOf_lt_of_mem hs
    simp at this ⊢
    omega
  · have := List.sizeOf_lt_of_mem hs
    have := sizeOf_mem_map (fun _ => by simp) hj
    simp at *
    omega

theorem sizeOf_mem_ofConditions {o : Option ConditionList} {n : Node}
    (h : n ∈ ofConditions o) : sizeOf n < 1 + sizeOf o := by
  match o with
  | none => simp [ofConditions] at h
  | some ⟨cs, span⟩ =>
      have := sizeOf_mem_map (fun _ => by simp) h
      simp at *
      omega

theorem sizeOf_mem_ofPaging {o : Option Paging} {n : Node} (h : n ∈ ofPaging o) :
    sizeOf n < 1 + sizeOf o := by
  cases o <;> simp_all [ofPaging]

theorem sizeOf_mem_ofInsertSource {s : InsertSource} {n : Node} (h : n ∈ ofInsertSource s) :
    sizeOf n < 1 + sizeOf s := by
  cases s with
  | values rows =>
      simp only [ofInsertSource, List.mem_flatMap] at h
      obtain ⟨⟨values, span⟩, hr, hv⟩ := h
      have := List.sizeOf_lt_of_mem hr
      have := sizeOf_mem_map (fun _ => by simp) hv
      simp at *
      omega
  | set assignments =>
      have := sizeOf_mem_map (fun _ => by simp) h
      simp
      omega
  | query q => simp_all [ofInsertSource]

theorem sizeOf_mem_ofPredicate {p : Predicate} {n : Node} (h : n ∈ ofPredicate p) :
    sizeOf n < 1 + sizeOf p := by
  cases p with
  | inValues left negated values =>
      simp only [ofPredicate, List.mem_cons] at h
      rcases h with rfl | h
      · simp
        omega
      · have := sizeOf_mem_map (fun _ => by simp) h
        simp
        omega
  | like left negated pattern escape =>
      cases escape <;> simp_all [ofPredicate] <;> rcases h with rfl | rfl | rfl <;> simp <;> omega
  | group cs =>
      have := sizeOf_mem_map (fun _ => by simp) h
      simp
      omega
  | _ =>
      simp [ofPredicate] at h
      grind

/-- A node is larger than the nodes right below it. -/
theorem sizeOf_child {n m : Node} (h : m ∈ n.children) : sizeOf m < sizeOf n := by
  match n with
  | .statement s => cases s <;> simp_all [children]
  | .query ⟨_, items, sources, filter, groupBy, having, orderBy, page, _, _,
      ⟨_, _, _, subqueries⟩, _⟩ =>
      simp only [children, List.mem_append] at h
      rcases h with ((((((h | h) | h) | h) | h) | h) | h) | h
      · have := sizeOf_mem_map (fun _ => by simp) h
        simp
        omega
      · have := sizeOf_mem_ofSources h
        cases sources <;> simp at * <;> omega
      · have := sizeOf_mem_ofConditions h
        simp
        omega
      · have := sizeOf_mem_map (fun _ => by simp) h
        simp
        omega
      · have := sizeOf_mem_ofConditions h
        simp
        omega
      · have := sizeOf_mem_map (fun _ => by simp) h
        simp
        omega
      · have := sizeOf_mem_ofPaging h
        simp
        omega
      · have := sizeOf_mem_map (fun _ => by simp) h
        simp
        omega
  | .insert ⟨_, columns, source, onDuplicate, ⟨_, _, _, subqueries⟩, _⟩ =>
      simp only [children, List.mem_append] at h
      rcases h with ((h | h) | h) | h
      · have := sizeOf_mem_map (fun _ => by simp) h
        simp
        omega
      · have := sizeOf_mem_ofInsertSource h
        simp
        omega
      · have := sizeOf_mem_map (fun _ => by simp) h
        simp
        omega
      · have := sizeOf_mem_map (fun _ => by simp) h
        simp
        omega
  | .update ⟨_, assignments, filter, orderBy, page, ⟨_, _, _, subqueries⟩, _⟩ =>
      simp only [children, List.mem_append] at h
      rcases h with (((h | h) | h) | h) | h
      · have := sizeOf_mem_map (fun _ => by simp) h
        simp
        omega
      · have := sizeOf_mem_ofConditions h
        simp
        omega
      · have := sizeOf_mem_map (fun _ => by simp) h
        simp
        omega
      · have := sizeOf_mem_ofPaging h
        simp
        omega
      · have := sizeOf_mem_map (fun _ => by simp) h
        simp
        omega
  | .delete ⟨_, filter, orderBy, page, ⟨_, _, _, subqueries⟩, _⟩ =>
      simp only [children, List.mem_append] at h
      rcases h with ((h | h) | h) | h
      · have := sizeOf_mem_ofConditions h
        simp
        omega
      · have := sizeOf_mem_map (fun _ => by simp) h
        simp
        omega
      · have := sizeOf_mem_ofPaging h
        simp
        omega
      · have := sizeOf_mem_map (fun _ => by simp) h
        simp
        omega
  | .definition _ => simp [children] at h
  | .selectItem i =>
      cases i <;> simp_all [children]
      omega
  | .tableFactor f =>
      cases f with
      | table t => simp [children] at h
      | derived q as span => simp_all [children]; omega
      | group ss =>
          have := sizeOf_mem_ofSources h
          simp
          omega
  | .join ⟨_, _, factor, on, _⟩ =>
      simp only [children, List.mem_cons] at h
      rcases h with rfl | h
      · simp
        omega
      · have := sizeOf_mem_map (fun _ => by simp) h
        simp
        omega
  | .condition ⟨_, p, _⟩ => simp_all [children]; omega
  | .predicate p =>
      have := sizeOf_mem_ofPredicate h
      simp
      omega
  | .orderItem ⟨e, _, _⟩ => simp_all [children]; omega
  | .paging _ => simp [children] at h
  | .assignment ⟨c, v⟩ =>
      simp only [children, List.mem_cons, List.not_mem_nil, or_false] at h
      rcases h with rfl | rfl <;>
        simp only [assignment.sizeOf_spec, expr.sizeOf_spec, Assignment.mk.sizeOf_spec] <;> omega
  | .expr _ => simp [children] at h

/-! ## The walk -/

end Node

/-- What happens on a walk. -/
inductive Event where
  | enter (node : Node)
  | leave (node : Node)

namespace Node

/-- The events of a walk from `n` on. It goes below the nodes that `descend`
approves, and enters and leaves the others only. -/
def trace (descend : Node → Bool) (n : Node) : List Event :=
  .enter n ::
    ((if descend n then n.children.attach.flatMap fun ⟨m, _⟩ => trace descend m else []) ++
      [.leave n])
termination_by sizeOf n
decreasing_by exact sizeOf_child (by assumption)

/-- The nodes from `n` on, in the order they are entered. -/
def below (n : Node) : List Node :=
  n :: n.children.attach.flatMap fun ⟨m, _⟩ => below m
termination_by sizeOf n
decreasing_by exact sizeOf_child (by assumption)

theorem trace_eq (descend : Node → Bool) (n : Node) :
    n.trace descend =
      .enter n :: ((if descend n then n.children.flatMap (trace descend) else []) ++ [.leave n]) := by
  rw [trace]
  simp [List.flatMap_subtype]

theorem below_eq (n : Node) : n.below = n :: n.children.flatMap below := by
  rw [below]
  simp [List.flatMap_subtype]

/-- The scope of a node that is a statement. -/
def scope? : Node → Option Scope
  | .statement s => some s.scope
  | .query q => some q.scope
  | .insert s => some s.scope
  | .update s => some s.scope
  | .delete s => some s.scope
  | .definition s => some s.scope
  | _ => none

/-- The markers that a node contributes. A statement wraps the node that holds
its markers and contributes none itself. -/
def ownMarkers : Node → List Marker
  | .statement _ => []
  | n => (n.scope?.map Scope.markers).getD []

/-- The placeholder indices that a node contributes. -/
def ownPlaceholders : Node → List Nat
  | .expr (.placeholder index _) => [index]
  | .paging p => (p.offset.toList ++ p.rowCount.toList).flatMap fun
      | .placeholder index _ => [index]
      | .literal _ _ => []
  | _ => []

end Node

namespace Statement

/-- Every node of a statement, in the order of the walk. -/
def nodes (s : Statement) : List Node := (Node.statement s).below

/-- The markers of a statement and of all queries in it that the walk meets. -/
def allMarkers (s : Statement) : List Marker :=
  Marker.normalize (s.nodes.flatMap Node.ownMarkers)

/-- The indices of the placeholders that are nodes of their own, ascending. -/
def placeholders (s : Statement) : List Nat :=
  Ordered.sort Nat.ble (s.nodes.flatMap Node.ownPlaceholders)

end Statement

end SqlMarkers
