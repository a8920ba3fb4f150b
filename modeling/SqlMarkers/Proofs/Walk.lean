/-
SqlMarkers.Proofs.Walk — which scopes the walk over a statement meets.

The walk enters the nodes of a statement one level at a time
(`Node.children`), while `Statement.nested` goes through the tree by its
types. Both list the queries of a query in the same order
(`Query.markersBelow_eq`), so the markers that the walk collects from a
statement are those of its blocks (`Statement.collected_eq`), unless it is a
definition: the walk does not go below a definition, and collects the markers
of its own scope only (`Statement.visited`).
-/
import SqlMarkers.Proofs.Nested
import SqlMarkers.Tree.Walk

namespace SqlMarkers

/-- The markers of the scopes of queries. -/
def Query.markersOf (qs : List Query) : List Marker := qs.flatMap fun q => q.scope.markers

/-- The markers that the walk collects from a node on. -/
def Node.markersBelow (n : Node) : List Marker := n.below.flatMap Node.ownMarkers

namespace Node

theorem markersBelow_eq (n : Node) :
    n.markersBelow = n.ownMarkers ++ n.children.flatMap markersBelow := by
  unfold markersBelow
  rw [below_eq, List.flatMap_cons, List.flatMap_assoc]

@[simp] theorem markersBelow_expr (e : Expr) : (Node.expr e).markersBelow = [] := by
  rw [markersBelow_eq]
  rfl

@[simp] theorem markersBelow_selectItem (i : SelectItem) : (Node.selectItem i).markersBelow = [] := by
  rw [markersBelow_eq]
  cases i <;> simp [ownMarkers, scope?, children]

@[simp] theorem markersBelow_orderItem (o : OrderItem) : (Node.orderItem o).markersBelow = [] := by
  rw [markersBelow_eq]
  simp [ownMarkers, scope?, children]

@[simp] theorem markersBelow_assignment (a : Assignment) :
    (Node.assignment a).markersBelow = [] := by
  rw [markersBelow_eq]
  simp [ownMarkers, scope?, children]

@[simp] theorem markersBelow_paging (p : Paging) : (Node.paging p).markersBelow = [] := by
  rw [markersBelow_eq]
  rfl

@[simp] theorem flatMap_ofPaging (p : Option Paging) :
    (ofPaging p).flatMap markersBelow = [] := by
  cases p <;> simp [ofPaging]

theorem flatMap_map_eq_nil {α : Type} {f : α → Node} (hf : ∀ a, (f a).markersBelow = [])
    (as : List α) : (as.map f).flatMap markersBelow = [] := by
  rw [List.flatMap_eq_nil_iff]
  intro n hn
  obtain ⟨a, -, rfl⟩ := List.mem_map.1 hn
  exact hf a

end Node

@[simp] theorem Query.markersOf_nil : Query.markersOf [] = [] := rfl

@[simp] theorem Query.markersOf_cons (q : Query) (qs : List Query) :
    Query.markersOf (q :: qs) = q.scope.markers ++ Query.markersOf qs := List.flatMap_cons

@[simp] theorem Query.markersOf_append (as bs : List Query) :
    Query.markersOf (as ++ bs) = Query.markersOf as ++ Query.markersOf bs := List.flatMap_append

mutual

/-- The walk below a query meets the queries inside it, in the order of
`Query.nested`. -/
theorem Query.markersBelow_eq :
    ∀ q : Query, (Node.query q).markersBelow = q.scope.markers ++ Query.markersOf q.nested
  | ⟨distinct, items, sources, filter, groupBy, having, orderBy, paging, lock, option,
      ⟨tables, markers, parameters, subqueries⟩, span⟩ => by
      have hitems := Node.flatMap_map_eq_nil Node.markersBelow_selectItem items
      have hgroup := Node.flatMap_map_eq_nil Node.markersBelow_orderItem groupBy
      have horder := Node.flatMap_map_eq_nil Node.markersBelow_orderItem orderBy
      have hsources : (Node.ofSources (sources.getD [])).flatMap Node.markersBelow =
          Query.markersOf (TableSource.nestedIn (sources.getD [])) := by
        match sources with
        | none => rfl
        | some ss => exact TableSource.markersIn_eq ss
      have hfilter : (Node.ofConditions filter).flatMap Node.markersBelow =
          Query.markersOf (ConditionList.nestedIn filter) := by
        match filter with
        | none => rfl
        | some ⟨cs, _⟩ => exact Condition.markersIn_eq cs
      have hhaving : (Node.ofConditions having).flatMap Node.markersBelow =
          Query.markersOf (ConditionList.nestedIn having) := by
        match having with
        | none => rfl
        | some ⟨cs, _⟩ => exact Condition.markersIn_eq cs
      have hsub := Query.markersIn_eq subqueries
      rw [Node.markersBelow_eq, Query.nested_clauses]
      simp [Node.ownMarkers, Node.scope?, Node.children, hitems, hgroup, horder,
        hsources, hfilter, hhaving, hsub]

theorem Query.markersIn_eq : ∀ qs : List Query,
    (qs.map Node.query).flatMap Node.markersBelow = Query.markersOf (Query.nestedIn qs)
  | [] => rfl
  | q :: qs => by
      rw [List.map_cons, List.flatMap_cons, Query.markersBelow_eq q, Query.markersIn_eq qs,
        Query.nestedIn]
      simp

theorem TableSource.markersIn_eq : ∀ ss : List TableSource,
    (Node.ofSources ss).flatMap Node.markersBelow = Query.markersOf (TableSource.nestedIn ss)
  | [] => rfl
  | ⟨factor, joins⟩ :: ss => by
      have hrest := TableSource.markersIn_eq ss
      rw [Node.ofSources] at hrest ⊢
      rw [List.flatMap_cons, List.flatMap_append, hrest, List.flatMap_cons,
        TableFactor.markersBelow_eq factor, Join.markersIn_eq joins, TableSource.nestedIn]
      simp

theorem TableFactor.markersBelow_eq :
    ∀ f : TableFactor, (Node.tableFactor f).markersBelow = Query.markersOf f.nested
  | .table _ => by
      rw [Node.markersBelow_eq]
      rfl
  | .derived q _ _ => by
      rw [Node.markersBelow_eq, Node.children, List.flatMap_singleton, Query.markersBelow_eq q,
        TableFactor.nested]
      simp [Node.ownMarkers, Node.scope?]
  | .group ss => by
      rw [Node.markersBelow_eq, Node.children, TableSource.markersIn_eq ss, TableFactor.nested]
      rfl

theorem Join.markersIn_eq : ∀ js : List Join,
    (js.map Node.join).flatMap Node.markersBelow = Query.markersOf (Join.nestedIn js)
  | [] => rfl
  | ⟨_, _, factor, on, _⟩ :: js => by
      rw [List.map_cons, List.flatMap_cons, Node.markersBelow_eq, Node.children,
        List.flatMap_cons, TableFactor.markersBelow_eq factor, Condition.markersIn_eq on,
        Join.markersIn_eq js, Join.nestedIn]
      simp [Node.ownMarkers, Node.scope?]

theorem Condition.markersIn_eq : ∀ cs : List Condition,
    (cs.map Node.condition).flatMap Node.markersBelow = Query.markersOf (Condition.nestedIn cs)
  | [] => rfl
  | ⟨_, p, _⟩ :: cs => by
      rw [List.map_cons, List.flatMap_cons, Node.markersBelow_eq, Node.children,
        List.flatMap_singleton, Predicate.markersBelow_eq p, Condition.markersIn_eq cs,
        Condition.nestedIn]
      simp [Node.ownMarkers, Node.scope?]

theorem Predicate.markersBelow_eq :
    ∀ p : Predicate, (Node.predicate p).markersBelow = Query.markersOf p.nested
  | .inQuery left _ q => by
      rw [Node.markersBelow_eq, Node.children, Node.ofPredicate, List.flatMap_cons,
        List.flatMap_singleton, Query.markersBelow_eq q, Predicate.nested]
      simp [Node.ownMarkers, Node.scope?]
  | .existsIn _ q => by
      rw [Node.markersBelow_eq, Node.children, Node.ofPredicate, List.flatMap_singleton,
        Query.markersBelow_eq q, Predicate.nested]
      simp [Node.ownMarkers, Node.scope?]
  | .not p => by
      rw [Node.markersBelow_eq, Node.children, Node.ofPredicate, List.flatMap_singleton,
        Predicate.markersBelow_eq p, Predicate.nested]
      rfl
  | .group cs => by
      rw [Node.markersBelow_eq, Node.children, Node.ofPredicate, Condition.markersIn_eq cs,
        Predicate.nested]
      rfl
  | .compare _ _ _ | .between _ _ _ _ | .isNull _ _ | .bare _ => by
      rw [Node.markersBelow_eq]
      simp [Node.ownMarkers, Node.scope?, Node.children, Node.ofPredicate, Predicate.nested]
  | .inValues left _ values => by
      have hvalues := Node.flatMap_map_eq_nil Node.markersBelow_expr values
      rw [Node.markersBelow_eq]
      simp [Node.ownMarkers, Node.scope?, Node.children, Node.ofPredicate, Predicate.nested,
        hvalues]
  | .like left _ pattern escape => by
      rw [Node.markersBelow_eq]
      cases escape <;>
        simp [Node.ownMarkers, Node.scope?, Node.children, Node.ofPredicate, Predicate.nested]

end

/-- The blocks that the walk over a statement meets. -/
def Statement.visited : Statement → List Block
  | .define d => [⟨d.scope, d.span⟩]
  | s => s.blocks

/-- The markers of blocks. -/
def Block.markersOf (bs : List Block) : List Marker := bs.flatMap fun b => b.scope.markers

theorem Block.markersOf_blocks (s : Statement) :
    Block.markersOf s.blocks = s.scope.markers ++ Query.markersOf s.nested := by
  rw [Block.markersOf, Statement.blocks, List.flatMap_cons, List.flatMap_map]
  rfl

/-- The walk collects the markers of the blocks that it meets. -/
theorem Statement.collected_eq (s : Statement) :
    s.nodes.flatMap Node.ownMarkers = Block.markersOf s.visited := by
  show (Node.statement s).markersBelow = _
  have hconditions (clause : Option ConditionList) :
      (Node.ofConditions clause).flatMap Node.markersBelow =
        Query.markersOf (ConditionList.nestedIn clause) := by
    cases clause with
    | none => rfl
    | some clause => exact Condition.markersIn_eq clause.conditions
  have horder := Node.flatMap_map_eq_nil Node.markersBelow_orderItem
  have hassign := Node.flatMap_map_eq_nil Node.markersBelow_assignment
  have hexpr := Node.flatMap_map_eq_nil Node.markersBelow_expr
  rw [Node.markersBelow_eq]
  cases s with
  | select q =>
      rw [Node.children, List.flatMap_singleton, Query.markersBelow_eq]
      exact (Block.markersOf_blocks (.select q)).symm
  | insert s =>
      have hsource : (Node.ofInsertSource s.source).flatMap Node.markersBelow =
          Query.markersOf s.source.nested := by
        cases s.source with
        | values rows =>
            simp [Node.ofInsertSource, InsertSource.nested, List.flatMap_assoc, hexpr]
        | set assignments => simp [Node.ofInsertSource, InsertSource.nested, hassign]
        | query q => simp [Node.ofInsertSource, InsertSource.nested, Query.markersBelow_eq]
      rw [Node.children, List.flatMap_singleton, Node.markersBelow_eq]
      refine Eq.trans ?_ (Block.markersOf_blocks (.insert s)).symm
      simp [Node.ownMarkers, Node.scope?, Node.children, Statement.scope, Statement.nested,
        hexpr, hassign, hsource, Query.markersIn_eq]
  | update s =>
      rw [Node.children, List.flatMap_singleton, Node.markersBelow_eq]
      refine Eq.trans ?_ (Block.markersOf_blocks (.update s)).symm
      simp [Node.ownMarkers, Node.scope?, Node.children, Statement.scope, Statement.nested,
        hassign, hconditions, horder, Query.markersIn_eq]
  | delete s =>
      rw [Node.children, List.flatMap_singleton, Node.markersBelow_eq]
      refine Eq.trans ?_ (Block.markersOf_blocks (.delete s)).symm
      simp [Node.ownMarkers, Node.scope?, Node.children, Statement.scope, Statement.nested,
        hconditions, horder, Query.markersIn_eq]
  | define s =>
      rw [Node.children, List.flatMap_singleton, Node.markersBelow_eq]
      simp [Node.ownMarkers, Node.scope?, Node.children, Statement.visited, Block.markersOf]

end SqlMarkers
