/-
SqlMarkers.Proofs.Coverage — which markers of a tree the walk collects.

A marker belongs to the scope of the statement or to that of a query in it, at
any depth (`Statement.blocks`). The walk goes down to every one of these queries,
wherever it hangs, except below a definition: a definition has no children, so
the queries of its scope are never met. `complete_iff_of_parse` is the exact
condition: all markers are collected unless the statement is a definition
and a query in it holds a marker.
-/
import SqlMarkers.Proofs.Markers

namespace SqlMarkers

/-- Every marker that a scope of the tree holds is a marker of the statement. -/
def Parsed.Complete (p : Parsed) : Prop :=
  ∀ b ∈ p.statement.blocks, ∀ m ∈ b.scope.markers, m ∈ p.markers

instance (p : Parsed) : Decidable p.Complete :=
  inferInstanceAs (Decidable (∀ b ∈ p.statement.blocks, ∀ m ∈ b.scope.markers, m ∈ p.markers))

/-- Outside of definitions the walk meets every block. -/
theorem Statement.visited_eq_blocks {st : Statement} (h : ∀ d, st ≠ .define d) :
    st.visited = st.blocks := by
  cases st with
  | define d => exact absurd rfl (h d)
  | select _ | insert _ | update _ | delete _ => rfl

/-- The markers of a parsed statement are those of the blocks that the walk meets. -/
theorem Parsed.WellMarked.mem_markers_iff {p : Parsed} {dialect : Dialect} {source : String}
    (h : p.WellMarked dialect source) (m : Marker) :
    m ∈ p.markers ↔ m ∈ Block.markersOf p.statement.visited := by
  rw [h.merged.mem_iff, Statement.collected_eq]

/-- A marker of a query in a definition is none of its own markers: no place is
marked in two scopes. -/
theorem Parsed.WellMarked.not_mem_own {p : Parsed} {dialect : Dialect} {source : String}
    (h : p.WellMarked dialect source) {q : Query} (hq : q ∈ p.statement.nested) {m : Marker}
    (hm : m ∈ q.scope.markers) : m ∉ p.statement.scope.markers := by
  intro hown
  have hnodup := h.once
  rw [Statement.blocks, List.flatMap_cons] at hnodup
  refine (List.nodup_append.1 hnodup).2.2 m.start (List.mem_map_of_mem hown) m.start ?_ rfl
  rw [List.flatMap_map]
  exact List.mem_flatMap.2 ⟨q, hq, List.mem_map_of_mem hm⟩

/-- All markers are collected, unless the statement is a definition and a query in
it holds a marker. -/
theorem complete_iff_of_parse {config : Config} {catalogue : Catalogue} {source : String}
    {p : Parsed} (h : parse config catalogue source = .ok p) :
    p.Complete ↔
      ∀ d, p.statement = .define d → ∀ q ∈ p.statement.nested, q.scope.markers = [] := by
  obtain ⟨-, hmarkers, r, hrun⟩ := parse_ok h
  obtain ⟨c, log, r₁, hrec, -⟩ := Setting.exists_record hrun
  have hwell := hrec.wellMarked hmarkers
  constructor
  · intro hcomplete d hd q hq
    rw [List.eq_nil_iff_forall_not_mem]
    intro m hm
    have hblock : (⟨q.scope, q.span⟩ : Block) ∈ p.statement.blocks :=
      List.mem_cons_of_mem _ (List.mem_map_of_mem hq)
    have hcollected := (hwell.mem_markers_iff m).1 (hcomplete _ hblock m hm)
    refine hwell.not_mem_own hq hm ?_
    rw [hd, Statement.visited, Block.markersOf, List.flatMap_singleton] at hcollected
    rwa [hd]
  · intro hempty b hb m hm
    rw [hwell.mem_markers_iff]
    by_cases hdefine : ∃ d, p.statement = .define d
    · obtain ⟨d, hd⟩ := hdefine
      rcases List.mem_cons.1 hb with rfl | hb
      · rw [hd] at hm ⊢
        exact List.mem_flatMap.2 ⟨_, List.mem_singleton_self _, hm⟩
      · obtain ⟨q, hq, rfl⟩ := List.mem_map.1 hb
        have hnone := hempty d hd q hq
        change m ∈ q.scope.markers at hm
        rw [hnone] at hm
        cases hm
    · rw [Statement.visited_eq_blocks fun d hd => hdefine ⟨d, hd⟩]
      exact List.mem_flatMap.2 ⟨b, hb, hm⟩

/-- Queries in each place that can hold one. -/
theorem complete_insert : ∃ p,
    parse {} Catalogue.everyName
      "INSERT INTO t SELECT a FROM (SELECT b FROM u) v WHERE f((SELECT c FROM w)) IN (SELECT d FROM x)"
        = .ok p ∧ p.Complete := by
  obtain ⟨p, h, hkind⟩ : ∃ p,
      parse {} Catalogue.everyName
        "INSERT INTO t SELECT a FROM (SELECT b FROM u) v WHERE f((SELECT c FROM w)) IN (SELECT d FROM x)"
          = .ok p ∧ p.statement.kindName = "insert" :=
    exists_of_any (by decide +kernel)
  refine ⟨p, h, (complete_iff_of_parse h).2 fun d hd => ?_⟩
  rw [hd, Statement.kindName] at hkind
  exact absurd hkind (by decide)

/-- The table of a query in the check of a definition is not collected. -/
theorem incomplete_define : ∃ p,
    parse {} Catalogue.everyName "CREATE TABLE t (a int, CHECK (a IN (SELECT b FROM u)))" = .ok p ∧
      ¬p.Complete :=
  exists_of_any (by decide +kernel)

end SqlMarkers
