/-
SqlMarkers.Proofs.Shape — the shape of parsed statements.

The trees that readers make (`Reader.Makes`) are built in one way (`Statement.isBuilt`): where
a list cannot be empty it is not, the conditions of a list are joined by words and the first one
is not, a join has `ON` or `USING` or neither, and a paging clause has the values that its form
is written with. Down the tower of nested readers this holds of every tree
(`Inner.shapes_upTo`), so the statement that a text is parsed as has this shape, within the
nesting limit (`isShaped_of_parse`).

Whether a parsed statement is legible is then a question about its leaves alone.
-/
import SqlMarkers.Proofs.Legible
import SqlMarkers.Proofs.Markers

namespace SqlMarkers

/-! ## Trees without a look at their leaves -/

/-- No leaf is looked at. -/
def Leaf.any : Leaf → Bool := fun _ => true

@[simp] theorem Leaf.any_eq (leaf : Leaf) : Leaf.any leaf = true := rfl

/-- The statement has the shape that readers give, with at most `n` levels of nesting. -/
def Statement.isShaped (n : Nat) (s : Statement) : Bool := s.isBuilt (fun _ => Leaf.any) n

/-- What the nested readers give has the shape that is due one level down. -/
structure Inner.Shapes (below : Below) (inner : Inner) : Prop where
  query : Reader.Makes (below.query · = true) inner.query
  predicate : Reader.Makes (below.predicate · = true) inner.predicate
  group : Reader.Makes (below.group · = true) inner.group
  sources : Reader.Makes (below.sources · = true) inner.sources

theorem Inner.Shapes.embed {below : Below} {inner : Inner} (h : inner.Shapes below) :
    Reader.Makes (below.query · = true) inner.embed := by
  intro r q r' hembed
  unfold Yields Inner.embed at hembed
  split at hembed
  · cases hembed
  · rename_i q' r₁ hquery
    cases hembed
    exact h.query _ q r₁ hquery

namespace Reader

variable {env : Setting} {below : Below} {inner : Inner}

/-! ## Conditions -/

/-- Behind `IN` there is a query or at least one value. -/
theorem membership_makes (hin : inner.Shapes below) (left : Expr) (negated : Bool) :
    Makes (·.isBuilt Leaf.any below = true) (membership env inner left negated) := by
  refine .after fun opening => .after fun select => ?_
  split
  · exact .bind hin.embed fun q hq => .after fun _ => .pure (by simpa [Predicate.isBuilt] using hq)
  · refine .bind (.commaSeparated .any) fun values hvalues => .after fun _ => .pure ?_
    simp [Predicate.isBuilt, hvalues.1]

theorem nullTest_makes (left : Expr) :
    Makes (·.isBuilt Leaf.any below = true) (nullTest env inner left) := by
  refine .after fun negated => .after fun null => ?_
  split
  · exact .pure rfl
  · exact .after fun _ => .after fun e => .pure rfl

theorem matching_makes (hin : inner.Shapes below) (left : Expr) :
    Makes (·.isBuilt Leaf.any below = true) (matching env inner left) := by
  refine .after fun negated => .after fun t => ?_
  split
  · exact .after fun _ => membership_makes hin left negated
  · exact .after fun _ => .after fun low => .after fun _ => .after fun high => .pure rfl
  · refine .after fun _ => .after fun pattern => .after fun escaped => ?_
    split
    · exact .after fun escape => .pure rfl
    · exact .pure rfl
  · split
    · exact .after fun _ => .after fun _ => .after fun e => .pure rfl
    · split
      · exact .failExpected
      · exact .pure rfl

/-- A predicate with an operand has all the parts of its form. -/
theorem operandPredicate_makes (hin : inner.Shapes below) :
    Makes (·.isBuilt Leaf.any below = true) (operandPredicate env inner) := by
  refine .after fun left => .after fun t => ?_
  split
  · exact .after fun _ => .after fun right => .pure rfl
  · split
    · exact .after fun _ => nullTest_makes left
    · exact matching_makes hin left

/-- A group that is given up is none. -/
theorem attemptGroup_makes (hin : inner.Shapes below) :
    Makes (fun cs => cs.all below.group = true) (attemptGroup env inner) := by
  intro r cs r' h
  unfold Yields attemptGroup at h
  split at h
  · rename_i cs' r₁ hgroup
    split at h
    · cases h
      exact hin.group r cs' r₁ hgroup
    · cases h
      rfl
    · cases h
  · split at h
    · cases h
      rfl
    · cases h

/-- `NOT EXISTS` is one predicate and not a negated one, but is tested for as one. -/
theorem isBuilt_negate {p : Predicate} (h : below.predicate p = true) :
    (negate p).isBuilt Leaf.any below = true := by
  unfold negate
  split <;> exact h

theorem predicate_makes (hin : inner.Shapes below) :
    Makes (·.isBuilt Leaf.any below = true) (predicate env inner) := by
  refine .after fun t => ?_
  split
  · exact .after fun _ => .bind hin.predicate fun p hp => .pure (isBuilt_negate hp)
  · refine .after fun _ => .after fun opening => .after fun select => ?_
    have hquery : Makes (·.isBuilt Leaf.any below = true) (do
        let q ← inner.embed
        close opening
        return Predicate.existsIn false q) :=
      .bind hin.embed fun q hq => .after fun _ => .pure hq
    split
    · exact .after fun _ => hquery
    · exact hquery
  · refine .after fun ahead => ?_
    split
    · exact operandPredicate_makes hin
    · refine .bind (attemptGroup_makes hin) fun found hfound => ?_
      split
      · exact .pure hfound
      · exact operandPredicate_makes hin
  · exact operandPredicate_makes hin

/-- Each condition carries the word in front of it, which only the first one has not. -/
theorem conditions_makes (hin : inner.Shapes below) :
    Makes (conditionsBuilt Leaf.any below · = true) (conditions env inner) := by
  refine .repeating (fun pending => (pending.1 = .first ∧ pending.2 = []) ∨
    (pending.1 ≠ .first ∧ conditionsBuilt Leaf.any below pending.2 = true)) (.inl ⟨rfl, rfl⟩) ?_
  rintro ⟨connector, done⟩ hpending
  refine .after fun start => .bind (predicate_makes hin) fun p hp => .after fun stop => ?_
  have hdone : conditionsBuilt Leaf.any below (done ++ [⟨connector, p, ⟨start, stop⟩⟩]) = true := by
    rcases hpending with ⟨hfirst, hnil⟩ | ⟨hjoined, hbuilt⟩
    · obtain rfl : connector = .first := hfirst
      obtain rfl : done = [] := hnil
      simp [conditionsBuilt, hp]
    · cases done with
      | nil => cases hbuilt
      | cons c done =>
          simp only [List.cons_append, conditionsBuilt, Bool.and_eq_true, List.all_append,
            List.all_cons, List.all_nil, bne_iff_ne] at hbuilt ⊢
          exact ⟨hbuilt.1, hbuilt.2, ⟨hjoined, hp⟩, trivial⟩
  refine .after fun t => ?_
  split
  · rename_i connector' hword
    refine .after fun _ => .pure (.inr ⟨?_, hdone⟩)
    rintro rfl
    revert hword
    unfold connectorOf
    split <;> simp
  · exact .pure hdone

theorem group_makes (hin : inner.Shapes below) :
    Makes (conditionsBuilt Leaf.any below · = true) (group env inner) :=
  .after fun _ => .bind (conditions_makes hin) fun _ hcs => .after fun _ => .pure hcs

theorem conditionClause_makes (hin : inner.Shapes below) (keyword : Keyword) :
    Makes (fun filter => filter.all (conditionsBuilt Leaf.any below ·.conditions) = true)
      (conditionClause env inner keyword) := by
  refine .after fun present => ?_
  split
  · exact .after fun start => .bind (conditions_makes hin) fun cs hcs => .after fun stop =>
      .pure hcs
  · exact .pure rfl

/-! ## Sources -/

theorem tableFactor_makes (hin : inner.Shapes below) :
    Makes (·.isBuilt Leaf.any below = true) (tableFactor env inner) := by
  refine .after fun paren => ?_
  split
  · refine .after fun start => .after fun opening => .after fun select => ?_
    split
    · refine .bind hin.embed fun q hq => .after fun _ => .after fun stop => .after fun name =>
        .pure ?_
      simpa [TableFactor.isBuilt] using hq
    · exact .bind hin.sources fun ss hss => .after fun _ => .pure hss
  · exact .after fun t => .pure rfl

/-- A join has conditions or columns, and not both. -/
theorem optionalJoin_makes (hin : inner.Shapes below) :
    Makes (fun j => j.all (·.isBuilt Leaf.any below) = true) (optionalJoin env inner) := by
  refine .after fun natural => .after fun found => ?_
  split
  · exact .pure rfl
  · refine .bind (tableFactor_makes hin) fun factor hfactor => .after fun on => ?_
    split
    · refine .bind (conditions_makes hin) fun cs hcs => .pure ?_
      simp [Join.isBuilt, hfactor, hcs]
    · refine .after fun named => ?_
      split
      · exact .after fun columns => .pure (by simp [Join.isBuilt, hfactor])
      · exact .pure (by simp [Join.isBuilt, hfactor])

theorem tableSource_makes (hin : inner.Shapes below) :
    Makes (·.isBuilt Leaf.any below = true) (tableSource env inner) := by
  refine .bind (tableFactor_makes hin) fun factor hfactor => ?_
  refine .repeating (fun joins => joins.all (·.isBuilt Leaf.any below) = true) rfl ?_
  intro joins hjoins
  refine .bind (optionalJoin_makes hin) fun found hfound => ?_
  split
  · refine .pure ?_
    rw [Round.All, List.all_append, hjoins]
    simpa using hfound
  · exact .pure (by simp [Round.All, TableSource.isBuilt, hfactor, hjoins])

/-- There is at least one source behind `FROM`. -/
theorem tableSources_makes (hin : inner.Shapes below) :
    Makes (sourcesBuilt Leaf.any below · = true) (tableSources env inner) := by
  intro r ss r' h
  obtain ⟨hne, hall⟩ := Makes.commaSeparated (tableSource_makes hin) r ss r' h
  simpa [sourcesBuilt, hne] using hall

theorem fromClause_makes (hin : inner.Shapes below) :
    Makes (fun ss => ss.all (sourcesBuilt Leaf.any below) = true) (fromClause env inner) := by
  refine .after fun present => ?_
  split
  · exact .bind (tableSources_makes hin) fun ss hss => .pure hss
  · exact .pure rfl

/-! ## Paging -/

theorem fetchRest_isBuilt {offset : Option PagingValue} {p : Paging} {r r' : Reading}
    (hsome : offset.isSome = true ∨ r.cursor.current.kind = .keyword .FETCH)
    (h : Yields (fetchRest offset) r p r') : p.form ≠ .top ∧ p.isBuilt Leaf.any = true := by
  obtain ⟨fetch, r₁, hskip, hrest⟩ := yields_bind.1 h
  rcases yields_ite.1 hrest with ⟨-, hrest⟩ | ⟨hfetch, hrest⟩
  · obtain ⟨skipped, r₂, -, hrest⟩ := yields_bind.1 hrest
    rcases yields_ite.1 hrest with ⟨-, hrest⟩ | ⟨-, hrest⟩
    · exact (bind_failExpected hrest).elim
    · obtain ⟨count, r₃, -, hrest⟩ := yields_bind.1 (bind_pure hrest)
      obtain ⟨rows, r₄, -, hrest⟩ := yields_bind.1 hrest
      rcases yields_ite.1 hrest with ⟨-, hrest⟩ | ⟨-, hrest⟩
      · exact (bind_failExpected hrest).elim
      · obtain ⟨_, r₅, -, hrest⟩ := yields_bind.1 (bind_pure hrest)
        obtain ⟨rfl, -⟩ := yields_pure.1 hrest
        simp [Paging.isBuilt]
  · obtain ⟨rfl, -⟩ := yields_pure.1 hrest
    rcases skipOneOf_yields hskip with ⟨rfl, -, -⟩ | ⟨-, hkind, -⟩
    · exact absurd rfl hfetch
    · simpa [Paging.isBuilt] using hsome.resolve_right (by simpa using hkind)

/-- A paging clause of `OFFSET ... FETCH` begins with one of the two words, so that it has the
offset or the count. -/
theorem offsetFetch_isBuilt {r r' : Reading} {p : Paging}
    (hkind : r.cursor.current.kind ∈ [.keyword .OFFSET, .keyword .FETCH])
    (h : Yields offsetFetch r p r') : p.form ≠ .top ∧ p.isBuilt Leaf.any = true := by
  obtain ⟨skipped, r₁, hskip, hrest⟩ := yields_bind.1 h
  rcases yields_ite.1 hrest with ⟨-, hrest⟩ | ⟨hoffset, hrest⟩
  · obtain ⟨v, r₂, -, hrest⟩ := yields_bind.1 hrest
    obtain ⟨rows, r₃, -, hrest⟩ := yields_bind.1 hrest
    exact fetchRest_isBuilt (.inl rfl) (bind_pure hrest)
  · rcases skipOneOf_yields hskip with ⟨rfl, -, -⟩ | ⟨-, hnot, rfl⟩
    · exact absurd rfl hoffset
    · refine fetchRest_isBuilt (.inr ?_) (bind_pure hrest)
      simp only [List.mem_cons, List.not_mem_nil, or_false] at hkind hnot
      exact hkind.resolve_left hnot

/-- Behind the other clauses a paging clause has its values, and is no `TOP`. -/
theorem optionalPaging_makes : Makes (pagingBuilt Leaf.any · = true) optionalPaging := by
  intro r paging r' h
  replace h := bind_current h
  have hfetch : ∀ {p}, p.form ≠ .top ∧ p.isBuilt Leaf.any = true →
      pagingBuilt Leaf.any (some p) = true := by
    intro p hp
    simpa [pagingBuilt] using hp
  split at h
  · obtain ⟨_, r₁, -, h⟩ := yields_bind.1 h
    obtain ⟨first, r₂, -, h⟩ := yields_bind.1 h
    obtain ⟨comma, r₃, -, h⟩ := yields_bind.1 h
    rcases yields_ite.1 h with ⟨-, h⟩ | ⟨-, h⟩
    · obtain ⟨count, -, rfl⟩ := yields_map.1 h
      simp [pagingBuilt, Paging.isBuilt]
    · obtain ⟨skipped, r₄, -, h⟩ := yields_bind.1 h
      rcases yields_ite.1 h with ⟨-, h⟩ | ⟨-, h⟩
      · obtain ⟨offset, -, rfl⟩ := yields_map.1 h
        simp [pagingBuilt, Paging.isBuilt]
      · obtain ⟨rfl, -⟩ := yields_pure.1 h
        simp [pagingBuilt, Paging.isBuilt]
  · rename_i hkind
    obtain ⟨p, hp, rfl⟩ := yields_map.1 h
    exact hfetch (offsetFetch_isBuilt (by simp [hkind]) hp)
  · rename_i hkind
    obtain ⟨p, hp, rfl⟩ := yields_map.1 h
    exact hfetch (offsetFetch_isBuilt (by simp [hkind]) hp)
  · obtain ⟨rfl, -⟩ := yields_pure.1 h
    rfl

/-- The count of `TOP` was read before, so the paging clause has one. -/
theorem tiesRest_makes (count : PagingValue) (percent : Bool) :
    Makes (fun p => p.all (·.isBuilt Leaf.any) = true) (tiesRest count percent) := by
  refine .after fun present => ?_
  extract_lets rest
  have hrest : ∀ withTies, Makes (fun p => p.all (·.isBuilt Leaf.any) = true) (rest withTies) := by
    intro withTies
    have hbuilt : Makes (fun p => p.all (·.isBuilt Leaf.any) = true)
        (pure (some { form := .top, rowCount := some count, percent, withTies : Paging })) :=
      .pure (by simp [Paging.isBuilt])
    simp only [rest]
    split
    · exact .after fun _ => .after fun _ => hbuilt
    · exact hbuilt
  split
  · exact .after fun t => .after hrest
  · exact .after hrest

theorem optionalTop_makes :
    Makes (fun p => p.all (·.isBuilt Leaf.any) = true) (optionalTop env) := by
  unfold optionalTop
  split
  · exact .pure rfl
  · refine .after fun present => ?_
    split
    · exact .pure rfl
    · refine .after fun paren => ?_
      have htop : ∀ count, Makes (fun p => p.all (·.isBuilt Leaf.any) = true) (topRest count) :=
        fun count => .after (tiesRest_makes count)
      split
      · exact .after fun opening => .after fun v => .after fun _ => .after htop
      · exact .after htop

/-! ## Queries -/

/-- A query has at least one item, and a paging clause only if that has its values. -/
theorem query_makes (hin : inner.Shapes below) :
    Makes (·.isBuilt Leaf.any below = true) (query env inner) := by
  refine .after fun start => .after fun _ => .after fun distinct => ?_
  extract_lets rest
  have hrest : ∀ u, Makes (·.isBuilt Leaf.any below = true) (rest u) := by
    intro u
    refine .bind optionalTop_makes fun top htop => .bind (.commaSeparated .any) fun items hitems =>
      .bind (fromClause_makes hin) fun sources hsources =>
        .bind (conditionClause_makes hin _) fun filter hfilter => .after fun groupBy =>
          .bind (conditionClause_makes hin _) fun having hhaving => .after fun orderBy =>
            .after fun pagingStart => .bind optionalPaging_makes fun paging hpaging => ?_
    extract_lets behind
    have hbehind : ∀ u, Makes (·.isBuilt Leaf.any below = true) (behind u) := by
      refine fun u => .after fun options => .after fun _ => .after fun stop => .after fun r =>
        .pure ?_
      have hboth : (paging.or top).all (·.isBuilt Leaf.any) = true := by
        cases paging with
        | none => exact htop
        | some p =>
            simp only [pagingBuilt, Option.all_some, Bool.and_eq_true] at hpaging
            exact hpaging.2
      simp [Query.isBuilt, OrderItem.isBuilt, hitems.1, hsources, hfilter, hhaving, hboth]
    split
    · exact .after hbehind
    · exact hbehind ()
  split
  · exact .after hrest
  · exact hrest ()

end Reader

/-- Every level of the tower gives trees of the shape that is due there. -/
theorem Inner.shapes_upTo (env : Setting) (n : Nat) :
    (Inner.upTo env n).Shapes (.upTo (fun _ => Leaf.any) n) := by
  induction n with
  | zero => constructor <;> exact fun _ _ _ h => (Reader.yields_refuseNesting.1 h).elim
  | succ n ih =>
      constructor
      · exact .nested (Reader.query_makes ih)
      · exact .nested (Reader.predicate_makes ih)
      · exact .nested (Reader.group_makes ih)
      · exact .nested (Reader.tableSources_makes ih)

namespace Reader

variable {env : Setting} {below : Below} {inner : Inner}

/-! ## Statements -/

/-- Rows and assignments of an `INSERT` cannot be empty. -/
theorem insertSource_makes (hin : inner.Shapes below) :
    Makes (·.isBuilt Leaf.any below = true) (insertSource env inner) := by
  have hrows : Makes (·.isBuilt Leaf.any below = true) (insertSource.rows env inner) := by
    refine .after fun _ => .bind (.commaSeparated .any) fun rows hrows => .pure ?_
    simp [InsertSource.isBuilt, hrows.1]
  refine .after fun t => ?_
  split
  · exact hrows
  · exact hrows
  · refine .after fun _ => .bind (.commaSeparated .any) fun assignments hassignments => .pure ?_
    simp [InsertSource.isBuilt, Assignment.isBuilt, hassignments.1]
  · exact .bind hin.embed fun q hq => .pure hq
  · exact .after fun opening => .bind hin.embed fun q hq => .after fun _ => .pure hq
  · exact .failExpected

theorem insert_makes (hin : inner.Shapes below) :
    Makes (·.isBuilt Leaf.any below = true) (insert env inner) := by
  refine .after fun start => .after fun _ => .after fun _ => .after fun _ => .after fun table =>
    .after fun columns => .bind (insertSource_makes hin) fun source hsource =>
      .after fun onDuplicate => .after fun stop => .after fun scope => .pure ?_
  simp [Insert.isBuilt, Assignment.isBuilt, hsource]

theorem update_makes (hin : inner.Shapes below) :
    Makes (·.isBuilt Leaf.any below = true) (update env inner) := by
  refine .after fun start => .after fun _ => .after fun _ => .after fun table => .after fun _ =>
    .bind (.commaSeparated .any) fun assignments hassignments =>
      .bind (conditionClause_makes hin _) fun filter hfilter => .after fun orderBy =>
        .bind optionalPaging_makes fun paging hpaging => .after fun stop => .after fun scope =>
          .pure ?_
  simp [Update.isBuilt, Assignment.isBuilt, OrderItem.isBuilt, hassignments.1, hfilter, hpaging]

theorem delete_makes (hin : inner.Shapes below) :
    Makes (·.isBuilt Leaf.any below = true) (delete env inner) := by
  refine .after fun start => .after fun _ => .after fun _ => .after fun _ => .after fun table =>
    .bind (conditionClause_makes hin _) fun filter hfilter => .after fun orderBy =>
      .bind optionalPaging_makes fun paging hpaging => .after fun stop => .after fun scope =>
        .pure ?_
  simp [Delete.isBuilt, OrderItem.isBuilt, hfilter, hpaging]

theorem statement_makes {n : Nat} (hin : inner.Shapes (.upTo (fun _ => Leaf.any) n)) :
    Makes (Statement.isShaped n · = true) (statement env inner) := by
  have hdefine : Makes (Statement.isShaped n · = true)
      (do return .define (← definition env inner)) :=
    .after fun s => .pure rfl
  refine .after fun t => ?_
  split
  · exact .bind (query_makes hin) fun q hq => .pure hq
  · exact .bind (insert_makes hin) fun s hs => .pure hs
  · exact .bind (update_makes hin) fun s hs => .pure hs
  · exact .bind (delete_makes hin) fun s hs => .pure hs
  · exact hdefine
  · exact hdefine
  · exact hdefine
  · exact hdefine
  · exact .failExpected

theorem wholeStatement_makes {n : Nat} (hin : inner.Shapes (.upTo (fun _ => Leaf.any) n)) :
    Makes (Statement.isShaped n · = true) (wholeStatement env inner) := by
  refine .bind (statement_makes hin) fun s hs => .after fun _ => .after fun t => ?_
  split
  · exact .pure hs
  · exact .failExpected

end Reader

/-- Every parsed statement has the shape that is asked of a legible one, with no more levels of
nesting than the limit allows. -/
theorem isShaped_of_parse {config : Config} {catalogue : Catalogue} {source : String} {p : Parsed}
    (h : parse config catalogue source = .ok p) : p.statement.isShaped config.maxDepth = true := by
  obtain ⟨-, -, r, hrun⟩ := parse_ok h
  unfold Setting.run at hrun
  split at hrun
  · cases hrun
  · split at hrun
    · rename_i s r' hwhole
      cases hrun
      exact Reader.wholeStatement_makes (Inner.shapes_upTo _ config.maxDepth) _ _ _ hwhole
    · cases hrun

end SqlMarkers
