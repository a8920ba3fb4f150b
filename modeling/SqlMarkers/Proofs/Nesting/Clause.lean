/-
SqlMarkers.Proofs.Nesting.Clause — select items, orders, paging and queries under a
nesting limit.

`Level cap room m` is the case of a reader that calls no nested reader: it is compared with
itself, and the result says only that it leaves the nesting of the reading alone. Readers that
pass operands do call nested ones, but give no tree, so that there is nothing to bound in what
they give; what they attach to the scope is bounded by `room`.

A query is as high as its clauses and the queries attached to its scope, all of which
are at most as high as its nested readers reach (`query_capped`).
-/
import SqlMarkers.Proofs.Nesting.Source

namespace SqlMarkers.Reader

variable {cap : Cap} {n room : Nat} {env : Setting} {inner inner' : Inner}

/-! ## Select items -/

/-- An operand is passed; a query in it goes to the scope. -/
theorem fullOperand_capped (hin : inner.Capped cap n room inner') :
    Capped cap room (fun _ => True) (fullOperand inner) (fullOperand inner') :=
  (operand_capped hin).bind fun _ _ => (continuation_capped hin).bind fun _ _ => .pure trivial

theorem negatesOperator_level : Level cap room (negatesOperator env) :=
  peek_level.bind fun _ _ => .pure trivial

/-- Both towers read the same rounds, until the lower one is refused in the operand of one of
them. -/
theorem comparisonTail_capped (hin : inner.Capped cap n room inner') :
    Capped cap room (fun _ => True) (comparisonTail env inner) (comparisonTail env inner') := by
  refine Capped.repeating (fun _ => True) (fun found _ => ?_) trivial
  have hoperand : Capped cap room (Round.Holds (fun _ => True) fun _ => True)
      (do next; fullOperand inner; return .again true : Reader (Round Bool Bool))
      (do next; fullOperand inner'; return .again true) :=
    next_level.bind fun _ _ => (fullOperand_capped hin).bind fun _ _ => .pure trivial
  refine current_level.bind fun t _ => ?_
  split
  · split
    · exact hoperand
    · exact .pure trivial
  · exact next_level.bind fun _ _ => (skipKeyword_level _).bind fun _ _ =>
      (operand_capped hin).bind fun _ _ => .pure trivial
  · refine negatesOperator_level.bind fun negates _ => ?_
    split
    · exact next_level.bind fun _ _ => .pure trivial
    · exact .pure trivial
  · exact hoperand
  · exact hoperand
  · exact next_level.bind fun _ _ => (fullOperand_capped hin).bind fun _ _ =>
      (acceptKeyword_level _).bind fun _ _ => (fullOperand_capped hin).bind fun _ _ => .pure trivial
  · split
    · exact hoperand
    · exact .pure trivial

theorem aggregateAt?_level : Level cap room aggregateAt? := by
  refine current_level.bind fun t _ => ?_
  split
  · refine peek_level.bind fun u _ => ?_
    split <;> exact .pure trivial
  · exact .pure trivial

theorem atOwnedStar_level : Level cap room atOwnedStar := by
  refine current_level.bind fun t _ => ?_
  split
  · refine (peekNth_level 1).bind fun u _ => ?_
    split
    · exact (peekNth_level 2).bind fun _ _ => .pure trivial
    · exact .pure trivial
  · exact .pure trivial

/-- The arguments of an aggregate are passed before they are kept as text. So they may be refused,
but their text is no tree and has no height. -/
theorem aggregateItem_capped (hin : inner.Capped cap n room inner') (function : Aggregate) :
    Capped cap room (fun _ => True) (aggregateItem env inner function)
      (aggregateItem env inner' function) := by
  refine here_level.bind fun start _ => next_level.bind fun _ _ => ?_
  refine (parentheses_capped hin).bind fun arguments _ => ?_
  extract_lets item
  have hitem : ∀ goesOn, True → Level cap room (item goesOn) := by
    intro goesOn _
    simp only [item]
    split
    · exact (verbatimFrom_level env _).bind fun _ _ => (optionalAlias_level env).bind fun _ _ =>
        .pure trivial
    · exact (down_level _).bind fun _ _ => lastEnd_level.bind fun _ _ =>
        (optionalAlias_level env).bind fun _ _ => .pure trivial
  refine (continuation_capped hin).bind fun goesOn _ => ?_
  split
  · exact hitem true trivial
  · exact (comparisonTail_capped hin).bind hitem

theorem expressionItem_capped (hin : inner.Capped cap n room inner') :
    Capped cap room (fun _ => True) (expressionItem env inner) (expressionItem env inner') := by
  have hbehind : ∀ e, True → Level cap room
      (do return .expr e (← optionalAlias env) : Reader SelectItem) :=
    fun _ _ => (optionalAlias_level env).bind fun _ _ => .pure trivial
  refine here_level.bind fun start _ => (expression_capped hin).bind fun e _ => ?_
  refine (comparisonTail_capped hin).bind fun found _ => ?_
  split
  · exact (verbatimFrom_level env _).bind hbehind
  · exact hbehind e trivial

/-- No select item is a tree with nested queries: those in it belong to the scope. -/
theorem selectItem_capped (hin : inner.Capped cap n room inner') :
    Capped cap room (fun _ => True) (selectItem env inner) (selectItem env inner') := by
  refine current_level.bind fun t _ => ?_
  split
  · exact next_level.bind fun _ _ => .pure trivial
  · refine atOwnedStar_level.bind fun owned _ => ?_
    split
    · exact (noteOwner_level t).bind fun _ _ => next_level.bind fun _ _ =>
        next_level.bind fun _ _ => next_level.bind fun _ _ => (nameOf_level t).bind fun _ _ =>
          lastEnd_level.bind fun _ _ => .pure trivial
    · refine aggregateAt?_level.bind fun function _ => ?_
      split
      · exact aggregateItem_capped hin _
      · exact expressionItem_capped hin

/-! ## Paging -/

theorem pagingValue_level : Level cap room pagingValue := by
  refine current_level.bind fun t _ => ?_
  split
  · exact nextParameter_level.bind fun _ _ => next_level.bind fun _ _ => .pure trivial
  -- Integers, in both notations.
  iterate 2
    · split
      · exact next_level.bind fun _ _ => .pure trivial
      · exact failAt_capped (by simp)
  · exact failExpected_capped _

theorem offsetFetch_level : Level cap room offsetFetch := by
  refine (skipKeyword_level _).bind fun present _ => ?_
  extract_lets rest
  have hrest : ∀ offset, True → Level cap room (rest offset) := by
    intro offset _
    refine (skipKeyword_level _).bind fun fetch _ => ?_
    split
    · refine (skipAnyOf_level _).bind fun first _ => failUnless_capped ?_
      refine pagingValue_level.bind fun count _ => ?_
      refine (skipAnyOf_level _).bind fun rows _ => failUnless_capped ?_
      exact (acceptKeyword_level _).bind fun _ _ => .pure trivial
    · exact .pure trivial
  split
  · exact pagingValue_level.bind fun _ _ => (skipAnyOf_level _).bind fun _ _ => hrest _ trivial
  · exact hrest none trivial

/-- Paging values are placeholders or integers, so paging never nests. -/
theorem optionalPaging_level : Level cap room optionalPaging := by
  have hoffset : Level cap room (do return some (← offsetFetch) : Reader (Option Paging)) :=
    offsetFetch_level.bind fun _ _ => .pure trivial
  refine current_level.bind fun t _ => ?_
  split
  · refine next_level.bind fun _ _ => pagingValue_level.bind fun first _ => ?_
    refine (skipSymbol_level _).bind fun comma _ => ?_
    split
    · exact pagingValue_level.bind fun _ _ => .pure trivial
    · refine (skipKeyword_level _).bind fun offset _ => ?_
      split
      · exact pagingValue_level.bind fun _ _ => .pure trivial
      · exact .pure trivial
  · exact hoffset
  · exact hoffset
  · exact .pure trivial

/-- The parentheses of `TOP` are opened and closed here, and count for no level. -/
theorem optionalTop_level : Level cap room (optionalTop env) := by
  unfold optionalTop
  split
  · exact .pure trivial
  · refine (skipKeyword_level _).bind fun present _ => ?_
    split
    · exact .pure trivial
    · refine (atSymbol_level _).bind fun paren _ => ?_
      extract_lets rest
      have hrest : ∀ count, True → Level cap room (rest count) := by
        intro count _
        refine (skipKeyword_level _).bind fun percent _ => peekBehind_capped fun ties => ?_
        split
        · exact next_level.bind fun _ _ => next_level.bind fun _ _ => .pure trivial
        · exact .pure trivial
      split
      · exact (acceptSymbol_level _).bind fun _ _ => pagingValue_level.bind fun count _ =>
          (close_level _).bind fun _ _ => hrest count trivial
      · exact pagingValue_level.bind hrest

/-! ## Orders -/

theorem optionalDirection_level : Level cap room optionalDirection := by
  refine current_level.bind fun t _ => ?_
  split
  · exact next_level.bind fun _ _ => .pure trivial
  · exact next_level.bind fun _ _ => .pure trivial
  · exact .pure trivial

theorem optionalNulls_level : Level cap room optionalNulls := by
  refine (skipKeyword_level _).bind fun present _ => ?_
  split
  · refine current_level.bind fun t _ => ?_
    split
    · exact next_level.bind fun _ _ => .pure trivial
    · exact next_level.bind fun _ _ => .pure trivial
    · exact failExpected_capped _
  · exact .pure trivial

/-- The entries are expressions, with nothing to bound. -/
theorem orderItems_capped (hin : inner.Capped cap n room inner') :
    Capped cap room (fun _ => True) (commaSeparated (orderItem env inner))
      (commaSeparated (orderItem env inner')) := by
  have hitem : Capped cap room (fun _ => True) (orderItem env inner) (orderItem env inner') :=
    (expression_capped hin).bind fun _ _ => optionalDirection_level.bind fun _ _ =>
      optionalNulls_level.bind fun _ _ => .pure trivial
  exact (commaSeparated_capped hitem).imp fun _ _ => trivial

theorem orderBy_capped (hin : inner.Capped cap n room inner') :
    Capped cap room (fun _ => True) (orderBy env inner) (orderBy env inner') := by
  refine (skipKeyword_level _).bind fun present _ => ?_
  split
  · exact (acceptKeyword_level _).bind fun _ _ => orderItems_capped hin
  · exact .pure trivial

/-- Behind the entries `WITH ROLLUP` may follow, which nests nothing. -/
theorem groupBy_capped (hin : inner.Capped cap n room inner') :
    Capped cap room (fun _ => True) (groupBy env inner) (groupBy env inner') := by
  refine (skipKeyword_level _).bind fun present _ => ?_
  split
  · refine (acceptKeyword_level _).bind fun _ _ => (orderItems_capped hin).bind fun items _ => ?_
    refine peekBehind_capped fun rollup => ?_
    split
    · exact next_level.bind fun _ _ => next_level.bind fun _ _ => .pure trivial
    · exact .pure trivial
  · exact .pure trivial

/-! ## Queries -/

theorem distinctness_level : Level cap room distinctness := by
  refine current_level.bind fun t _ => ?_
  split
  · exact next_level.bind fun _ _ => .pure trivial
  · exact next_level.bind fun _ _ => .pure trivial
  · exact next_level.bind fun _ _ => .pure trivial
  · exact .pure trivial

theorem lockWait_level : Level cap room lockWait := by
  refine current_level.bind fun t _ => ?_
  split
  · exact next_level
  · split
    · refine peek_level.bind fun u _ => ?_
      split
      · exact next_level.bind fun _ _ => next_level
      · exact .pure trivial
    · exact .pure trivial

/-- The parentheses of `OPTION (...)` are passed token by token and count for no level, however
deep they are. -/
theorem trailingOptions_level : Level cap room (trailingOptions env) := by
  refine Capped.repeating (fun _ => True) ?_ trivial
  intro ⟨lock, option⟩ _
  refine current_level.bind fun t _ => ?_
  split
  · refine next_level.bind fun _ _ => current_level.bind fun u _ => ?_
    extract_lets rest
    have hlocked : ∀ lock, True →
        Capped cap room (Round.Holds (fun _ => True) fun _ => True) (rest lock) (rest lock) :=
      fun _ _ => next_level.bind fun _ _ => lockWait_level.bind fun _ _ => .pure trivial
    split
    · exact hlocked .forUpdate trivial
    · exact hlocked .shareMode trivial
    · exact (failExpected_capped _).bind hlocked
  · exact next_level.bind fun _ _ => (acceptKeyword_level _).bind fun _ _ =>
      (acceptKeyword_level _).bind fun _ _ => (acceptKeyword_level _).bind fun _ _ => .pure trivial
  · refine peek_level.bind fun u _ => ?_
    split
    · exact next_level.bind fun _ _ => passParentheses_level.bind fun _ _ =>
        lastEnd_level.bind fun _ _ => .pure trivial
    · exact .pure trivial
  · exact .pure trivial

theorem refuseSetOperation_level : Level cap room refuseSetOperation := by
  refine current_level.bind fun t _ => ?_
  split
  · exact failHere_capped (by simp)
  · exact failHere_capped (by simp)
  · exact failHere_capped (by simp)
  · exact .pure trivial

/-- The queries attached to the scope are in bounds. -/
theorem get_capped :
    Capped cap room (fun r => Query.heightIn r.draft.subqueries ≤ room) get get :=
  fun _ hr => .ok hr.height hr rfl

/-- A query whose nested readers reach `n` levels down is at most `n` high. Its own scope starts
with no query attached, so `room` is `n` here. -/
theorem query_capped (hin : inner.Capped cap n n inner') :
    Capped cap n (fun q => q.height ≤ n) (query env inner) (query env inner') := by
  refine here_level.bind fun start _ => (acceptKeyword_level _).bind fun _ _ => ?_
  refine distinctness_level.bind fun distinct _ => ?_
  extract_lets body body'
  have hbody : ∀ u, True → Capped cap n (fun q => q.height ≤ n) (body u) (body' u) := by
    intro u _
    refine optionalTop_level.bind fun top _ => ?_
    refine (commaSeparated_capped (selectItem_capped hin)).bind fun items _ => ?_
    refine (fromClause_capped hin).bind fun sources hsources => ?_
    refine (conditionClause_capped hin _).bind fun filter hfilter => ?_
    refine (groupBy_capped hin).bind fun groups _ => ?_
    refine (conditionClause_capped hin _).bind fun having hhaving => ?_
    refine (orderBy_capped hin).bind fun orders _ => here_level.bind fun place _ => ?_
    refine optionalPaging_level.bind fun paging _ => ?_
    extract_lets tail
    have htail : ∀ u, True → Capped cap n (fun q => q.height ≤ n) (tail u) (tail u) := by
      intro u _
      refine trailingOptions_level.bind fun options _ => refuseSetOperation_level.bind fun _ _ => ?_
      refine lastEnd_level.bind fun stop _ => get_capped.bind fun r hr => .pure ?_
      rw [Query.height_eq]
      exact Nat.max_le.2 ⟨Nat.max_le.2 ⟨hsources, hfilter⟩, Nat.max_le.2 ⟨hhaving, hr⟩⟩
    split
    · exact (failAt_capped (by simp)).bind htail
    · exact htail () trivial
  split
  · exact (skipKeywords_level _).bind hbody
  · exact hbody () trivial

end SqlMarkers.Reader
