/-
SqlMarkers.Proofs.Heedless.Query — no reader of a query looks at the passages.

Every reader that a query is read with is heedless, down the whole tower of nested
readers (`Inner.heedless_upTo`). So the same tokens give the same query whatever was
passed over before.

Only one step writes a passage and none reads one, so for each reader this follows from its
steps, by the rules that are tagged for `grind`. What is left to a proof is where a reader
branches or goes round in a loop. The one reader that looks back at a whole reading is that of
a group: it puts the reading from before in place again, with its passages
(`attemptGroup_heedless`).
-/
import SqlMarkers.Proofs.Heedless

namespace SqlMarkers.Reader

variable {env : Setting} {inner : Inner}

/-! ## Aliases, tables and paging -/

@[grind ←]
theorem aliasOf_heedless (t : Token) : Heedless Eq (aliasOf env t) := by
  grind [aliasOf]

@[grind ←]
theorem optionalAlias_heedless : Heedless Eq (optionalAlias env) := by
  refine .bind (skipKeyword_heedless _) fun marked => .bind current_heedless fun t => ?_
  extract_lets behind
  have hbehind : ∀ taken, Heedless Eq (behind taken) := by grind
  split <;> grind

@[grind ←]
theorem nameToken_heedless (what : String) : Heedless Eq (nameToken what) := by
  grind [nameToken]

@[grind ←]
theorem tableName_heedless : Heedless Eq tableName := by
  grind [tableName]

@[grind ←]
theorem declare_heedless (t : Table) (token : Token) : Heedless Eq (declare env t token) := by
  unfold declare
  split
  · exact .modifyDraft fun _ _ h => congrArg (Draft.declare · t token.text) h
  · exact .pure _

@[grind ←]
theorem atIndexHint_heedless : Heedless Eq atIndexHint := by
  grind [atIndexHint]

@[grind ←]
theorem atTableHint_heedless : Heedless Eq (atTableHint env) := by
  grind [atTableHint]

@[grind ←]
theorem hintPurpose_heedless : Heedless Eq hintPurpose := by
  grind [hintPurpose]

@[grind ←]
theorem tableHints_heedless : Heedless Eq (tableHints env) := by
  grind [tableHints]

@[grind ←]
theorem tableReference_heedless : Heedless Eq (tableReference env) := by
  grind [tableReference]

@[grind ←]
theorem pagingValue_heedless : Heedless Eq pagingValue := by
  grind [pagingValue]

@[grind ←]
theorem offsetFetch_heedless : Heedless Eq offsetFetch := by
  refine .bind (skipKeyword_heedless _) fun present => ?_
  extract_lets fetch
  have hfetch : ∀ offset, Heedless Eq (fetch offset) := by
    refine fun offset => .bind (skipKeyword_heedless _) fun present => ?_
    split <;> grind
  split
  · refine .bind pagingValue_heedless fun v => .bind (skipAnyOf_heedless _) fun _ => ?_
    exact hfetch (some v)
  · exact hfetch none

@[grind ←]
theorem optionalPaging_heedless : Heedless Eq optionalPaging := by
  refine .bind current_heedless fun t => ?_
  split <;> grind

@[grind ←]
theorem optionalTop_heedless : Heedless Eq (optionalTop env) := by
  unfold optionalTop
  split
  · exact .pure _
  · refine .bind (skipKeyword_heedless _) fun present => ?_
    split
    · exact .pure _
    · refine .bind (atSymbol_heedless _) fun paren => ?_
      extract_lets top
      have htop : ∀ count, Heedless Eq (top count) := by
        refine fun count => .bind (skipKeyword_heedless _) fun percent => ?_
        grind
      split
      · refine .bind (acceptSymbol_heedless _) fun opening => .bind pagingValue_heedless fun v => ?_
        exact .bind (close_heedless opening) fun _ => htop v
      · exact .bind pagingValue_heedless htop

@[grind ←]
theorem optionalDirection_heedless : Heedless Eq optionalDirection := by
  grind [optionalDirection]

@[grind ←]
theorem optionalNulls_heedless : Heedless Eq optionalNulls := by
  grind [optionalNulls]

@[grind ←]
theorem joinKind_outer_heedless (kind : JoinKind) : Heedless Eq (joinKind.outer kind) := by
  grind [joinKind.outer]

@[grind ←]
theorem joinKind_heedless (natural : Bool) : Heedless Eq (joinKind natural) := by
  grind [joinKind]

@[grind ←]
theorem usingColumn_heedless : Heedless Eq usingColumn := by
  grind [usingColumn]

@[grind ←]
theorem usingColumns_heedless : Heedless Eq usingColumns := by
  grind [usingColumns]

@[grind ←]
theorem distinctness_heedless : Heedless Eq distinctness := by
  grind [distinctness]

@[grind ←]
theorem lockWait_heedless : Heedless Eq lockWait := by
  grind [lockWait]

@[grind ←]
theorem trailingOptions_heedless : Heedless Eq (trailingOptions env) := by
  refine .repeating (fun (lock, option) => .bind current_heedless fun t => ?_) _
  split
  · refine .bind next_heedless fun _ => .bind current_heedless fun target => ?_
    extract_lets behind
    have hbehind : ∀ lock, Heedless Eq (behind lock) := by grind
    split <;> grind
  all_goals grind

@[grind ←]
theorem refuseSetOperation_heedless : Heedless Eq refuseSetOperation := by
  grind [refuseSetOperation]

/-! ## What is read with nested readers -/

section Nested

variable (hin : inner.Heedless)
include hin

@[grind ←]
theorem leafOr_heedless (start : Nat) (leaf : Expr) :
    Heedless Eq (leafOr env inner start leaf) := by
  grind [leafOr]

@[grind ←]
theorem namedExpression_heedless : Heedless Eq (namedExpression env inner) := by
  refine .bind current_heedless fun owner => .bind next_heedless fun _ =>
    .bind (nameOf_heedless owner) fun name => .bind (atSymbol_heedless _) fun dot => ?_
  split
  · refine .bind (noteOwner_heedless Draft.link_eq owner) fun _ => .bind next_heedless fun _ =>
      .bind current_heedless fun t => ?_
    grind
  · grind

@[grind ←]
theorem expression_heedless : Heedless Eq (expression env inner) := by
  grind [expression]

@[grind ←]
theorem comparisonTail_heedless : Heedless Eq (comparisonTail env inner) := by
  refine .repeating (fun found => .bind current_heedless fun t => ?_) false
  have hnegates : Heedless Eq (negatesOperator env) := by grind [negatesOperator]
  split <;> grind

@[grind ←]
theorem aggregateItem_heedless (function : Aggregate) :
    Heedless Eq (aggregateItem env inner function) := by
  refine .bind here_heedless fun start => .bind next_heedless fun _ =>
    .bind (parentheses_heedless hin Draft.link_eq) fun arguments => ?_
  extract_lets item
  have hitem : ∀ goesOn, Heedless Eq (item goesOn) := by grind
  grind

@[grind ←]
theorem expressionItem_heedless : Heedless Eq (expressionItem env inner) := by
  grind [expressionItem]

@[grind ←]
theorem selectItem_heedless : Heedless Eq (selectItem env inner) := by
  refine .bind current_heedless fun t => ?_
  have howned : Heedless Eq atOwnedStar := by grind [atOwnedStar]
  have haggregate : Heedless Eq aggregateAt? := by grind [aggregateAt?]
  split
  · grind
  · refine .bind howned fun owned => ?_
    split
    · refine .bind (noteOwner_heedless Draft.link_eq t) fun _ => ?_
      grind
    · grind

/-! ### Conditions -/

@[grind ←]
theorem membership_heedless (left : Expr) (negated : Bool) :
    Heedless Eq (membership env inner left negated) := by
  grind [membership]

@[grind ←]
theorem comparand_heedless : Heedless Eq (comparand env inner) := by
  grind [comparand]

@[grind ←]
theorem nullTest_heedless (left : Expr) : Heedless Eq (nullTest env inner left) := by
  grind [nullTest]

@[grind ←]
theorem matching_heedless (left : Expr) : Heedless Eq (matching env inner left) := by
  refine .bind (skipKeyword_heedless _) fun negated => .bind current_heedless fun t => ?_
  split <;> grind

@[grind ←]
theorem operandPredicate_heedless : Heedless Eq (operandPredicate env inner) := by
  grind [operandPredicate]

/-- An attempt that is given up goes back to readings that are apart as at its start. -/
@[grind ←]
theorem attemptGroup_heedless : Heedless Eq (attemptGroup env inner) := by
  intro r r' hr
  have hgroup := hin.group r r' hr
  have hgoesOn : Heedless Eq (operandGoesOn env) := by grind [operandGoesOn]
  unfold attemptGroup
  revert hgroup
  generalize inner.group r = x
  generalize inner.group r' = x'
  rintro (@⟨conditions, _, s, s', rfl, hs⟩ | @⟨f, _, s, s', rfl, hs⟩)
  · have hbehind := hgoesOn s s' hs
    revert hbehind
    dsimp only
    generalize operandGoesOn env s = y
    generalize operandGoesOn env s' = y'
    rintro (@⟨goesOn, _, u, u', rfl, hu⟩ | @⟨f, _, u, u', rfl, hu⟩)
    · cases goesOn with
      | false => exact .ok rfl hu
      | true => exact .ok rfl (hr.onLevel hu.nesting)
    · exact .error rfl hu
  · dsimp only
    rw [hs.nesting]
    split
    · exact .ok rfl (hr.onLevel hs.nesting)
    · exact .error rfl hs

@[grind ←]
theorem predicate_heedless : Heedless Eq (predicate env inner) := by
  refine .bind current_heedless fun t => ?_
  have hpredicate := hin.predicate
  split <;> grind

@[grind ←]
theorem conditions_heedless : Heedless Eq (conditions env inner) := by
  refine .repeating (fun (connector, done) => ?_) _
  grind

@[grind ←]
theorem group_heedless : Heedless Eq (group env inner) := by
  grind [group]

@[grind ←]
theorem conditionClause_heedless (keyword : Keyword) :
    Heedless Eq (conditionClause env inner keyword) := by
  grind [conditionClause]

/-! ### Sources and orders -/

@[grind ←]
theorem tableFactor_heedless : Heedless Eq (tableFactor env inner) := by
  have hsources := hin.sources
  refine .bind (atSymbol_heedless _) fun paren => ?_
  split
  · refine .bind here_heedless fun start => .bind (acceptSymbol_heedless _) fun opening => ?_
    grind
  · grind

@[grind ←]
theorem optionalJoin_heedless : Heedless Eq (optionalJoin env inner) := by
  refine .bind (skipKeyword_heedless _) fun natural => .bind (joinKind_heedless _) fun kind => ?_
  split <;> grind

@[grind ←]
theorem tableSource_heedless : Heedless Eq (tableSource env inner) := by
  grind [tableSource]

@[grind ←]
theorem tableSources_heedless : Heedless Eq (tableSources env inner) := by
  grind [tableSources]

@[grind ←]
theorem fromClause_heedless : Heedless Eq (fromClause env inner) := by
  grind [fromClause]

@[grind ←]
theorem orderItem_heedless : Heedless Eq (orderItem env inner) := by
  grind [orderItem]

@[grind ←]
theorem orderBy_heedless : Heedless Eq (orderBy env inner) := by
  grind [orderBy]

@[grind ←]
theorem groupBy_heedless : Heedless Eq (groupBy env inner) := by
  refine .bind (skipKeyword_heedless _) fun present => ?_
  split
  · refine .bind (acceptKeyword_heedless _) fun _ =>
      .bind (commaSeparated_heedless (orderItem_heedless hin)) fun items => ?_
    grind
  · exact .pure _

/-! ### Queries -/

/-- A query resolves its scope at its end out of the draft, which is equal in both readings; the
passages are no part of it. -/
theorem query_heedless : Heedless Eq (query env inner) := by
  refine .bind here_heedless fun start => .bind (acceptKeyword_heedless _) fun _ =>
    .bind distinctness_heedless fun distinct => ?_
  extract_lets clauses
  have hclauses : ∀ u, Heedless Eq (clauses u) := by
    refine fun _ => .bind optionalTop_heedless fun top =>
      .bind (commaSeparated_heedless (selectItem_heedless hin)) fun items =>
      .bind (fromClause_heedless hin) fun sources =>
      .bind (conditionClause_heedless hin .WHERE) fun filter =>
      .bind (groupBy_heedless hin) fun groupBy =>
      .bind (conditionClause_heedless hin .HAVING) fun having =>
      .bind (orderBy_heedless hin) fun orderBy =>
      .bind here_heedless fun pagingStart => .bind optionalPaging_heedless fun paging => ?_
    extract_lets options
    have hoptions : ∀ u, Heedless Eq (options u) :=
      fun _ => .bind trailingOptions_heedless fun (lock, option) =>
        .bind refuseSetOperation_heedless fun _ => .bind lastEnd_heedless fun stop =>
        .getDraft (f := fun d => return (
          { distinct, items, sources, filter, groupBy, having, orderBy, paging := paging <|> top
            lock, option, scope := d.finish, span := ⟨start, stop⟩ } : Query)) fun _ => .pure _
    split
    · exact .bind (failAt_heedless _ _) hoptions
    · exact hoptions ()
  split
  · exact .bind (skipKeywords_heedless _) hclauses
  · exact hclauses ()

end Nested

end SqlMarkers.Reader

namespace SqlMarkers

open Reader in
/-- However deep it is nested, no reader looks at the passages. -/
theorem Inner.heedless_upTo (env : Setting) (n : Nat) : (Inner.upTo env n).Heedless := by
  induction n with
  | zero =>
      exact ⟨refuseNesting_heedless env, fun _ => refuseNesting_heedless env,
        refuseNesting_heedless env, refuseNesting_heedless env, refuseNesting_heedless env⟩
  | succ n ih =>
      exact ⟨nested_heedless env (query_heedless ih),
        fun hD => nested_heedless env (operand_heedless ih hD),
        nested_heedless env (predicate_heedless ih), nested_heedless env (group_heedless ih),
        nested_heedless env (tableSources_heedless ih)⟩

end SqlMarkers
