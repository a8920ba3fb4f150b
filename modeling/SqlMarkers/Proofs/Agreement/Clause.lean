/-
SqlMarkers.Proofs.Agreement.Clause — select items, orders and paging in twin
settings.

Twin settings differ in their catalogue and in what `w` does not tell apart, so the readers
of the clauses take the same branches in both: they look at kinds of tokens and at words
only, and never at a table. What they give differs at most in the texts that `w` is applied
to, which is what the outlines of the trees leave out. Where the result has no such text,
the two results are the same.
-/
import SqlMarkers.Proofs.Agreement.Source
import SqlMarkers.Reader.Query

namespace SqlMarkers.Reader

variable {w : String → String} {env env' : Setting} {inner inner' : Inner}

/-! ## Select items -/

/-- Reading over an operand and what continues it asks for no text at all. -/
theorem fullOperand_agrees (hin : inner.Agree w inner') :
    Reader.Agree w Eq (fullOperand inner) (fullOperand inner') :=
  (operand_agrees hin).bind fun _ _ _ => (continuation_agrees hin).bind fun _ _ _ => .pure rfl

/-- Whether a `NOT` belongs to the operator behind it depends on a keyword or on the words of
`REGEXP`, which are the same in twin settings. -/
theorem negatesOperator_agrees (h : env.Twin w env') :
    Reader.Agree w Eq (negatesOperator env) (negatesOperator env') := by
  refine peek_agrees.bind fun t t' ht => .pure ?_
  rw [ht.isKeyword, ht.isKeyword, ht.isKeyword, isRegexp_congr h ht]

/-- Comparisons and tests are found behind an item in both settings or in neither, so an item
is kept as source text in both or in neither. -/
theorem comparisonTail_agrees (h : env.Twin w env') (hin : inner.Agree w inner') :
    Reader.Agree w Eq (comparisonTail env inner) (comparisonTail env' inner') := by
  refine repeating_agrees (B := Eq) ?_ rfl
  rintro found _ rfl
  have hoperand : Reader.Agree w (Round.Alike Eq Eq)
      (do next; fullOperand inner; return .again true : Reader (Round Bool Bool))
      (do next; fullOperand inner'; return .again true) :=
    next_agrees.bind fun _ _ _ => (fullOperand_agrees hin).bind fun _ _ _ => .pure (.again rfl)
  refine current_agrees.bind fun t t' ht => ?_
  rw [ht.kind]
  split
  · split
    · exact hoperand
    · exact .pure (.stop rfl)
  · exact next_agrees.bind fun _ _ _ => (skipKeyword_agrees _).bind fun _ _ _ =>
      (operand_agrees hin).bind fun _ _ _ => .pure (.again rfl)
  · refine (negatesOperator_agrees h).bind ?_
    rintro negates _ rfl
    split
    · exact next_agrees.bind fun _ _ _ => .pure (.again rfl)
    · exact .pure (.stop rfl)
  · exact hoperand
  · exact hoperand
  · exact next_agrees.bind fun _ _ _ => (fullOperand_agrees hin).bind fun _ _ _ =>
      (acceptKeyword_agrees _).bind fun _ _ _ => (fullOperand_agrees hin).bind fun _ _ _ =>
        .pure (.again rfl)
  · rw [isRegexp_congr h ht]
    split
    · exact hoperand
    · exact .pure (.stop rfl)

/-- The same aggregate function is recognized: its name is compared in any case, and words that
`w` does not tell apart are the same up to case. -/
theorem aggregateAt?_agrees : Reader.Agree w Eq aggregateAt? aggregateAt? := by
  refine current_agrees.bind fun t t' ht => ?_
  have hword : Aggregate.ofName? t.text = Aggregate.ofName? t'.text := by
    have hsame : ∀ a : Aggregate, Text.sameWord a.name t.text = Text.sameWord a.name t'.text := by
      intro a
      rw [Text.sameWord, String.ofList_injective ht.folded, Text.sameWord]
    simp only [Aggregate.ofName?, hsame]
  rw [ht.kind, hword]
  split
  · refine peek_agrees.bind fun u u' hu => ?_
    rw [hu.isSymbol]
    split <;> exact .pure rfl
  · exact .pure rfl

/-- `owner.*` is three tokens whose kinds are all that counts. -/
theorem atOwnedStar_agrees : Reader.Agree w Eq atOwnedStar atOwnedStar := by
  refine current_agrees.bind fun t t' ht => ?_
  rw [ht.isName]
  split
  · refine (peekNth_agrees 1).bind fun u u' hu => ?_
    rw [hu.isSymbol]
    split
    · exact (peekNth_agrees 2).bind fun v v' hv => .pure (hv.isSymbol _)
    · exact .pure rfl
  · exact .pure rfl

/-- An aggregate call is kept as source text in both settings or in neither, and its argument is
cut out of the two sources at the same offsets. -/
theorem aggregateItem_agrees (h : env.Twin w env') (hin : inner.Agree w inner')
    (function : Aggregate) :
    Reader.Agree w (Same (SelectItem.outline w)) (aggregateItem env inner function)
      (aggregateItem env' inner' function) := by
  refine here_agrees.bind ?_
  rintro start _ rfl
  refine next_agrees.bind fun _ _ _ => (parentheses_agrees hin).bind ?_
  rintro arguments _ rfl
  extract_lets item item'
  -- Both ways to learn whether the call goes on lead to the same rest of the reader.
  have hitem : ∀ goesOn goesOn' : Bool, goesOn = goesOn' →
      Reader.Agree w (Same (SelectItem.outline w)) (item goesOn) (item' goesOn') := by
    rintro goesOn _ rfl
    simp only [item, item']
    split
    · refine (verbatimFrom_agrees h _).bind fun e e' he => ?_
      refine (optionalAlias_agrees h).bind fun x x' hx => .pure ?_
      simp only [Same, SelectItem.outline, he.eq, hx.eq]
    · refine (down_agrees _).bind ?_
      rintro argumentsStop _ rfl
      refine lastEnd_agrees.bind ?_
      rintro stop _ rfl
      refine (optionalAlias_agrees h).bind fun x x' hx => .pure ?_
      simp only [Same, SelectItem.outline, h.text, hx.eq]
  refine (continuation_agrees hin).bind ?_
  rintro goesOn _ rfl
  split
  · exact hitem true true rfl
  · exact (comparisonTail_agrees h hin).bind hitem

/-- An expression and its alias have the same outline, whether it is kept as text or not. -/
theorem expressionItem_agrees (h : env.Twin w env') (hin : inner.Agree w inner') :
    Reader.Agree w (Same (SelectItem.outline w)) (expressionItem env inner)
      (expressionItem env' inner') := by
  refine here_agrees.bind ?_
  rintro start _ rfl
  have hbehind : ∀ e e', Same (Expr.outline w) e e' → Reader.Agree w (Same (SelectItem.outline w))
      (do return .expr e (← optionalAlias env)) (do return .expr e' (← optionalAlias env')) := by
    intro e e' he
    refine (optionalAlias_agrees h).bind fun x x' hx => .pure ?_
    simp only [Same, SelectItem.outline, he.eq, hx.eq]
  refine (expression_agrees h hin).bind fun e e' he => (comparisonTail_agrees h hin).bind ?_
  rintro found _ rfl
  split
  · exact (verbatimFrom_agrees h _).bind hbehind
  · exact hbehind e e' he

/-- Select items have the same outline. -/
theorem selectItem_agrees (h : env.Twin w env') (hin : inner.Agree w inner') :
    Reader.Agree w (Same (SelectItem.outline w)) (selectItem env inner)
      (selectItem env' inner') := by
  refine current_agrees.bind fun t t' ht => ?_
  rw [ht.isSymbol, ht.span]
  split
  · exact next_agrees.bind fun _ _ _ => .pure rfl
  · refine atOwnedStar_agrees.bind ?_
    rintro owned _ rfl
    split
    · refine (noteOwner_agrees ht).bind fun _ _ _ => next_agrees.bind fun _ _ _ => ?_
      refine next_agrees.bind fun _ _ _ => next_agrees.bind fun _ _ _ => ?_
      refine (nameOf_agrees ht).bind fun name name' hname => lastEnd_agrees.bind ?_
      rintro stop _ rfl
      refine .pure ?_
      simp only [Same, SelectItem.outline, Option.map_some, Ident.outline, hname.eq]
    · refine aggregateAt?_agrees.bind ?_
      rintro function _ rfl
      split
      · exact aggregateItem_agrees h hin _
      · exact expressionItem_agrees h hin

/-! ## Paging -/

/-- Paging values hold numbers, indices and offsets, none of which depends on the setting: from
here on the results are the same. -/
theorem pagingValue_agrees : Reader.Agree w Eq pagingValue pagingValue := by
  refine current_agrees.bind fun t t' ht => ?_
  rw [ht.kind]
  split
  · refine nextParameter_agrees.bind ?_
    rintro index _ rfl
    rw [ht.span]
    exact next_agrees.bind fun _ _ _ => .pure rfl
  -- Integers, in both notations.
  iterate 2
    · rw [ht.integer, ht.span]
      split
      · exact next_agrees.bind fun _ _ _ => .pure rfl
      · exact failAt_agrees _ _
  · exact failExpected_agrees _

/-- `OFFSET` and `FETCH`, each of them optional, are told by keywords alone. -/
theorem offsetFetch_agrees : Reader.Agree w Eq offsetFetch offsetFetch := by
  refine (skipKeyword_agrees _).bind ?_
  rintro offset _ rfl
  extract_lets fetch
  -- `FETCH` is read behind an offset as well as without one.
  have hfetch : ∀ offset, Reader.Agree w Eq (fetch offset) (fetch offset) := by
    intro offset
    refine (skipKeyword_agrees _).bind ?_
    rintro present _ rfl
    split
    · refine (skipAnyOf_agrees _).bind ?_
      rintro first _ rfl
      refine failUnless_agrees ?_
      refine pagingValue_agrees.bind ?_
      rintro count _ rfl
      refine (skipAnyOf_agrees _).bind ?_
      rintro rows _ rfl
      refine failUnless_agrees ?_
      exact (acceptKeyword_agrees _).bind fun _ _ _ => .pure rfl
    · exact .pure rfl
  split
  · refine pagingValue_agrees.bind ?_
    rintro v _ rfl
    exact (skipAnyOf_agrees _).bind fun _ _ _ => hfetch (some v)
  · exact hfetch none

/-- The form of a paging clause is decided by its first keyword. -/
theorem optionalPaging_agrees : Reader.Agree w Eq optionalPaging optionalPaging := by
  have hoffset : Reader.Agree w Eq (do return some (← offsetFetch)) (do return some (← offsetFetch)) :=
    offsetFetch_agrees.bind fun _ _ hp => .pure (congrArg some hp)
  refine current_agrees.bind fun t t' ht => ?_
  rw [ht.kind]
  split
  · refine next_agrees.bind fun _ _ _ => pagingValue_agrees.bind ?_
    rintro first _ rfl
    refine (skipSymbol_agrees _).bind ?_
    rintro comma _ rfl
    split
    · refine pagingValue_agrees.bind ?_
      rintro count _ rfl
      exact .pure rfl
    · refine (skipKeyword_agrees _).bind ?_
      rintro offset _ rfl
      split
      · refine pagingValue_agrees.bind ?_
        rintro offset _ rfl
        exact .pure rfl
      · exact .pure rfl
  · exact hoffset
  · exact hoffset
  · exact .pure rfl

/-- `TOP` is only looked for where the dialect has it, and twin settings have the same
dialect. -/
theorem optionalTop_agrees (h : env.Twin w env') :
    Reader.Agree w Eq (optionalTop env) (optionalTop env') := by
  rw [optionalTop, h.dialect, optionalTop]
  split
  · exact .pure rfl
  · refine (skipKeyword_agrees _).bind ?_
    rintro present _ rfl
    split
    · exact .pure rfl
    · refine (atSymbol_agrees _).bind ?_
      rintro paren _ rfl
      extract_lets top
      -- What follows the count is read behind both forms of it, with parentheses and without.
      have htop : ∀ count, Reader.Agree w Eq (top count) (top count) := by
        intro count
        refine (skipKeyword_agrees _).bind ?_
        rintro percent _ rfl
        refine peekBehind_agrees (fun t t' ht => ht.isKeyword _) fun withTies => ?_
        split
        · exact next_agrees.bind fun _ _ _ => next_agrees.bind fun _ _ _ => .pure rfl
        · exact .pure rfl
      split
      · refine (acceptSymbol_agrees _).bind fun opening opening' hopening => ?_
        refine pagingValue_agrees.bind ?_
        rintro v _ rfl
        exact (close_agrees hopening).bind fun _ _ _ => htop v
      · refine pagingValue_agrees.bind ?_
        rintro v _ rfl
        exact htop v

/-! ## Orders -/

theorem optionalDirection_agrees : Reader.Agree w Eq optionalDirection optionalDirection := by
  refine current_agrees.bind fun t t' ht => ?_
  rw [ht.kind]
  split
  · exact next_agrees.bind fun _ _ _ => .pure rfl
  · exact next_agrees.bind fun _ _ _ => .pure rfl
  · exact .pure rfl

/-- Behind `NULLS` there is one of two words, or the same error. -/
theorem optionalNulls_agrees : Reader.Agree w Eq optionalNulls optionalNulls := by
  refine (skipKeyword_agrees _).bind ?_
  rintro nulls _ rfl
  split
  · refine current_agrees.bind fun t t' ht => ?_
    rw [ht.kind]
    split
    · exact next_agrees.bind fun _ _ _ => .pure rfl
    · exact next_agrees.bind fun _ _ _ => .pure rfl
    · exact failExpected_agrees _
  · exact .pure rfl

/-- Only the expression of an entry has texts. -/
theorem orderItem_agrees (h : env.Twin w env') (hin : inner.Agree w inner') :
    Reader.Agree w (Same (OrderItem.outline w)) (orderItem env inner) (orderItem env' inner') := by
  refine (expression_agrees h hin).bind fun e e' he => optionalDirection_agrees.bind ?_
  rintro direction _ rfl
  refine optionalNulls_agrees.bind ?_
  rintro nulls _ rfl
  refine .pure ?_
  simp only [Same, OrderItem.outline, he.eq]

/-- An `ORDER BY` has as many entries in both settings, with the same outlines. -/
theorem orderBy_agrees (h : env.Twin w env') (hin : inner.Agree w inner') :
    Reader.Agree w (Same (List.map (OrderItem.outline w))) (orderBy env inner)
      (orderBy env' inner') := by
  refine (skipKeyword_agrees _).bind ?_
  rintro present _ rfl
  split
  · exact (acceptKeyword_agrees _).bind fun _ _ _ => commaSeparated_agrees (orderItem_agrees h hin)
  · exact .pure rfl

/-- The words `WITH ROLLUP` behind a `GROUP BY` are skipped in both settings or in neither. -/
theorem groupBy_agrees (h : env.Twin w env') (hin : inner.Agree w inner') :
    Reader.Agree w (Same (List.map (OrderItem.outline w))) (groupBy env inner)
      (groupBy env' inner') := by
  refine (skipKeyword_agrees _).bind ?_
  rintro present _ rfl
  split
  · refine (acceptKeyword_agrees _).bind fun _ _ _ => ?_
    refine (commaSeparated_agrees (orderItem_agrees h hin)).bind fun items items' hitems => ?_
    refine peekBehind_agrees (fun t t' ht => ht.isKeyword _) fun rollup => ?_
    split
    · exact next_agrees.bind fun _ _ _ => next_agrees.bind fun _ _ _ => .pure hitems
    · exact .pure hitems
  · exact .pure rfl

end SqlMarkers.Reader
