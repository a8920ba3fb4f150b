/-
SqlMarkers.Proofs.Shifting.Clause — select items, orders and paging further on in a text.

`Slides n f` compares a reader with itself `n` bytes further on: both take the same branches,
and what the second one gives is what the first one gave, moved by `f`. What holds no span,
such as a direction or the answer of a look ahead, is moved by `id`.

One offset here is no offset of a token. The text of an aggregate's arguments ends one byte in
front of the closing parenthesis, and a subtraction of natural numbers does not move along at
zero. So the lemma on parentheses tells also that they end behind the start of the text
(`parentheses_follows`), which is what `aggregateItem_slides` needs.
-/
import SqlMarkers.Proofs.Shifting.Source
import SqlMarkers.Reader.Query

namespace SqlMarkers.Reader

variable {n : Nat} {env env' : Setting} {inner inner' : Inner}

/-! ## Select items -/

theorem fullOperand_slides (hin : inner.Slides n inner') :
    Reader.Slides n id (fullOperand inner) (fullOperand inner') :=
  (operand_slides hin).bind fun _ => (continuation_slides hin).bind fun _ => .pure rfl

/-- Whether `NOT` belongs to an operator is a look at the kind and text of the next token. -/
theorem negatesOperator_slides (h : env.Behind n env') :
    Reader.Slides n id (negatesOperator env) (negatesOperator env') := by
  refine peek_slides.bind fun t => .pure ?_
  rw [isRegexp_shift h]
  rfl

/-- The operators behind a select item. Each round starts at a token that has the same kind in
both places, so both loops end behind the same number of rounds. -/
theorem comparisonTail_slides (h : env.Behind n env') (hin : inner.Slides n inner') :
    Reader.Slides n id (comparisonTail env inner) (comparisonTail env' inner') := by
  refine Follows.repeating (k := id) (fun found => ?_) false
  have hoperand : Reader.Follows n
      (Round.Alike (fun b b' => b' = id b) (fun b b' => b' = id b))
      (do next; fullOperand inner; return .again true : Reader (Round Bool Bool))
      (do next; fullOperand inner'; return .again true) :=
    next_slides.follows fun _ => (fullOperand_slides hin).follows fun _ => Agree.pure (.again rfl)
  refine current_slides.follows fun t => ?_
  rw [Token.shift_kind]
  split
  · split
    · exact hoperand
    · exact Agree.pure (.stop rfl)
  · exact next_slides.follows fun _ => (skipKeyword_slides _).follows fun _ =>
      (operand_slides hin).follows fun _ => Agree.pure (.again rfl)
  · refine (negatesOperator_slides h).follows fun negates => ?_
    cases negates with
    | true => exact next_slides.follows fun _ => Agree.pure (.again rfl)
    | false => exact Agree.pure (.stop rfl)
  · exact hoperand
  · exact hoperand
  · exact next_slides.follows fun _ => (fullOperand_slides hin).follows fun _ =>
      (acceptKeyword_slides _).follows fun _ => (fullOperand_slides hin).follows fun _ =>
        Agree.pure (.again rfl)
  · rw [isRegexp_shift h]
    split
    · exact hoperand
    · exact Agree.pure (.stop rfl)

theorem aggregateAt?_slides : Reader.Slides n id aggregateAt? aggregateAt? := by
  refine current_slides.bind fun t => ?_
  rw [Token.shift_kind, Token.shift_text]
  split
  · refine peek_slides.bind fun u => ?_
    rw [Token.shift_isSymbol]
    split <;> exact .pure rfl
  · exact .pure rfl

theorem atOwnedStar_slides : Reader.Slides n id atOwnedStar atOwnedStar := by
  refine current_slides.bind fun t => ?_
  rw [Token.shift_isName]
  split
  · refine (peekNth_slides 1).bind fun u => ?_
    rw [Token.shift_isSymbol]
    split
    · exact (peekNth_slides 2).bind fun v => .pure rfl
    · exact .pure rfl
  · exact .pure rfl

/-- One byte less is one byte less further on, as long as there is one. -/
theorem down_shift {stop : Nat} (h : 0 < stop) :
    Reader.Slides n (· + n) (Counter.down stop) (Counter.down (stop + n)) := by
  rw [Counter.down, Counter.down, if_pos h, if_pos (Nat.add_pos_left h n)]
  exact .pure (by omega)

/-- An aggregate, with its arguments as text. A tail behind it makes an expression of the whole
item, in both places or in neither. -/
theorem aggregateItem_slides (h : env.Behind n env') (hin : inner.Slides n inner')
    (function : Aggregate) :
    Reader.Slides n (SelectItem.shift n) (aggregateItem env inner function)
      (aggregateItem env' inner' function) := by
  refine here_slides.bind fun start => next_slides.bind fun _ => ?_
  refine Agree.bind (parentheses_follows hin) ?_
  rintro arguments _ ⟨rfl, hstop⟩
  extract_lets item item'
  have hitem : ∀ goesOn, Reader.Slides n (SelectItem.shift n) (item goesOn) (item' goesOn) := by
    intro goesOn
    dsimp only [item, item']
    split
    · exact (verbatimFrom_slides h _).bind fun e => (optionalAlias_slides h).bind fun _ => .pure rfl
    -- Without the bound on the end of the arguments both sides could be cut off at zero.
    · refine (down_shift hstop).bind fun argumentsStop => lastEnd_slides.bind fun stop => ?_
      refine (optionalAlias_slides h).bind fun aliasName => .pure ?_
      rw [Span.shift_start, Nat.add_right_comm, h.text]
      rfl
  refine (continuation_slides hin).bindSame fun goesOn => ?_
  split
  · exact hitem true
  · exact (comparisonTail_slides h hin).bindSame hitem

/-- An expression that goes on with comparisons is kept as text. That text is the same one in
both places, since it is cut out of the moved text by a moved span. -/
theorem expressionItem_slides (h : env.Behind n env') (hin : inner.Slides n inner') :
    Reader.Slides n (SelectItem.shift n) (expressionItem env inner)
      (expressionItem env' inner') := by
  have hbehind : ∀ e, Reader.Slides n (SelectItem.shift n)
      (do return .expr e (← optionalAlias env))
      (do return .expr (e.shift n) (← optionalAlias env')) :=
    fun e => (optionalAlias_slides h).bind fun _ => .pure rfl
  refine here_slides.bind fun start => (expression_slides h hin).bind fun e => ?_
  refine (comparisonTail_slides h hin).bindSame fun found => ?_
  split
  · exact (verbatimFrom_slides h _).bind hbehind
  · exact hbehind e

/-- The three tokens of `owner.*` are consumed one by one; its span is moved as a whole. -/
theorem selectItem_slides (h : env.Behind n env') (hin : inner.Slides n inner') :
    Reader.Slides n (SelectItem.shift n) (selectItem env inner) (selectItem env' inner') := by
  refine current_slides.bind fun t => ?_
  rw [Token.shift_isSymbol]
  split
  · exact next_slides.bind fun _ => .pure rfl
  · refine atOwnedStar_slides.bindSame fun owned => ?_
    split
    · exact (noteOwner_slides t).bind fun _ => next_slides.bind fun _ => next_slides.bind fun _ =>
        next_slides.bind fun _ => (nameOf_slides t).bind fun name =>
          lastEnd_slides.bind fun stop => .pure rfl
    · refine aggregateAt?_slides.bindSame fun function => ?_
      split
      · exact aggregateItem_slides h hin _
      · exact expressionItem_slides h hin

/-! ## Paging -/

/-- A placeholder has the same index in both places: the parameters in front of it are the same
ones. -/
theorem pagingValue_slides : Reader.Slides n (PagingValue.shift n) pagingValue pagingValue := by
  refine current_slides.bind fun t => ?_
  rw [Token.shift_kind]
  split
  · exact nextParameter_slides.bind fun index => next_slides.bind fun _ => .pure rfl
  -- Integers, in both notations.
  iterate 2
    · rw [Token.shift_integer?]
      split
      · exact next_slides.bind fun _ => .pure rfl
      · exact failAt_slides _ _
  · exact failExpected_slides _

/-- `OFFSET ... FETCH`, where the faults for missing words are moved as well. -/
theorem offsetFetch_slides : Reader.Slides n (Paging.shift n) offsetFetch offsetFetch := by
  refine (skipKeyword_slides _).bindSame fun offset => ?_
  extract_lets fetch
  have hfetch : ∀ offset, Reader.Slides n (Paging.shift n) (fetch offset)
      (fetch (offset.map (PagingValue.shift n))) := by
    intro offset
    refine (skipKeyword_slides _).bindSame fun present => ?_
    split
    · refine (skipAnyOf_slides _).bindSame fun first => failUnless_slides ?_
      refine pagingValue_slides.bind fun count => (skipAnyOf_slides _).bindSame fun rows => ?_
      exact failUnless_slides ((acceptKeyword_slides _).bind fun _ => .pure rfl)
    · exact .pure rfl
  split
  · exact pagingValue_slides.bind fun v => (skipAnyOf_slides _).bind fun _ => hfetch (some v)
  · exact hfetch none

theorem optionalPaging_slides :
    Reader.Slides n (Option.map (Paging.shift n)) optionalPaging optionalPaging := by
  have hoffset : Reader.Slides n (Option.map (Paging.shift n)) (do return some (← offsetFetch))
      (do return some (← offsetFetch)) := offsetFetch_slides.bind fun _ => .pure rfl
  refine current_slides.bind fun t => ?_
  rw [Token.shift_kind]
  split
  · refine next_slides.bind fun _ => pagingValue_slides.bind fun first => ?_
    refine (skipSymbol_slides _).bindSame fun comma => ?_
    split
    · exact pagingValue_slides.bind fun count => .pure rfl
    · refine (skipKeyword_slides _).bindSame fun offset => ?_
      split
      · exact pagingValue_slides.bind fun offset => .pure rfl
      · exact .pure rfl
  · exact hoffset
  · exact hoffset
  · exact .pure rfl

/-- `TOP` is looked for in SQL Server only, and both settings have the same dialect. -/
theorem optionalTop_slides (h : env.Behind n env') :
    Reader.Slides n (Option.map (Paging.shift n)) (optionalTop env) (optionalTop env') := by
  rw [optionalTop, optionalTop, h.dialect]
  split
  · exact .pure rfl
  · refine (skipKeyword_slides _).bindSame fun present => ?_
    split
    · exact .pure rfl
    · refine (atSymbol_slides _).bindSame fun paren => ?_
      extract_lets top
      have htop : ∀ count, Reader.Slides n (Option.map (Paging.shift n)) (top count)
          (top (count.shift n)) := by
        intro count
        refine (skipKeyword_slides _).bindSame fun percent => ?_
        refine peekBehind_slides (fun _ => rfl) fun withTies => ?_
        split
        · exact next_slides.bind fun _ => next_slides.bind fun _ => .pure rfl
        · exact .pure rfl
      split
      · exact (acceptSymbol_slides _).bind fun opening => pagingValue_slides.bind fun v =>
          (close_slides opening).bind fun _ => htop v
      · exact pagingValue_slides.bind htop

/-! ## Orders -/

theorem optionalDirection_slides : Reader.Slides n id optionalDirection optionalDirection := by
  refine current_slides.bind fun t => ?_
  rw [Token.shift_kind]
  split
  · exact next_slides.bind fun _ => .pure rfl
  · exact next_slides.bind fun _ => .pure rfl
  · exact .pure rfl

theorem optionalNulls_slides : Reader.Slides n id optionalNulls optionalNulls := by
  refine (skipKeyword_slides _).bindSame fun nulls => ?_
  split
  · refine current_slides.bind fun t => ?_
    rw [Token.shift_kind]
    split
    · exact next_slides.bind fun _ => .pure rfl
    · exact next_slides.bind fun _ => .pure rfl
    · exact failExpected_slides _
  · exact .pure rfl

theorem orderItem_slides (h : env.Behind n env') (hin : inner.Slides n inner') :
    Reader.Slides n (OrderItem.shift n) (orderItem env inner) (orderItem env' inner') :=
  (expression_slides h hin).bind fun _ => optionalDirection_slides.bind fun _ =>
    optionalNulls_slides.bind fun _ => .pure rfl

theorem orderBy_slides (h : env.Behind n env') (hin : inner.Slides n inner') :
    Reader.Slides n (List.map (OrderItem.shift n)) (orderBy env inner) (orderBy env' inner') := by
  refine (skipKeyword_slides _).bindSame fun present => ?_
  split
  · exact (acceptKeyword_slides _).bind fun _ => commaSeparated_slides (orderItem_slides h hin)
  · exact .pure rfl

/-- `WITH ROLLUP` behind the entries is consumed and leaves no trace in the tree. -/
theorem groupBy_slides (h : env.Behind n env') (hin : inner.Slides n inner') :
    Reader.Slides n (List.map (OrderItem.shift n)) (groupBy env inner) (groupBy env' inner') := by
  refine (skipKeyword_slides _).bindSame fun present => ?_
  split
  · refine (acceptKeyword_slides _).bind fun _ => ?_
    refine (commaSeparated_slides (orderItem_slides h hin)).bind fun items => ?_
    refine peekBehind_slides (fun _ => rfl) fun rollup => ?_
    split
    · exact next_slides.bind fun _ => next_slides.bind fun _ => .pure rfl
    · exact .pure rfl
  · exact .pure rfl

end SqlMarkers.Reader
