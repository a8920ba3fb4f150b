/-
SqlMarkers.Proofs.Landing.Clause — where select items, orders and paging land.

Each reader starts at a reading `r` in its place. What it gives sits between the cursors it was
read from and to, `r.cursor.upTo r'.cursor`, and the readings that follow only move on from
there. So a part that was read early is still inside when more was read behind it: its frame
grows, and `mono` carries `Sits` along.

Whether a step may consume the current token is known from the look that came before it: a
token with a kind, name or symbol that was asked for is not the end of the input. A paging
value adds one thing: an integer token has a value, since it would be no token otherwise
(`TokenStream.valued_ofText`), so the fault for a number without one is not reached.
-/
import SqlMarkers.Proofs.Landing.Operand
import SqlMarkers.Reader.Query

namespace SqlMarkers

variable {env : Setting} {inner : Inner} {lo : Nat} {s r r' : Reading}

namespace Reader

/-! ## Select items -/

/-- An operand moves on; what goes on behind it only moves further. -/
theorem fullOperand_lands (hi : inner.Landing env) (hr : r.Placed env lo) :
    Lands env lo (fullOperand inner) r fun _ r' => r.cursor.Advances r'.cursor := by
  refine (operand_lands hi hr).bind fun _ r₁ hr₁ _ hadv => ?_
  exact (continuation_lands hi hr₁).bind fun _ r₂ hr₂ hgo _ => .pure hr₂ (hadv.goes hgo)

/-- A look at the next token moves nothing. -/
theorem negatesOperator_lands (hr : r.Placed env lo) :
    Lands env lo (negatesOperator env) r fun _ r' => r' = r := by
  refine (peek_lands hr).bind ?_
  rintro t r₁ - - ⟨rfl, -⟩
  exact .pure hr rfl

/-- Comparisons behind a select item move on if there are any. -/
theorem comparisonTail_lands (hi : inner.Landing env) (hr : r.Placed env lo) :
    Lands env lo (comparisonTail env inner) r r.MovedIf := by
  refine Lands.repeating r.MovedIf hr (.inr ⟨rfl, rfl⟩) ?_
  intro found r₁ hr₁ hgo hfound
  have hoperand : r₁.cursor.current.isEnd = false → Lands env lo (do
      next
      fullOperand inner
      return .again true : Reader (Round Bool Bool)) r₁ fun round r₃ =>
        round.Meets (fun found r₃ => r₁.cursor.Advances r₃.cursor ∧ r.MovedIf found r₃)
          r.MovedIf r₃ := by
    intro hend
    refine (next_lands hr₁ hend).bind fun _ r₂ hr₂ _ hover => ?_
    refine (fullOperand_lands hi hr₂).bind fun _ r₃ hr₃ hgo₃ _ => ?_
    exact again_lands hgo (hover.toAdvances.goes hgo₃) hr₃
  rw [lands_bind_current]
  split
  · rename_i hkind
    split
    · exact hoperand (Token.isEnd_of_kind hkind (by simp))
    · exact .pure hr₁ hfound
  · rename_i hkind
    refine (next_landsOf hr₁ hkind (by simp)).bind fun _ r₂ hr₂ _ hover => ?_
    refine (skipKeyword_lands hr₂ .NOT).bind fun _ r₃ hr₃ hgo₃ _ => ?_
    refine (operand_lands hi hr₃).bind fun _ r₄ hr₄ hgo₄ _ => ?_
    exact again_lands hgo (hover.toAdvances.goes (hgo₃.trans hgo₄)) hr₄
  · rename_i hkind
    refine (negatesOperator_lands hr₁).bind ?_
    rintro negates r₂ hr₂ - rfl
    split
    · refine (next_landsOf hr₂ hkind (by simp)).bind fun _ r₃ hr₃ _ hover => ?_
      exact again_lands hgo hover.toAdvances hr₃
    · exact .pure hr₂ hfound
  · rename_i hkind
    exact hoperand (Token.isEnd_of_kind hkind (by simp))
  · rename_i hkind
    exact hoperand (Token.isEnd_of_kind hkind (by simp))
  · rename_i hkind
    refine (next_landsOf hr₁ hkind (by simp)).bind fun _ r₂ hr₂ _ hover => ?_
    refine (fullOperand_lands hi hr₂).bind fun _ r₃ hr₃ hgo₃ _ => ?_
    refine (acceptKeyword_lands hr₃ .AND).bind fun _ r₄ hr₄ hgo₄ _ => ?_
    refine (fullOperand_lands hi hr₄).bind fun _ r₅ hr₅ hgo₅ _ => ?_
    exact again_lands hgo (hover.toAdvances.goes (hgo₃.trans (hgo₄.trans hgo₅))) hr₅
  · split
    · rename_i hregexp
      exact hoperand (Token.isEnd_of_isPlain (isPlain_of_isRegexp hregexp))
    · exact .pure hr₁ hfound

/-- Where an aggregate function is found, the current token is its name and no end. -/
theorem aggregateAt?_lands (hr : r.Placed env lo) :
    Lands env lo aggregateAt? r fun function r' => r' = r ∧
      (function.isSome = true → r.cursor.current.isEnd = false) := by
  rw [aggregateAt?, lands_bind_current]
  split
  · rename_i hkind
    refine (peek_lands hr).bind ?_
    rintro t r₁ - - ⟨rfl, -⟩
    split
    · exact .pure hr ⟨rfl, fun _ => Token.isEnd_of_kind hkind (by simp)⟩
    · exact .pure hr ⟨rfl, by simp⟩
  · exact .pure hr ⟨rfl, by simp⟩

/-- A look at `owner.*` moves nothing. Where it is found, there are three tokens to consume, and
none of them is the end of the input. -/
theorem atOwnedStar_lands (hr : r.Placed env lo) :
    Lands env lo atOwnedStar r fun b r' => r' = r ∧ (b = true →
      r.cursor.current.isEnd = false ∧
        (∃ dot, r.cursor.lookAhead 1 = .ok dot ∧ dot.isEnd = false) ∧
        ∃ star, r.cursor.lookAhead 2 = .ok star ∧ star.isEnd = false) := by
  rw [atOwnedStar, lands_bind_current]
  split
  · rename_i hname
    refine (peekNth_lands hr 1).bind ?_
    rintro dot r₁ - - ⟨rfl, hdot⟩
    split
    · rename_i hisDot
      refine (peekNth_lands hr 2).bind ?_
      rintro star r₂ - - ⟨rfl, hstar⟩
      refine .pure hr ⟨rfl, fun hisStar => ⟨Token.isEnd_of_isName hname, ?_, ?_⟩⟩
      · exact ⟨dot, hdot, Token.isEnd_of_isSymbol hisDot⟩
      · exact ⟨star, hstar, Token.isEnd_of_isSymbol hisStar⟩
    · exact .pure hr ⟨rfl, by simp⟩
  · exact .pure hr ⟨rfl, by simp⟩

/-- An alias behind an expression that was kept. -/
theorem aliased_lands (hr : r.Placed env lo) (hadv : s.cursor.Advances r.cursor) {e : Expr}
    (he : e.Sits env.page (s.cursor.upTo r.cursor)) :
    Completes env lo (SelectItem.Sits env.page)
      (do return .expr e (← optionalAlias env)) s r := by
  refine (optionalAlias_lands hr).bind fun aliasName r₁ hr₁ hgo _ => .pure hr₁ ?_
  have he₁ := Expr.bounded.mono he (Cursor.Goes.rfl.upTo_within hgo)
  exact ⟨hadv.goes hgo, he₁.1, he₁.2⟩

/-- An aggregate sits over its name and arguments. The text of the arguments ends in front of the
closing parenthesis, which is behind at least one byte, so the subtraction is a safe one. A
tail behind the arguments makes an expression of the whole. -/
theorem aggregateItem_lands (hi : inner.Landing env) (hr : r.Placed env lo)
    (hend : r.cursor.current.isEnd = false) (function : Aggregate) :
    Builds env lo (SelectItem.Sits env.page) (aggregateItem env inner function) r := by
  unfold Builds Completes
  rw [aggregateItem, lands_bind_here]
  refine (next_lands hr hend).bind fun _ r₁ hr₁ _ hover => ?_
  refine (parentheses_upTo_lands hi hr₁).bind fun arguments r₂ hr₂ hgo₂ ⟨hadv₂, hstop⟩ => ?_
  have hopened := hadv₂.start_lt
  refine (continuation_lands hi hr₂).bind fun continued r₃ hr₃ hgo₃ _ => ?_
  extract_lets item
  have hitem : ∀ {goesOn : Bool} {r₄ : Reading}, r₄.Placed env lo → r₃.cursor.Goes r₄.cursor →
      Completes env lo (SelectItem.Sits env.page) (item goesOn) r r₄ := by
    intro goesOn r₄ hr₄ hgo₄
    have hadv₄ := hover.toAdvances.goes (hgo₂.trans (hgo₃.trans hgo₄))
    simp only [item]
    split
    · refine (verbatimFrom_lands hr hr₄ hadv₄).bind fun e r₅ hr₅ _ ⟨hadv₅, he⟩ => ?_
      exact aliased_lands hr₅ hadv₅ he.sits
    -- An aggregate by itself: its arguments are the text up to one byte in front of `)`.
    · refine Counter.ensures_down (by omega) ?_
      refine lands_bind_lastEnd.2 ?_
      refine (optionalAlias_lands hr₄).bind fun aliasName r₅ hr₅ hgo₅ _ => .pure hr₅ ?_
      refine ⟨hadv₄.goes hgo₅, ?_, hr.cursor.frames hr₄.cursor hadv₄⟩
      exact Cursor.Goes.rfl.upTo_within hgo₅
  split
  · rw [lands_bind_pure]
    exact hitem hr₃ .rfl
  · exact (comparisonTail_lands hi hr₃).bind fun _ r₄ hr₄ hgo₄ _ => hitem hr₄ hgo₄

/-- An expression, or text from its start on where comparisons follow. In both cases an alias may
come behind it. -/
theorem expressionItem_lands (hi : inner.Landing env) (hr : r.Placed env lo) :
    Builds env lo (SelectItem.Sits env.page) (expressionItem env inner) r := by
  unfold Builds Completes
  rw [expressionItem, lands_bind_here]
  refine (expression_sits hi hr).bind fun e r₁ hr₁ _ ⟨hadv₁, he⟩ => ?_
  refine (comparisonTail_lands hi hr₁).bind ?_
  rintro found r₂ hr₂ hgo₂ (⟨rfl, -⟩ | ⟨rfl, rfl⟩)
  · refine (verbatimFrom_lands hr hr₂ (hadv₁.goes hgo₂)).bind fun e r₃ hr₃ _ ⟨hadv₃, he⟩ => ?_
    exact aliased_lands hr₃ hadv₃ he.sits
  · exact aliased_lands hr₂ hadv₁ he

/-- A select item: a star, a star with an owner, an aggregate or an expression. The owner of a star
is kept at its own token, inside the span of the item. -/
theorem selectItem_lands (hi : inner.Landing env) (hr : r.Placed env lo) :
    Builds env lo (SelectItem.Sits env.page) (selectItem env inner) r := by
  have hmem := hr.cursor.current_mem
  unfold Builds Completes
  rw [selectItem, lands_bind_current]
  split
  · rename_i hstar
    refine (next_lands hr (Token.isEnd_of_isSymbol hstar)).bind fun _ r₁ hr₁ _ hover => ?_
    refine .pure hr₁ ⟨hover.toAdvances, ?_, ?_, by simp⟩
    · rw [SelectItem.span, hover.span_eq]
      exact .rfl
    · rw [hover.span_eq]
      exact hr.cursor.frames hr₁.cursor hover.toAdvances
  · refine (atOwnedStar_lands hr).bind ?_
    rintro owned r₁ - - ⟨rfl, howned⟩
    split
    · rename_i h
      obtain ⟨hend, ⟨dot, hdot, hdotEnd⟩, star, hstar, hstarEnd⟩ := howned h
      refine (noteOwner_lands hr hmem).bind fun _ r₂ hr₂ _ hcursor => ?_
      rw [← hcursor] at hend hdot hstar
      refine (next_lands hr₂ hend).bind fun _ r₃ hr₃ _ hover₃ => ?_
      refine (next_lands hr₃ (hover₃.current_eq hdot ▸ hdotEnd)).bind fun _ r₄ hr₄ hgo₄ hover₄ => ?_
      have hstar₄ : r₃.cursor.lookAhead 1 = .ok star := (hover₃.lookAhead_eq 1).trans hstar
      refine (next_lands hr₄ (hover₄.current_eq hstar₄ ▸ hstarEnd)).bind
        fun _ r₅ hr₅ hgo₅ _ => ?_
      refine (nameOf_lands hr₅ hmem).bind ?_
      rintro name r₅ - - ⟨hname, rfl⟩
      rw [lands_bind_lastEnd]
      have hgo := hgo₄.trans hgo₅
      have hadv : r₁.cursor.Advances r₅.cursor := hcursor ▸ hover₃.toAdvances.goes hgo
      refine .pure hr₅ ⟨hadv, .rfl, hr.cursor.frames hr₅.cursor hadv, ?_⟩
      intro i hi
      obtain rfl := Option.mem_some_iff.1 hi
      refine ⟨?_, Setting.shows_of hmem hname⟩
      rw [← hcursor, hover₃.span_eq]
      exact Cursor.Goes.rfl.upTo_within hgo
    · refine (aggregateAt?_lands hr).bind ?_
      rintro function r₂ - - ⟨rfl, hend⟩
      split
      · exact aggregateItem_lands hi hr (hend rfl) _
      · exact expressionItem_lands hi hr

/-! ## Paging -/

/-- A paging value is one token, decoded: a placeholder or an integer. -/
theorem pagingValue_lands (hr : r.Placed env lo) :
    Builds env lo (PagingValue.Sits env.page) pagingValue r := by
  have hmem := hr.cursor.current_mem
  unfold Builds Completes
  rw [pagingValue, lands_bind_current]
  split
  · rename_i hkind
    have hend := Token.isEnd_of_kind hkind (by simp)
    refine countNext_lands hr hend fun hr₁ hover => .pure hr₁ ?_
    refine ⟨hover.toAdvances, ?_, Setting.shows_of hmem hkind⟩
    rw [← hover.span_eq]
    exact .rfl
  -- Integers, in both notations: each of them has a value.
  iterate 2
    · rename_i hkind
      split
      · rename_i v hv
        refine (next_landsOf hr hkind (by simp)).bind fun _ r₁ hr₁ _ hover => .pure hr₁ ?_
        refine ⟨hover.toAdvances, ?_, Setting.shows_of hmem hv⟩
        rw [← hover.span_eq]
        exact .rfl
      · rename_i hnone
        cases hnone ▸ (TokenStream.valued_ofText hmem).integer (by simp [hkind])
  · exact failExpected_lands hr _

/-- The values of `OFFSET ... FETCH` sit in the order of their places, the offset first. The words
between them only move on. -/
theorem offsetFetch_lands (hr : r.Placed env lo) :
    Lands env lo offsetFetch r fun p r' => p.Sits env.page (r.cursor.upTo r'.cursor) := by
  refine (skipKeyword_lands hr .OFFSET).bind fun hasOffset r₁ hr₁ hgo₁ _ => ?_
  extract_lets fetch
  have hfetch : ∀ {offset : Option PagingValue} {r₂ : Reading}, r₂.Placed env lo →
      r.cursor.Goes r₂.cursor → (∀ v ∈ offset, v.Sits env.page (r.cursor.upTo r₂.cursor)) →
      Lands env lo (fetch offset) r₂ fun p r' => p.Sits env.page (r.cursor.upTo r'.cursor) := by
    intro offset r₂ hr₂ hgo₂ hoffset
    refine (skipKeyword_lands hr₂ .FETCH).bind fun hasFetch r₃ hr₃ hgo₃ _ => ?_
    split
    -- The offset was read in front of `FETCH` and the count is behind it.
    · refine (skipAnyOf_lands hr₃ _).bind fun first r₄ hr₄ hgo₄ _ => ?_
      dsimp only
      split
      · exact failExpected_bind_lands hr₄ _
      · refine (pagingValue_lands hr₄).bind fun count r₅ hr₅ hgo₅ ⟨_, hcount⟩ => ?_
        refine (skipAnyOf_lands hr₅ _).bind fun rows r₆ hr₆ hgo₆ _ => ?_
        split
        · exact failExpected_bind_lands hr₆ _
        · refine (acceptKeyword_lands hr₆ .ONLY).bind fun _ r₇ hr₇ hgo₇ _ => .pure hr₇ ?_
          refine ⟨fun v hv => (hoffset v hv).mono ?_, fun v hv => ?_⟩
          · exact Cursor.Goes.rfl.upTo_within
              (hgo₃.trans (hgo₄.trans (hgo₅.trans (hgo₆.trans hgo₇))))
          · obtain rfl := Option.mem_some_iff.1 hv
            exact hcount.mono ((hgo₂.trans (hgo₃.trans hgo₄)).upTo_within (hgo₆.trans hgo₇))
    · refine .pure hr₃ ⟨fun v hv => (hoffset v hv).mono ?_, by simp⟩
      exact Cursor.Goes.rfl.upTo_within hgo₃
  split
  · refine (pagingValue_lands hr₁).bind fun v r₂ hr₂ hgo₂ ⟨_, hv⟩ => ?_
    refine (skipAnyOf_lands hr₂ _).bind fun rows r₃ hr₃ hgo₃ _ => ?_
    rw [lands_bind_pure]
    refine hfetch hr₃ (hgo₁.trans (hgo₂.trans hgo₃)) fun w hw => ?_
    obtain rfl := Option.mem_some_iff.1 hw
    exact hv.mono (hgo₁.upTo_within hgo₃)
  · rw [lands_bind_pure]
    exact hfetch hr₁ hgo₁ (by simp)

/-- The values of a paging clause sit in it. `LIMIT` gives its first value a meaning by what stands
behind it: a comma makes it the offset. -/
theorem optionalPaging_lands (hr : r.Placed env lo) :
    Lands env lo optionalPaging r fun paging r' =>
      ∀ p ∈ paging, p.Sits env.page (r.cursor.upTo r'.cursor) := by
  have hfetch : Lands env lo (do return some (← offsetFetch)) r fun paging r' =>
      ∀ p ∈ paging, p.Sits env.page (r.cursor.upTo r'.cursor) := by
    refine (offsetFetch_lands hr).bind fun p r₁ hr₁ _ hp => .pure hr₁ fun p' hp' => ?_
    obtain rfl := Option.mem_some_iff.1 hp'
    exact hp
  rw [optionalPaging, lands_bind_current]
  split
  · rename_i hkind
    refine (next_landsOf hr hkind (by simp)).bind fun _ r₁ hr₁ hgo₁ _ => ?_
    refine (pagingValue_lands hr₁).bind fun first r₂ hr₂ hgo₂ ⟨_, hfirst⟩ => ?_
    -- The first value, seen from any later place, and the second one if there is one.
    have hone : ∀ {r' : Reading}, r₂.cursor.Goes r'.cursor →
        ∀ v ∈ some first, v.Sits env.page (r.cursor.upTo r'.cursor) := by
      intro r' hgo v hv
      obtain rfl := Option.mem_some_iff.1 hv
      exact hfirst.mono (hgo₁.upTo_within hgo)
    have htwo : ∀ {second : PagingValue} {r₃ r' : Reading}, r₂.cursor.Goes r₃.cursor →
        second.Sits env.page (r₃.cursor.upTo r'.cursor) →
        ∀ v ∈ some second, v.Sits env.page (r.cursor.upTo r'.cursor) := by
      intro second r₃ r' hgo hsecond v hv
      obtain rfl := Option.mem_some_iff.1 hv
      exact hsecond.mono ((hgo₁.trans (hgo₂.trans hgo)).upTo_within .rfl)
    refine (skipOneOf_lands hr₂ (by simp)).bind fun comma r₃ hr₃ hgo₃ _ => ?_
    split
    · refine (pagingValue_lands hr₃).bind fun count r₄ hr₄ hgo₄ ⟨_, hcount⟩ => .pure hr₄ ?_
      intro p hp
      obtain rfl := Option.mem_some_iff.1 hp
      exact ⟨hone (hgo₃.trans hgo₄), htwo hgo₃ hcount⟩
    · refine (skipKeyword_lands hr₃ .OFFSET).bind fun hasOffset r₄ hr₄ hgo₄ _ => ?_
      split
      · refine (pagingValue_lands hr₄).bind fun offset r₅ hr₅ hgo₅ ⟨_, hoffset⟩ => .pure hr₅ ?_
        intro p hp
        obtain rfl := Option.mem_some_iff.1 hp
        exact ⟨htwo (hgo₃.trans hgo₄) hoffset, hone (hgo₃.trans (hgo₄.trans hgo₅))⟩
      · refine .pure hr₄ fun p hp => ?_
        obtain rfl := Option.mem_some_iff.1 hp
        exact ⟨by simp, hone (hgo₃.trans hgo₄)⟩
  · exact hfetch
  · exact hfetch
  · exact .pure hr (by simp)

/-- The count of `TOP`, which may stand in parentheses, sits in what was read. -/
theorem optionalTop_lands (hr : r.Placed env lo) :
    Lands env lo (optionalTop env) r fun paging r' =>
      ∀ p ∈ paging, p.Sits env.page (r.cursor.upTo r'.cursor) := by
  unfold optionalTop
  split
  · exact .pure hr (by simp)
  · refine (skipKeyword_lands hr .TOP).bind fun hasTop r₁ hr₁ hgo₁ _ => ?_
    split
    · exact .pure hr₁ (by simp)
    · rw [lands_bind_atSymbol]
      extract_lets top
      have htop : ∀ {count : PagingValue} {r₂ : Reading}, r₂.Placed env lo →
          count.Sits env.page (r.cursor.upTo r₂.cursor) →
          Lands env lo (top count) r₂ fun paging r' =>
            ∀ p ∈ paging, p.Sits env.page (r.cursor.upTo r'.cursor) := by
        intro count r₂ hr₂ hcount
        have hdone : ∀ {percent withTies : Bool} {r' : Reading}, r₂.cursor.Goes r'.cursor →
            ∀ p ∈ some ({ form := .top, rowCount := some count, percent, withTies } : Paging),
              p.Sits env.page (r.cursor.upTo r'.cursor) := by
          intro percent withTies r' hgo p hp
          obtain rfl := Option.mem_some_iff.1 hp
          refine ⟨by simp, fun v hv => ?_⟩
          obtain rfl := Option.mem_some_iff.1 hv
          exact hcount.mono (Cursor.Goes.rfl.upTo_within hgo)
        refine (skipKeyword_lands hr₂ .PERCENT).bind fun percent r₃ hr₃ hgo₃ _ => ?_
        rw [lands_bind_atKeyword]
        refine peekBehind_lands hr₃ (fun t => Token.isEnd_of_isKeyword) fun withTies hties => ?_
        dsimp only
        split
        · rename_i h
          refine nextTwo_lands hr₃ (hties h) fun hr₄ hadv _ => .pure hr₄ ?_
          exact hdone (hgo₃.trans hadv.toGoes)
        · exact .pure hr₃ (hdone hgo₃)
      split
      · refine (acceptSymbol_lands hr₁ .leftParen).bind fun opening r₂ hr₂ hgo₂ ⟨hopening, _⟩ => ?_
        refine (pagingValue_lands hr₂).bind fun v r₃ hr₃ hgo₃ ⟨_, hv⟩ => ?_
        refine (close_lands hr₃ (hopening.goes hgo₃)).bind fun _ r₄ hr₄ hgo₄ _ => ?_
        rw [lands_bind_pure]
        exact htop hr₄ (hv.mono ((hgo₁.trans hgo₂).upTo_within hgo₄))
      · refine (pagingValue_lands hr₁).bind fun v r₂ hr₂ _ ⟨_, hv⟩ => ?_
        exact htop hr₂ (hv.mono (hgo₁.upTo_within .rfl))

/-! ## Orders -/

theorem optionalDirection_lands (hr : r.Placed env lo) :
    Lands env lo optionalDirection r fun _ _ => True := by
  rw [optionalDirection, lands_bind_current]
  split
  · rename_i hkind
    exact (next_landsOf hr hkind (by simp)).bind fun _ r₁ hr₁ _ _ => .pure hr₁ trivial
  · rename_i hkind
    exact (next_landsOf hr hkind (by simp)).bind fun _ r₁ hr₁ _ _ => .pure hr₁ trivial
  · exact .pure hr trivial

theorem optionalNulls_lands (hr : r.Placed env lo) :
    Lands env lo optionalNulls r fun _ _ => True := by
  refine (skipKeyword_lands hr .NULLS).bind fun nulls r₁ hr₁ _ _ => ?_
  split
  · rw [lands_bind_current]
    split
    · rename_i hkind
      exact (next_landsOf hr₁ hkind (by simp)).bind fun _ r₂ hr₂ _ _ => .pure hr₂ trivial
    · rename_i hkind
      exact (next_landsOf hr₁ hkind (by simp)).bind fun _ r₂ hr₂ _ _ => .pure hr₂ trivial
    · exact failExpected_lands hr₁ _
  · exact .pure hr₁ trivial

/-- An entry sits at its expression; the words behind it leave no span. -/
theorem orderItem_lands (hi : inner.Landing env) (hr : r.Placed env lo) :
    Builds env lo (OrderItem.Sits env.page) (orderItem env inner) r := by
  refine (expression_sits hi hr).bind fun e r₁ hr₁ _ ⟨hadv, he⟩ => ?_
  refine (optionalDirection_lands hr₁).bind fun direction r₂ hr₂ hgo₂ _ => ?_
  refine (optionalNulls_lands hr₂).bind fun nulls r₃ hr₃ hgo₃ _ => .pure hr₃ ?_
  have hgo := hgo₂.trans hgo₃
  exact ⟨hadv.goes hgo, Expr.bounded.mono he (Cursor.Goes.rfl.upTo_within hgo)⟩

/-- The entries of `ORDER BY` stand in a row: apart, ascending, and all in the clause. -/
theorem orderBy_lands (hi : inner.Landing env) (hr : r.Placed env lo) :
    Lands env lo (orderBy env inner) r fun items r' =>
      Row OrderItem.span (OrderItem.Sits env.page) (r.cursor.upTo r'.cursor) items := by
  refine (skipKeyword_lands hr .ORDER).bind fun found r₁ hr₁ hgo₁ _ => ?_
  split
  · refine (acceptKeyword_lands hr₁ .BY).bind fun _ r₂ hr₂ hgo₂ _ => ?_
    refine (commaSeparated_builds OrderItem.bounded hr₂ (orderItem_lands hi)).imp ?_
    intro items r₃ _ _ ⟨_, hrow⟩
    exact hrow.mono OrderItem.bounded ((hgo₁.trans hgo₂).upTo_within .rfl)
  · exact .pure hr₁ .nil

/-- `GROUP BY` may end with two more words, which the span of the clause covers. -/
theorem groupBy_lands (hi : inner.Landing env) (hr : r.Placed env lo) :
    Lands env lo (groupBy env inner) r fun items r' =>
      Row OrderItem.span (OrderItem.Sits env.page) (r.cursor.upTo r'.cursor) items := by
  refine (skipKeyword_lands hr .GROUP).bind fun found r₁ hr₁ hgo₁ _ => ?_
  split
  · refine (acceptKeyword_lands hr₁ .BY).bind fun _ r₂ hr₂ hgo₂ _ => ?_
    refine (commaSeparated_builds OrderItem.bounded hr₂ (orderItem_lands hi)).bind
      fun items r₃ hr₃ _ ⟨_, hrow⟩ => ?_
    have hitems : ∀ {r' : Reading}, r₃.cursor.Goes r'.cursor →
        Row OrderItem.span (OrderItem.Sits env.page) (r.cursor.upTo r'.cursor) items :=
      fun hgo => hrow.mono OrderItem.bounded ((hgo₁.trans hgo₂).upTo_within hgo)
    rw [lands_bind_atKeyword]
    refine peekBehind_lands hr₃ (fun t => Token.isEnd_of_isKeyword) fun rollup hrollup => ?_
    dsimp only
    split
    · rename_i h
      exact nextTwo_lands hr₃ (hrollup h) fun hr₄ hadv _ => .pure hr₄ (hitems hadv.toGoes)
    · exact .pure hr₃ (hitems .rfl)
  · exact .pure hr₁ .nil

end Reader

end SqlMarkers
