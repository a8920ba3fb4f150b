/-
SqlMarkers.Proofs.Balance.Clause — select items, orders, paging and queries keep
parentheses in pairs.

Most clauses are read by steps that keep the number of open parentheses each. Where several
tokens are consumed after one look, the look tells that none of them is a parenthesis
(`ownedStar_shifts`, `twoKeywords_shifts`). `TOP` and the arguments of an aggregate open a
parenthesis and close it themselves.
-/
import SqlMarkers.Proofs.Balance.Source
import SqlMarkers.Proofs.Trail.Clause

namespace SqlMarkers.Reader

variable {env : Setting} {inner : Inner}

/-! ## Select items -/

theorem fullOperand_keeps (hi : inner.Pairing) : Keeps (fullOperand inner) :=
  (operand_keeps hi).bind fun _ => (continuation_keeps hi).bind fun _ => keeps_pure _

theorem negatesOperator_keeps : Keeps (negatesOperator env) :=
  peek_keeps.bind fun _ => keeps_pure _

/-- A comparison is a symbol, but no parenthesis. -/
theorem isFlat_of_isComparison {s : Symbol} (h : s.isComparison = true) :
    (Kind.symbol s).isFlat = true := by
  refine Kind.isFlat_of nofun ?_ ?_ <;> rintro ⟨⟩ <;> cases h

/-- Each round consumes an operator and reads an operand behind it. -/
theorem comparisonTail_keeps (hi : inner.Pairing) : Keeps (comparisonTail env inner) := by
  refine repeating_keeps (fun found => keeps_current fun i r => ?_) false
  have hoperand : Keeps (do fullOperand inner; return .again true : Reader (Round Bool Bool)) :=
    (fullOperand_keeps hi).bind fun _ => keeps_pure _
  split
  · rename_i hk
    split
    · rename_i hcomparison
      exact (next_shiftsOf hk (isFlat_of_isComparison hcomparison)).bind fun _ => hoperand i
    · exact keeps_pure _ i r
  · rename_i hk
    exact (next_shiftsOf hk rfl).bind fun _ => (skipKeyword_keeps _ i).bind fun _ =>
      (operand_keeps hi i).bind fun _ => keeps_pure _ i
  · rename_i hk
    refine (negatesOperator_keeps i r).bindAt fun negates r₁ hat => ?_
    obtain ⟨_, hpeek, -⟩ := yields_map.1 hat
    obtain ⟨-, rfl⟩ := peek_yields hpeek
    split
    · exact (next_shiftsOf hk rfl).bind fun _ => keeps_pure _ i
    · exact keeps_pure _ i r
  · rename_i hk
    exact (next_shiftsOf hk rfl).bind fun _ => hoperand i
  · rename_i hk
    exact (next_shiftsOf hk rfl).bind fun _ => hoperand i
  · rename_i hk
    exact (next_shiftsOf hk rfl).bind fun _ => (fullOperand_keeps hi i).bind fun _ =>
      (acceptKeyword_keeps _ i).bind fun _ => (fullOperand_keeps hi i).bind fun _ => keeps_pure _ i
  · split
    · rename_i hregexp
      exact (next_shifts (isFlat_of_isRegexp hregexp)).bind fun _ => hoperand i
    · exact keeps_pure _ i r

/-- The name of the function is consumed first; its arguments are one pair of parentheses. What
is kept of them is cut out of the text afterwards. -/
theorem aggregateItem_shifts (hi : inner.Pairing) (function : Aggregate) {i : Nat} {r : Reading}
    (hflat : r.cursor.current.kind.isFlat = true) :
    ShiftsAt i i (aggregateItem env inner function) r := by
  refine (here_keeps i r).bindAt fun start r₁ hhere => ?_
  obtain ⟨rfl, rfl⟩ := yields_here.1 hhere
  refine (next_shifts hflat).bind fun _ => (parentheses_keeps hi i).bind fun arguments => ?_
  extract_lets item
  have hitem : ∀ goesOn, Keeps (item goesOn) := by
    intro goesOn
    simp only [item]
    split
    · exact (verbatimFrom_keeps env _).bind fun _ => (optionalAlias_keeps env).bind fun _ =>
        keeps_pure _
    · exact (down_keeps _).bind fun _ => lastEnd_keeps.bind fun _ =>
        (optionalAlias_keeps env).bind fun _ => keeps_pure _
  refine (continuation_keeps hi i).bind fun goesOn => ?_
  split
  · exact hitem true i
  · exact (comparisonTail_keeps hi i).bind fun goesOn => hitem goesOn i

theorem expressionItem_keeps (hi : inner.Pairing) : Keeps (expressionItem env inner) := by
  have hbehind : ∀ e, Keeps (do return .expr e (← optionalAlias env) : Reader SelectItem) :=
    fun _ => (optionalAlias_keeps env).bind fun _ => keeps_pure _
  refine here_keeps.bind fun start => (expression_keeps hi).bind fun e => ?_
  refine (comparisonTail_keeps hi).bind fun found => ?_
  split
  · exact (verbatimFrom_keeps env _).bind hbehind
  · exact hbehind e

/-- `owner.*` is three tokens, none of which is a parenthesis. -/
theorem ownedStar_shifts {α : Type} {f : Reader α} {i : Nat} {r r₁ : Reading}
    (hat : Yields atOwnedStar r true r₁) (hf : Keeps f) :
    ShiftsAt i i (do noteOwner r.cursor.current; next; next; next; f) r := by
  obtain ⟨-, howned⟩ := atOwnedStar_yields hat
  obtain ⟨hname, ⟨dot, hdot, hisDot⟩, star, hstar, hisStar⟩ := howned rfl
  refine (noteOwner_keeps _ i r).bindAt fun _ r₀ hnote => ?_
  have hcursor : r₀.cursor = r.cursor := by
    obtain ⟨_, -, rfl⟩ := yields_noteOwner.1 hnote
    rfl
  rw [← hcursor] at hname hdot hstar
  refine (next_shifts (isFlat_of_isName hname)).bindAt fun _ r₁ hnext => ?_
  obtain ⟨c₁, hc₁, rfl⟩ := yields_onCursor.1 hnext
  have hcur₁ : c₁.current = dot := Cursor.current_of_next hc₁ hdot
  have hdot₁ : c₁.current.kind = .symbol .dot := hcur₁ ▸ Token.isSymbol_iff.1 hisDot
  refine (next_shiftsOf hdot₁ rfl).bindAt fun _ r₂ hnext => ?_
  obtain ⟨c₂, hc₂, rfl⟩ := yields_onCursor.1 hnext
  have hcur₂ : c₂.current = star :=
    Cursor.current_of_next hc₂ ((Cursor.lookAhead_of_next hc₁ 1).trans hstar)
  have hstar₂ : c₂.current.kind = .symbol .star := hcur₂ ▸ Token.isSymbol_iff.1 hisStar
  exact (next_shiftsOf hstar₂ rfl).bind fun _ => hf i

/-- The name of an aggregate function is no parenthesis. -/
theorem aggregateAt?_isFlat {a : Aggregate} {r r' : Reading}
    (hn : Yields aggregateAt? r (some a) r') : r.cursor.current.kind.isFlat = true := by
  replace hn := bind_current hn
  rcases yields_ite.1 hn with ⟨hk, -⟩ | ⟨-, hn⟩
  · rw [hk]
    rfl
  · cases (yields_pure.1 hn).1

/-- A star, a star with an owner, an aggregate or an expression. -/
theorem selectItem_keeps (hi : inner.Pairing) : Keeps (selectItem env inner) := by
  refine keeps_current fun i r => ?_
  split
  · rename_i hstar
    exact (next_shiftsOf (Token.isSymbol_iff.1 hstar) rfl).bind fun _ => keeps_pure _ i
  · refine (keeps_of_stays (fun hn => by rw [(atOwnedStar_yields hn).1]) i r).bindAt
      fun owned r₁ hat => ?_
    obtain ⟨rfl, -⟩ := atOwnedStar_yields hat
    cases owned with
    | true =>
        exact ownedStar_shifts hat ((nameOf_keeps _).bind fun _ => lastEnd_keeps.bind fun _ =>
          keeps_pure _)
    | false =>
        rw [if_neg Bool.false_ne_true]
        refine (keeps_of_stays (fun hn => by rw [(aggregateAt?_yields hn).1]) i r).bindAt
          fun function r₁ hat => ?_
        obtain ⟨rfl, -⟩ := aggregateAt?_yields hat
        cases function with
        | some a => exact aggregateItem_shifts hi a (aggregateAt?_isFlat hat)
        | none => exact expressionItem_keeps hi i r

/-! ## Paging -/

/-- A paging value is a placeholder or an integer. -/
theorem pagingValue_keeps : Keeps pagingValue := by
  refine keeps_current fun i r => ?_
  split
  · rename_i hk
    refine (nextParameter_keeps i r).bindAt fun index r₁ hcount => ?_
    obtain ⟨-, rfl⟩ := yields_nextParameter hcount
    have hk : r.counted.cursor.current.kind = .symbol .question := hk
    exact (next_shiftsOf hk rfl).bind fun _ => keeps_pure _ i
  -- Integers, in both notations.
  iterate 2
    · rename_i hk
      split
      · exact (next_shiftsOf hk rfl).bind fun _ => keeps_pure _ i
      · exact failAt_keeps _ _ i r
  · exact failExpected_keeps _ i r

/-- A check that fails keeps everything; one that passes goes on. -/
theorem failUnless_keeps {α : Type} {c : Bool} {what : String} {k : Reader α} (hk : Keeps k) :
    Keeps (if c then do failExpected (α := PUnit) what; k else k) := by
  split
  · exact fun _ => failExpected_bind_shifts
  · exact hk

theorem offsetFetch_keeps : Keeps offsetFetch := by
  refine (skipKeyword_keeps _).bind fun present => ?_
  extract_lets rest
  have hrest : ∀ offset, Keeps (rest offset) := by
    intro offset
    refine (skipKeyword_keeps _).bind fun fetch => ?_
    split
    · refine (skipAnyOf_keeps _).bind fun first => failUnless_keeps ?_
      refine pagingValue_keeps.bind fun count => ?_
      refine (skipAnyOf_keeps _).bind fun rows => failUnless_keeps ?_
      exact (acceptKeyword_keeps _).bind fun _ => keeps_pure _
    · exact keeps_pure _
  split
  · exact pagingValue_keeps.bind fun _ => (skipAnyOf_keeps _).bind fun _ => hrest _
  · exact hrest none

theorem optionalPaging_keeps : Keeps optionalPaging := by
  have hoffset : Keeps (do return some (← offsetFetch) : Reader (Option Paging)) :=
    offsetFetch_keeps.bind fun _ => keeps_pure _
  refine keeps_current fun i r => ?_
  split
  · rename_i hk
    refine (next_shiftsOf hk rfl).bind fun _ => (pagingValue_keeps i).bind fun first => ?_
    refine (skipSymbol_keeps rfl i).bind fun comma => ?_
    split
    · exact (pagingValue_keeps i).bind fun _ => keeps_pure _ i
    · refine (skipKeyword_keeps _ i).bind fun offset => ?_
      split
      · exact (pagingValue_keeps i).bind fun _ => keeps_pure _ i
      · exact keeps_pure _ i
  · exact hoffset i r
  · exact hoffset i r
  · exact keeps_pure _ i r

/-- Two keywords, the second of which was looked at before. -/
theorem twoKeywords_shifts {α : Type} {f : Reader α} {i : Nat} {r : Reading} {k k' : Keyword}
    (hk : r.cursor.current.kind = .keyword k)
    (hk' : ∃ t, r.cursor.lookAhead 1 = .ok t ∧ t.isKeyword k' = true) (hf : Keeps f) :
    ShiftsAt i i (do next; next; f) r := by
  obtain ⟨t, ht, hkind⟩ := hk'
  refine nextTwo_shifts (by rw [hk]; rfl) ht ?_ (hf i)
  rw [Token.isKeyword_iff.1 hkind]
  rfl

/-- The count of `TOP` may stand in a pair of parentheses. -/
theorem optionalTop_keeps : Keeps (optionalTop env) := by
  unfold optionalTop
  split
  · exact keeps_pure _
  · refine (skipKeyword_keeps _).bind fun present => ?_
    split
    · exact keeps_pure _
    · refine (atSymbol_keeps _).bind fun paren => ?_
      extract_lets rest
      have hrest : ∀ count, Keeps (rest count) := by
        intro count
        refine (skipKeyword_keeps _).bind fun percent i => peekBehind_shifts fun r ties hties => ?_
        split
        · rename_i htrue
          exact twoKeywords_shifts (hties htrue).1 (hties htrue).2 (keeps_pure _)
        · exact keeps_pure _ i r
      split
      · exact fun i => openParen_shifts.bind fun opening => (pagingValue_keeps _).bind fun count =>
          (close_shifts opening).bind fun _ => hrest count i
      · exact pagingValue_keeps.bind hrest

/-! ## Orders -/

theorem optionalDirection_keeps : Keeps optionalDirection := by
  refine keeps_current fun i r => ?_
  split
  · rename_i hk
    exact (next_shiftsOf hk rfl).bind fun _ => keeps_pure _ i
  · rename_i hk
    exact (next_shiftsOf hk rfl).bind fun _ => keeps_pure _ i
  · exact keeps_pure _ i r

theorem optionalNulls_keeps : Keeps optionalNulls := by
  refine (skipKeyword_keeps _).bind fun present => ?_
  split
  · refine keeps_current fun i r => ?_
    split
    · rename_i hk
      exact (next_shiftsOf hk rfl).bind fun _ => keeps_pure _ i
    · rename_i hk
      exact (next_shiftsOf hk rfl).bind fun _ => keeps_pure _ i
    · exact failExpected_keeps _ i r
  · exact keeps_pure _

theorem orderItems_keeps (hi : inner.Pairing) :
    Keeps (commaSeparated (orderItem env inner)) := by
  refine commaSeparated_keeps ?_
  exact (expression_keeps hi).bind fun _ => optionalDirection_keeps.bind fun _ =>
    optionalNulls_keeps.bind fun _ => keeps_pure _

theorem orderBy_keeps (hi : inner.Pairing) : Keeps (orderBy env inner) := by
  refine (skipKeyword_keeps _).bind fun present => ?_
  split
  · exact (acceptKeyword_keeps _).bind fun _ => orderItems_keeps hi
  · exact keeps_pure _

theorem groupBy_keeps (hi : inner.Pairing) : Keeps (groupBy env inner) := by
  refine (skipKeyword_keeps _).bind fun present => ?_
  split
  · refine (acceptKeyword_keeps _).bind fun _ => (orderItems_keeps hi).bind fun items i => ?_
    refine peekBehind_shifts fun r rollup hrollup => ?_
    split
    · rename_i htrue
      exact twoKeywords_shifts (hrollup htrue).1 (hrollup htrue).2 (keeps_pure _)
    · exact keeps_pure _ i r
  · exact keeps_pure _

/-! ## Queries -/

theorem distinctness_keeps : Keeps distinctness := by
  refine keeps_current fun i r => ?_
  -- `ALL`, `DISTINCT` and `DISTINCTROW`.
  split
  iterate 3
    · rename_i hk
      exact (next_shiftsOf hk rfl).bind fun _ => keeps_pure _ i
  · exact keeps_pure _ i r

theorem lockWait_keeps : Keeps lockWait := by
  refine keeps_current fun i r => ?_
  split
  · rename_i hword
    exact next_shifts (isFlat_of_isWord hword)
  · split
    · rename_i hword
      refine (peek_keeps i r).bindAt fun t r₁ hpeek => ?_
      obtain ⟨ht, rfl⟩ := peek_yields hpeek
      split
      · rename_i hlocked
        refine (next_shifts (isFlat_of_isWord hword)).bindAt fun _ r₁ hnext => ?_
        obtain ⟨c, hc, rfl⟩ := yields_onCursor.1 hnext
        refine next_shifts ?_
        rw [Reading.moved_cursor, Cursor.current_of_next hc ht]
        exact isFlat_of_isWord hlocked
      · exact keeps_pure _ i r
    · exact keeps_pure _ i r

/-- The options of `OPTION (...)` are passed as one pair of parentheses. -/
theorem trailingOptions_keeps : Keeps (trailingOptions env) := by
  refine repeating_keeps ?_ _
  rintro ⟨lock, option⟩
  refine keeps_current fun i r => ?_
  split
  · rename_i hk
    refine (next_shiftsOf hk rfl).bind fun _ => shifts_current fun r => ?_
    extract_lets rest
    have hlocked : ∀ {k : Keyword} {lock}, r.cursor.current.kind = .keyword k →
        ShiftsAt i i (rest lock) r :=
      fun hk => (next_shiftsOf hk rfl).bind fun _ => (lockWait_keeps i).bind fun _ =>
        keeps_pure _ i
    split
    · rename_i hk
      exact hlocked hk
    · rename_i hk
      exact hlocked hk
    · exact failExpected_bind_shifts r
  · rename_i hk
    exact (next_shiftsOf hk rfl).bind fun _ => (acceptKeyword_keeps _ i).bind fun _ =>
      (acceptKeyword_keeps _ i).bind fun _ => (acceptKeyword_keeps _ i).bind fun _ => keeps_pure _ i
  · rename_i hk
    refine (peek_keeps i r).bindAt fun t r₁ hpeek => ?_
    obtain ⟨-, rfl⟩ := peek_yields hpeek
    split
    · exact (next_shiftsOf hk rfl).bind fun _ => (passParentheses_keeps i).bind fun _ =>
        (lastEnd_keeps i).bind fun _ => keeps_pure _ i
    · exact keeps_pure _ i r
  · exact keeps_pure _ i r

theorem refuseSetOperation_keeps : Keeps refuseSetOperation := by
  refine keeps_current fun i r => ?_
  -- `UNION`, `INTERSECT` and `EXCEPT`.
  split
  iterate 3
    · exact failHere_keeps _ i r
  · exact keeps_pure _ i r

theorem get_keeps : Keeps (get : Reader Reading) :=
  keeps_of_stays fun hn => by rw [(yields_get.1 hn).2]

/-- A query keeps parentheses in pairs, since each of its clauses does. -/
theorem query_keeps (hi : inner.Pairing) : Keeps (query env inner) := by
  refine here_keeps.bind fun start => (acceptKeyword_keeps _).bind fun _ => ?_
  refine distinctness_keeps.bind fun distinct => ?_
  extract_lets body
  have hbody : ∀ u, Keeps (body u) := by
    intro u
    refine optionalTop_keeps.bind fun top => ?_
    refine (commaSeparated_keeps (selectItem_keeps hi)).bind fun items => ?_
    refine (fromClause_keeps hi).bind fun sources => (conditionClause_keeps hi _).bind fun _ => ?_
    refine (groupBy_keeps hi).bind fun groups => (conditionClause_keeps hi _).bind fun _ => ?_
    refine (orderBy_keeps hi).bind fun orders => here_keeps.bind fun place => ?_
    refine optionalPaging_keeps.bind fun paging => ?_
    extract_lets tail
    have htail : ∀ u, Keeps (tail u) := fun _ => trailingOptions_keeps.bind fun _ =>
      refuseSetOperation_keeps.bind fun _ => lastEnd_keeps.bind fun _ => get_keeps.bind fun _ =>
        keeps_pure _
    split
    · exact (failAt_keeps _ _).bind htail
    · exact htail ()
  split
  · exact (skipKeywords_keeps _).bind hbody
  · exact hbody ()

end SqlMarkers.Reader
