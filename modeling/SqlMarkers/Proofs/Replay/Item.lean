/-
SqlMarkers.Proofs.Replay.Item — entries of lists in their place.

Select items, tables, aliases, columns and paging values that are read alone are read in
the same way in front of a token that cannot go on with them.

What may follow differs: behind a select item there may be no alias and no operator
(`Kind.stopsItem`), behind a table name no `.`, behind a paging value anything. The results
need not be equal, as they have spans; they are rendered alike (`Same Render.item`).
-/
import SqlMarkers.Proofs.Replay.Operand

namespace SqlMarkers

open Glyph

/-- Whether a token of this kind begins an alias. -/
def Kind.startsAlias : Kind → Bool
  | .identifier | .chars => true
  | .keyword k => k == .AS || Reader.aliasKeywords.contains k
  | _ => false

/-- Whether a token of this kind ends the select item in front of it. -/
def Kind.stopsItem (k : Kind) : Bool :=
  k.stopsOperand && !k.startsAlias &&
    match k with
    | .symbol s => !s.isComparison
    | .keyword k => !([.IS, .NOT, .LIKE, .IN, .BETWEEN].contains k)
    | _ => true

/-- `OPTION (...)` as source text. -/
def Reader.optionClause (env : Setting) : Reader String := do
  let t ← acceptKeyword .OPTION
  passParentheses
  return sourceText env t.span.start (← lastEnd)

namespace Stage

open Reader

variable {s : Stage} {u r : Reading} {inner inner' : Inner}

/-! ## Aliases -/

/-- An alias is decoded from one token, which both readings see. -/
theorem aliasOf_replays {S : Reading → Reading → Prop} (hS : S u r) {t t' : Token}
    (h : t.Moved s.shift t') : Replays S Eq (aliasOf s.alone t) (aliasOf s.env t') u r := by
  unfold aliasOf
  rw [h.kind, h.chars?, s.dialect]
  split
  · exact .pure rfl hS
  · exact nameOf_replays hS h

/-- If the first reading has no alias and is at its end, what follows must not be taken for one in
the second reading. -/
theorem optionalAlias_replays {S : Reading → Reading → Prop} (hS : s.Between S) (h : S u r)
    (hstop : (ahead s.rest).startsAlias = false) :
    Replays S Eq (optionalAlias s.alone) (optionalAlias s.env) u r := by
  have has : [Kind.keyword .AS].contains (ahead s.rest) = false := by
    generalize ahead s.rest = k at hstop
    by_contra hk
    obtain rfl : k = .keyword .AS := by simpa using hk
    cases hstop
  refine (skipOneOf_replays hS h rfl fun _ => has).bind ?_
  rintro marked _ u₁ r₁ rfl h₁
  refine .current ?_
  rcases (hS.facing h₁).current with ⟨hend, hsame⟩ | ⟨hend, hahead⟩
  · have htaken : ∀ taken : Bool, Replays S Eq
        (do
          if taken then
            next
            return some (← aliasOf s.alone u₁.cursor.current)
          else return none)
        (do
          if taken then
            next
            return some (← aliasOf s.env r₁.cursor.current)
          else return none) u₁ r₁ := by
      intro taken
      split
      · refine (next_replays (hS.facing h₁) hend).bind fun _ _ u₂ r₂ _ h₂ => ?_
        refine (aliasOf_replays (hS.moved h₂) hsame).bind ?_
        rintro name _ u₃ r₃ rfl h₃
        exact .pure rfl h₃
      · exact .pure rfl h₁
    rw [hsame.kind]
    split
    · split
      · exact htaken false
      · exact absurd ‹_› hend
      · exact htaken true
    · split
      · exact htaken true
      · exact htaken true
      · exact htaken _
      · exact htaken false
  · rw [hend, hahead]
    split
    · exact .fails fun _ _ hfail => bind_failExpected hfail
    · generalize ahead s.rest = k at hstop
      show Replays S Eq (pure none) _ u₁ r₁
      split
      · cases hstop
      · cases hstop
      · have hnone : aliasKeywords.contains _ = false := (Bool.or_eq_false_iff.1 hstop).2
        rw [hnone]
        exact .pure rfl h₁
      · exact .pure rfl h₁

/-! ## Select items -/

/-- What ends a select item ends the operand in it. -/
theorem stopsOperand_of_stopsItem {k : Kind} (h : k.stopsItem = true) : k.stopsOperand = true := by
  simp only [Kind.stopsItem, Bool.and_eq_true] at h
  exact h.1.1

theorem startsAlias_of_stopsItem {k : Kind} (h : k.stopsItem = true) : k.startsAlias = false := by
  simp only [Kind.stopsItem, Bool.and_eq_true, Bool.not_eq_true'] at h
  exact h.1.2

theorem ne_of_stopsItem {k : Kind} (h : k.stopsItem = true) (k' : Kind)
    (h' : k'.stopsItem = false) : k ≠ k' := by
  rintro rfl
  rw [h'] at h
  cases h

/-- An operand with all that goes on behind it. -/
theorem fullOperand_replays (hin : s.Hosts inner inner') (h : s.Facing u r)
    (hstop : (ahead s.rest).stopsOperand = true) :
    Replays s.Moved Eq (fullOperand inner) (fullOperand inner') u r :=
  (operand_replays hin h hstop).bind fun _ _ _ _ _ h =>
    (continuation_replays hin h hstop).bind fun _ _ _ _ _ h => .pure rfl h

theorem isRegexp_of_ne (env : Setting) {t : Token} (h : t.kind ≠ .identifier) :
    isRegexp env t = false := by
  simp [isRegexp, Token.isRegexp, Token.isWord, h]

/-- The token behind `NOT` is the same, or it is no operator in either reading. -/
theorem negatesOperator_replays (h : s.Moved u r) (hend : u.cursor.current.kind ≠ .endOfInput)
    (hstop : (ahead s.rest).stopsItem = true) :
    Replays (fun u' r' => u' = u ∧ r' = r) Eq (negatesOperator s.alone) (negatesOperator s.env)
      u r := by
  refine peek_replays h.facing hend fun t t' ht => .pure ?_ ⟨rfl, rfl⟩
  rcases ht with ⟨-, ht⟩ | ⟨ht, ht'⟩
  · simp only [ht.isKeyword, s.isRegexp_moved ht]
  · have hne : ∀ k : Keyword, (Kind.keyword k).stopsItem = false → t'.isKeyword k = false := by
      intro k hk
      rw [Token.isKeyword, ht']
      exact beq_false_of_ne (ne_of_stopsItem hstop _ hk)
    have hend : ∀ k : Keyword, t.isKeyword k = false := by
      intro k
      rw [Token.isKeyword, ht]
      rfl
    rw [isRegexp_of_ne _ (by rw [ht]; decide), isRegexp_of_ne _ (by
      rw [ht']; exact ne_of_stopsItem hstop _ rfl), hne _ rfl, hne _ rfl, hne _ rfl, hend, hend, hend]

/-- Comparisons and tests behind an operand. -/
theorem comparisonTail_replays (hin : s.Hosts inner inner') (h : s.Moved u r)
    (hstop : (ahead s.rest).stopsItem = true) :
    Replays s.Moved Eq (comparisonTail s.alone inner) (comparisonTail s.env inner') u r := by
  have hoperand := stopsOperand_of_stopsItem hstop
  refine .repeating (fun found u r h => ?_) h
  refine .current ?_
  rcases h.facing.current with ⟨hend, hsame⟩ | ⟨hend, hahead⟩
  · have hfull : Replays s.Moved (Round.Alike Eq Eq)
        (do next; fullOperand inner; return .again true : Reader (Round Bool Bool))
        (do next; fullOperand inner'; return .again true) u r :=
      (next_replays h.facing hend).bind fun _ _ _ _ _ h =>
        (fullOperand_replays hin h.facing hoperand).bind fun _ _ _ _ _ h => .pure (.again rfl) h
    rw [hsame.kind]
    split
    · split
      · exact hfull
      · exact .pure (.stop rfl) h
    · refine (next_replays h.facing hend).bind fun _ _ u₁ r₁ _ h₁ => ?_
      refine (skipOneOf_replays s.between_moved h₁ rfl fun _ => ?_).bind fun _ _ u₂ r₂ _ h₂ => ?_
      · simpa using ne_of_stopsItem hstop (.keyword .NOT) rfl
      · exact (operand_replays hin h₂.facing hoperand).bind fun _ _ _ _ _ h => .pure (.again rfl) h
    · refine (negatesOperator_replays h hend hstop).bind ?_
      rintro negates _ _ _ rfl ⟨rfl, rfl⟩
      split
      · exact (next_replays h.facing hend).bind fun _ _ _ _ _ h => .pure (.again rfl) h
      · exact .pure (.stop rfl) h
    · exact hfull
    · exact hfull
    · refine (next_replays h.facing hend).bind fun _ _ u₁ r₁ _ h₁ => ?_
      refine (fullOperand_replays hin h₁.facing hoperand).bind fun _ _ u₂ r₂ _ h₂ => ?_
      refine (accept_replays h₂.facing (by decide)).bind fun _ _ u₃ r₃ _ h₃ => ?_
      exact (fullOperand_replays hin h₃.facing hoperand).bind fun _ _ _ _ _ h => .pure (.again rfl) h
    · rw [s.isRegexp_moved hsame]
      split
      · exact hfull
      · exact .pure (.stop rfl) h
  · have hword : r.cursor.current.kind ≠ .identifier := by
      rw [hahead]
      exact ne_of_stopsItem hstop _ rfl
    rw [isRegexp_of_ne _ hword, isRegexp_of_ne _ (by rw [hend]; decide), hend, hahead]
    show Replays _ _ (pure (Round.stop found)) _ u r
    generalize ahead s.rest = k at hstop
    split
    · simp only [Kind.stopsItem, Bool.and_eq_true, Bool.not_eq_true'] at hstop
      rw [hstop.2]
      exact .pure (.stop rfl) h
    iterate 5 exact absurd hstop (by decide)
    · exact .pure (.stop rfl) h

/-- An aggregate function is recognized by the parenthesis behind it, which must not be one that
follows. -/
theorem aggregateAt?_replays (h : s.Facing u r) (hend : u.cursor.current.kind ≠ .endOfInput)
    (hcall : ahead s.rest ≠ .symbol .leftParen) :
    Replays (fun u' r' => u' = u ∧ r' = r) Eq aggregateAt? aggregateAt? u r := by
  rcases h.current with ⟨-, hsame⟩ | ⟨heq, -⟩
  · refine .current ?_
    rw [hsame.kind, hsame.text]
    split
    · refine peek_replays h hend fun t t' ht => ?_
      rw [ht.isSymbol hcall]
      split <;> exact .pure rfl ⟨rfl, rfl⟩
    · exact .pure rfl ⟨rfl, rfl⟩
  · exact absurd heq hend

/-- `owner.*` is recognized in both readings or in none. -/
theorem atOwnedStar_replays (h : s.Facing u r) (hend : u.cursor.current.kind ≠ .endOfInput)
    (hdot : ahead s.rest ≠ .symbol .dot) (hstar : ahead s.rest ≠ .symbol .star) :
    Replays (fun u' r' => u' = u ∧ r' = r)
      (fun b b' => b = b' ∧ (b = true → ∃ t₁ t₂,
        u.cursor.lookAhead 1 = .ok t₁ ∧ t₁.kind = .symbol .dot ∧
        u.cursor.lookAhead 2 = .ok t₂ ∧ t₂.kind = .symbol .star)) atOwnedStar atOwnedStar u r := by
  rcases h.current with ⟨-, hsame⟩ | ⟨heq, -⟩
  · obtain ⟨k, hk⟩ := h.lookAhead
    have hk₀ : 0 < k := by
      obtain ⟨t, -, ht, -, -, hlast⟩ := hk 0 (Nat.zero_le k)
      cases ht
      exact Nat.pos_of_ne_zero fun hzero => hend (hlast.2 hzero.symm)
    obtain ⟨t₁, t₁', ht₁, ht₁', hseen₁, hlast₁⟩ := hk 1 hk₀
    refine .current ?_
    rw [hsame.isName]
    split
    · refine peekNth_replays ht₁ ht₁' ?_
      rw [hseen₁.isSymbol hdot]
      split
      · rename_i hmark
        have hmark₁ := Token.isSymbol_iff.1 hmark
        have hk₁ : 1 < k := by
          refine Nat.lt_of_le_of_ne hk₀ fun heq => ?_
          rw [hlast₁.2 heq] at hmark₁
          cases hmark₁
        obtain ⟨t₂, t₂', ht₂, ht₂', hseen₂, -⟩ := hk 2 hk₁
        refine peekNth_replays ht₂ ht₂' (.pure ⟨(hseen₂.isSymbol hstar).symm, fun hmark₂ => ?_⟩
          ⟨rfl, rfl⟩)
        exact ⟨t₁, t₂, ht₁, hmark₁, ht₂, Token.isSymbol_iff.1 hmark₂⟩
      · exact .pure ⟨rfl, by simp⟩ ⟨rfl, rfl⟩
    · exact .pure ⟨rfl, by simp⟩ ⟨rfl, rfl⟩
  · exact absurd heq hend

/-- An item with an optional alias behind it. -/
theorem aliasedItem_replays (h : s.Moved u r) (hstop : (ahead s.rest).stopsItem = true)
    {item item' : Option String → SelectItem}
    (hitem : ∀ name, Same Render.item (item name) (item' name)) :
    Replays s.Moved (Same Render.item) (do return item (← optionalAlias s.alone))
      (do return item' (← optionalAlias s.env)) u r := by
  refine (optionalAlias_replays s.between_moved h (startsAlias_of_stopsItem hstop)).bind ?_
  rintro name _ u' r' rfl h'
  exact .pure (hitem name) h'

/-- Expressions that are rendered alike give items that are rendered alike. -/
theorem exprItem_replays (h : s.Moved u r) (hstop : (ahead s.rest).stopsItem = true) {e e' : Expr}
    (he : Same Render.expr e e') :
    Replays s.Moved (Same Render.item) (do return .expr e (← optionalAlias s.alone))
      (do return .expr e' (← optionalAlias s.env)) u r := by
  refine aliasedItem_replays h hstop fun name => ?_
  rw [Same, Render.item, he.eq, Render.item]

/-- An item that is kept as text is cut out at places that differ by the shift. -/
theorem verbatimItem_replays (h : s.Moved u r) (hstop : (ahead s.rest).stopsItem = true)
    (start : Nat) :
    Replays s.Moved (Same Render.item)
      (do
        let e ← verbatimFrom s.alone start
        return .expr e (← optionalAlias s.alone))
      (do
        let e ← verbatimFrom s.env (s.shift + start)
        return .expr e (← optionalAlias s.env)) u r :=
  (verbatimFrom_replays h start).bind fun _ _ _ _ he h => exprItem_replays h hstop he.text

/-- The arguments of an aggregate are the text up to its last parenthesis, so they are equal in both
readings. A tail that follows would turn the item into kept text, but none does. -/
theorem aggregateItem_replays (hin : s.Hosts inner inner') (h : s.Facing u r)
    (hend : u.cursor.current.kind ≠ .endOfInput) (hstop : (ahead s.rest).stopsItem = true)
    (function : Aggregate) :
    Replays s.Moved (Same Render.item) (aggregateItem s.alone inner function)
      (aggregateItem s.env inner' function) u r := by
  have hoperand := stopsOperand_of_stopsItem hstop
  have hdot := stopsOperand_ne hoperand .dot rfl
  rcases h.current with ⟨-, hsame⟩ | ⟨heq, -⟩
  · refine .here ((next_replays h hend).bind fun _ _ u₁ r₁ _ h₁ => ?_)
    refine (parentheses_replays hin h₁.facing hdot).bind fun arguments arguments' u₂ r₂ hspan h₂ => ?_
    refine (continuation_replays hin h₂ hoperand).bind ?_
    rintro goesOn _ u₃ r₃ rfl h₃
    rw [hsame.start]
    split
    · exact verbatimItem_replays h₃ hstop _
    · refine (comparisonTail_replays hin h₃ hstop).bind ?_
      rintro tail _ u₄ r₄ rfl h₄
      dsimp only
      split
      · exact verbatimItem_replays h₄ hstop _
      · have hwithin := hspan.within
        have hpositive := hspan.positive
        refine .down (fun _ => by rw [hspan.stop]; omega) (.lastEnd ?_)
        refine aliasedItem_replays h₄ hstop fun name => ?_
        rw [Same, Render.item, Render.item, hspan.start, hspan.stop,
          show s.shift + arguments.stop - 1 = s.shift + (arguments.stop - 1) by omega, Nat.add_assoc,
          s.sourceText_eq (by omega)]
  · exact absurd heq hend

/-- An expression, or the text of one with comparisons behind it. -/
theorem expressionItem_replays (hin : s.Hosts inner inner') (h : s.Facing u r)
    (hend : u.cursor.current.kind ≠ .endOfInput) (hstop : (ahead s.rest).stopsItem = true) :
    Replays s.Moved (Same Render.item) (expressionItem s.alone inner)
      (expressionItem s.env inner') u r := by
  have hoperand := stopsOperand_of_stopsItem hstop
  rcases h.current with ⟨-, hsame⟩ | ⟨heq, -⟩
  · refine .here ((expression_replays hin h hend hoperand).bind fun e e' u₁ r₁ he h₁ => ?_)
    refine (comparisonTail_replays hin h₁ hstop).bind ?_
    rintro tail _ u₂ r₂ rfl h₂
    split
    · rw [hsame.start]
      exact verbatimItem_replays h₂ hstop _
    · exact exprItem_replays h₂ hstop he.text
  · exact absurd heq hend

/-- Moving on to the next token. -/
theorem nextTo_replays (h : s.Facing u r) (hend : u.cursor.current.kind ≠ .endOfInput) :
    Replays (fun u' r' => s.Moved u' r' ∧ ∀ n, u'.cursor.lookAhead n = u.cursor.lookAhead (n + 1))
      Eq next next u r := by
  intro a u' hnext
  obtain ⟨c, hc, hmoved⟩ := yields_onCursor.1 hnext
  refine (next_replays h hend a u' hnext).mono ?_
  rintro b r' ⟨hb, hr⟩
  refine ⟨hb, hr, fun n => ?_⟩
  rw [← hmoved]
  exact Cursor.lookAhead_of_next hc n

/-- A select item in its place is rendered like the one that was read alone. -/
theorem selectItem_replays (hin : s.Hosts inner inner') (h : s.Facing u r)
    (hend : u.cursor.current.kind ≠ .endOfInput) (hstop : (ahead s.rest).stopsItem = true) :
    Replays s.Moved (Same Render.item) (selectItem s.alone inner) (selectItem s.env inner') u r := by
  have hoperand := stopsOperand_of_stopsItem hstop
  have hdot := stopsOperand_ne hoperand .dot rfl
  have hstar := stopsOperand_ne hoperand .star rfl
  have hcall := stopsOperand_ne hoperand .leftParen rfl
  rcases h.current with ⟨-, hsame⟩ | ⟨heq, -⟩
  · refine .current ?_
    rw [hsame.isSymbol]
    split
    · exact (next_replays h hend).bind fun _ _ _ _ _ h₁ => .pure rfl h₁
    · refine (atOwnedStar_replays h hend hdot hstar).bind ?_
      rintro owned _ u r ⟨rfl, howned⟩ ⟨rfl, rfl⟩
      split
      · rename_i hyes
        obtain ⟨t₁, t₂, ht₁, hkind₁, ht₂, hkind₂⟩ := howned hyes
        refine (noteOwner_replays (S := fun u' r' => s.Facing u' r' ∧ u'.cursor = u.cursor) hsame
          fun _ _ => ⟨h.congr rfl rfl ⟨rfl, rfl⟩, rfl⟩).bind ?_
        rintro _ _ u₁ r₁ _ ⟨h₁, hcursor⟩
        refine (nextTo_replays h₁ (by rw [hcursor]; exact hend)).bind ?_
        rintro _ _ u₂ r₂ _ ⟨h₂, hahead₂⟩
        rw [hcursor] at hahead₂
        have hcurrent₂ : u₂.cursor.current = t₁ := Except.ok.inj ((hahead₂ 0).trans ht₁)
        refine (nextTo_replays h₂.facing (by rw [hcurrent₂, hkind₁]; decide)).bind ?_
        rintro _ _ u₃ r₃ _ ⟨h₃, hahead₃⟩
        have hcurrent₃ : u₃.cursor.current = t₂ :=
          Except.ok.inj ((hahead₃ 0).trans ((hahead₂ 1).trans ht₂))
        refine (next_replays h₃.facing (by rw [hcurrent₃, hkind₂]; decide)).bind
          fun _ _ u₄ r₄ _ h₄ => ?_
        refine (nameOf_replays h₄ hsame).bind ?_
        rintro name _ u₅ r₅ rfl h₅
        exact .lastEnd (.pure rfl h₅)
      · refine (aggregateAt?_replays h hend hcall).bind ?_
        rintro function _ _ _ rfl ⟨rfl, rfl⟩
        split
        · exact aggregateItem_replays hin h hend hstop _
        · exact expressionItem_replays hin h hend hstop
  · exact absurd heq hend

/-! ## Tables, columns and paging values -/

theorem nameToken_replays (h : s.Facing u r) (what : String) :
    Replays s.Moved (Token.Moved s.shift) (nameToken what) (nameToken what) u r := by
  refine .current ?_
  rcases h.current with ⟨hend, hsame⟩ | ⟨hend, -⟩
  · rw [hsame.isName]
    split
    · exact (next_replays h hend).bind fun _ _ _ _ _ h₁ => .pure hsame h₁
    · exact .fails fun _ _ => yields_failExpected.1
  · rw [Token.isName, hend]
    exact .fails fun _ _ => yields_failExpected.1

/-- A name is no schema in the second reading either, since no `.` follows it. -/
theorem tableName_replays (h : s.Facing u r)
    (hdot : ahead s.rest ≠ .symbol .dot) :
    Replays s.Moved (fun a b => a.1.name = b.1.name ∧ a.1.schema = b.1.schema) tableName tableName
      u r := by
  refine (nameToken_replays h _).bind fun first first' u₁ r₁ hfirst h₁ => ?_
  refine atSymbol_replays h₁.facing hdot (fun hmark => ?_) ?_
  · refine (next_replays h₁.facing (by rw [hmark]; decide)).bind fun _ _ u₂ r₂ _ h₂ => ?_
    refine (nameToken_replays h₂.facing _).bind fun second second' u₃ r₃ hsecond h₃ => ?_
    refine (nameOf_replays h₃ hfirst).bind ?_
    rintro schema _ u₄ r₄ rfl h₄
    refine (nameOf_replays h₄ hsecond).bind ?_
    rintro name _ u₅ r₅ rfl h₅
    exact .pure ⟨rfl, rfl⟩ h₅
  · refine (nameOf_replays h₁ hfirst).bind ?_
    rintro name _ u₂ r₂ rfl h₂
    exact .pure ⟨rfl, rfl⟩ h₂

theorem usingColumn_replays (h : s.Facing u r) :
    Replays s.Moved Eq usingColumn usingColumn u r :=
  (nameToken_replays h _).bind fun _ _ _ _ ht h₁ => nameOf_replays h₁ ht

/-- A placeholder has another index in its place, as there may be others in front, but is rendered
alike. -/
theorem pagingValue_replays (h : s.Facing u r) (hend : u.cursor.current.kind ≠ .endOfInput) :
    Replays s.Moved (Same Render.pagingValue) pagingValue pagingValue u r := by
  rcases h.current with ⟨-, hsame⟩ | ⟨heq, -⟩
  · refine .current ?_
    rw [hsame.kind]
    split
    · refine (nextParameter_replays (S := fun u' r' => s.Facing u' r' ∧ u'.cursor = u.cursor)
        fun _ _ => ⟨h.congr rfl rfl ⟨rfl, rfl⟩, rfl⟩).bind ?_
      rintro _ _ u₁ r₁ _ ⟨h₁, hcursor⟩
      refine (next_replays h₁ (by rw [hcursor]; exact hend)).bind fun _ _ _ _ _ h₂ => ?_
      exact .pure rfl h₂
    iterate 2
      rw [hsame.integer?]
      split
      · exact (next_replays h hend).bind fun _ _ _ _ _ h₁ => .pure rfl h₁
      · exact .fails fun _ _ => yields_failAt.1
    · exact .fails fun _ _ => yields_failExpected.1
  · exact absurd heq hend

/-! ## Options -/

/-- Parentheses that are only stepped over. -/
theorem skipParentheses_replays (h : s.Facing u r) :
    Replays s.Moved (fun _ _ => True) (onCursor Cursor.skipParentheses)
      (onCursor Cursor.skipParentheses) u r := by
  rw [Cursor.skipParentheses]
  simp only [onCursor_bind, onCursor_repeatStep]
  refine (accept_replays h (by decide)).bind fun opening opening' u₁ r₁ _ h₁ => ?_
  refine .repeating (fun b u r h => ?_) h₁
  obtain ⟨depth, placeholders⟩ := b
  have hnext : ∀ b, u.cursor.current.kind ≠ .endOfInput →
      Replays s.Moved (Round.Alike Eq fun _ _ => True)
        (onCursor (do Cursor.next; return .again b : Cursor.Action (Round (Nat × Nat) Skipped)))
        (onCursor (do Cursor.next; return .again b)) u r := by
    intro b hend
    rw [onCursor_bind]
    exact (next_replays h.facing hend).bind fun _ _ _ _ _ h => .pure (.again rfl) h
  dsimp only
  split
  · exact .onCursor_get (.pure (.stop trivial) h)
  · refine .onCursor_get ?_
    rcases h.facing.current with ⟨hend, hsame⟩ | ⟨hend, -⟩
    · rw [hsame.kind]
      split
      · exact absurd ‹_› hend
      · rw [onCursor_bind, onCursor_up]
        exact .up (hnext _ hend)
      · rw [onCursor_bind, onCursor_down]
        exact .down id (hnext _ hend)
      · rw [onCursor_bind, onCursor_up]
        exact .up (hnext _ hend)
      · exact hnext _ hend
    · rw [hend]
      exact .fails fun _ _ hthrow => by cases hthrow

/-- The options behind `OPTION`, alone. -/
theorem optionClause_replays (h : s.Facing u r) :
    Replays s.Moved Eq (optionClause s.alone) (optionClause s.env) u r := by
  refine (accept_replays h (by decide)).bind fun t t' u₁ r₁ ht h₁ => ?_
  have hpass : Replays s.Moved Eq passParentheses passParentheses u₁ r₁ :=
    (skipParentheses_replays h₁.facing).bind fun _ _ _ _ _ h => recordPassage_replays h _ _ _
  refine hpass.bind fun _ _ u₂ r₂ _ h₂ => .lastEnd (.pure ?_ h₂)
  rw [ht.start, h₂.lastEnd, s.sourceText_eq h₂.within]

end Stage

end SqlMarkers
