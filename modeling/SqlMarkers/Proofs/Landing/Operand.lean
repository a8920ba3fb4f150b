/-
SqlMarkers.Proofs.Landing.Operand — where operands and expressions land.

The readers that take nothing apart only have to move on. An expression sits
between the cursors it was read from and to, whether it is one token that was
decoded or source text that was kept.

Two counters must not run out of their range: the `?` counted so far are no more than the
bytes up to the cursor, and the depth of open parentheses is no more either, since each level
was opened by a token (`countedLevel_lands`).
-/
import SqlMarkers.Proofs.Landing

namespace SqlMarkers

/-- A query sits where it was read, and no more `?` were counted up to its end than there
are bytes. -/
def Query.SitsCounted (pg : Page) (b : Span) (q : Query) : Prop :=
  q.Sits pg b ∧ q.scope.parameters ≤ b.stop

/-- The readers of what is nested land. A query starts a scope of its own. -/
structure Inner.Landing (env : Setting) (inner : Inner) : Prop where
  query {r : Reading} : r.Placed env r.cursor.current.span.start →
    Builds env r.cursor.current.span.start (Query.SitsCounted env.page) inner.query r
  operand {lo : Nat} {r : Reading} : r.Placed env lo →
    Lands env lo inner.operand r fun _ r' => r.cursor.Advances r'.cursor
  predicate {lo : Nat} {r : Reading} : r.Placed env lo →
    Builds env lo (Predicate.Sits env.page) inner.predicate r
  group {lo : Nat} {r : Reading} : r.Placed env lo →
    Builds env lo (Row Condition.span (Condition.Sits env.page)) inner.group r
  sources {lo : Nat} {r : Reading} : r.Placed env lo →
    Builds env lo (TableSource.SitIn env.page) inner.sources r

variable {env : Setting} {inner : Inner} {lo : Nat} {r r' : Reading}

/-- A nested query sits where it was read and leaves the scope around it alone. -/
theorem Inner.Landing.embed (hi : inner.Landing env) (hr : r.Placed env lo) :
    Lands env lo inner.embed r fun q r' =>
      r.cursor.Advances r'.cursor ∧ q.Sits env.page (r.cursor.upTo r'.cursor) ∧
        r'.draft.tables = r.draft.tables ∧ r'.draft.subqueries = r.draft.subqueries := by
  have hquery : Builds env r.cursor.current.span.start (Query.SitsCounted env.page) inner.query
      { r with draft := Draft.startingAt r.draft.parameters } :=
    hi.query ⟨hr.cursor, Nat.le_refl _, .nil, .nil, hr.counted⟩
  unfold Builds Completes Lands Ensures at hquery
  unfold Lands Ensures Inner.embed
  cases hread : inner.query { r with draft := Draft.startingAt r.draft.parameters } with
  | ok q r₁ =>
      rw [hread] at hquery
      obtain ⟨hr₁, hgo, hadv, hq, hcounted⟩ := hquery
      exact ⟨hr.of_draft hr₁.cursor hgo rfl rfl hcounted, hgo, hadv, hq, rfl, rfl⟩
  | error f r₁ =>
      rw [hread] at hquery
      exact hquery

namespace Reader

/-! ## Operands -/

/-- A nested query that is attached to the scope stands behind all before. -/
theorem attach_lands (hi : inner.Landing env) (hr : r.Placed env lo) {α : Type} (a : α) :
    Lands env lo (do
      let q ← inner.embed
      modifyDraft fun d => { d with subqueries := d.subqueries ++ [q] }
      return a) r fun b r' => b = a ∧ r.cursor.Advances r'.cursor := by
  refine (hi.embed hr).bind fun q r₁ hr₁ hgo ⟨hadv, hq, htables, hsubqueries⟩ => ?_
  refine ⟨⟨hr₁.cursor, hr₁.lo_le, hr₁.tables, ?_, hr₁.counted⟩, .rfl, rfl, hadv⟩
  show Row Query.span (Query.Sits env.page) ⟨lo, r₁.cursor.lastEnd⟩ (r₁.draft.subqueries ++ [q])
  rw [hsubqueries]
  exact hr.subqueries.snoc Query.bounded hq ⟨Nat.le_refl _, hgo.lastEnd_le⟩
    ⟨hr.lo_le, Nat.le_refl _⟩ hr.cursor.behind

/-- A round that counts a level in or out and moves on, and no more levels than there are
bytes up to the cursor. -/
theorem countedLevel_lands {s : Reading} (hr : r.Placed env lo)
    (hadv : s.cursor.Advances r.cursor) {k : Kind} (hk : r.cursor.current.kind = k)
    (hend : k ≠ .endOfInput) {depth : Nat} (hdepth : depth ≤ r.cursor.lastEnd + 1)
    {stop : α → Reading → Prop} :
    Lands env lo (do next; return .again depth : Reader (Round Nat α)) r fun round r' =>
      round.Meets (fun depth r' => r.cursor.Advances r'.cursor ∧ s.cursor.Advances r'.cursor ∧
        depth ≤ r'.cursor.lastEnd) stop r' := by
  refine (next_landsOf hr hk hend).bind fun _ r₁ hr₁ hgo hover => .pure hr₁ ?_
  have hlt := hr.cursor.lastEnd_lt hover.toAdvances
  exact ⟨hover.toAdvances, hadv.goes hgo, by omega⟩

/-- Parentheses are stepped over, up to the end of what was consumed. -/
theorem parentheses_upTo_lands (hi : inner.Landing env) (hr : r.Placed env lo) :
    Lands env lo (parentheses inner) r fun span r' =>
      r.cursor.Advances r'.cursor ∧ span.stop = r'.cursor.lastEnd := by
  refine (acceptSymbol_lands hr .leftParen).bind fun opening r₁ hr₁ _ ⟨hopening, hover⟩ => ?_
  have hfirst := hr.cursor.lastEnd_lt hover.toAdvances
  refine Lands.repeating
    (fun depth r₂ => r.cursor.Advances r₂.cursor ∧ depth ≤ r₂.cursor.lastEnd) hr₁
    ⟨hover.toAdvances, Nat.succ_le_of_lt (Nat.zero_lt_of_lt hfirst)⟩ ?_
  rintro depth r₂ hr₂ hgo₂ ⟨hadv, hdepth⟩
  split
  · rw [lands_bind_lastEnd]
    exact .pure hr₂ ⟨hadv, rfl⟩
  · rename_i hzero
    rw [lands_bind_current]
    split
    · exact failAt_lands (hopening.goes hgo₂) rfl
    · rename_i hkind
      have hlimit := hr₂.cursor.lastEnd_lt_limit (Token.isEnd_of_kind hkind (by simp))
      exact Counter.ensures_up (by omega)
        (countedLevel_lands hr₂ hadv hkind (by simp) (by omega))
    · rename_i hkind
      exact Counter.ensures_down hzero (countedLevel_lands hr₂ hadv hkind (by simp) (by omega))
    · refine (attach_lands hi hr₂ _).imp fun round r₃ hr₃ hgo ⟨hround, hadv₃⟩ => ?_
      subst hround
      exact ⟨hadv₃, hadv.goes hgo, Nat.le_trans hdepth hgo.lastEnd_le⟩
    · rename_i hend _ _ _
      refine (consume_lands hr₂ (Token.isEnd_eq_false.2 hend)).bind fun _ r₃ hr₃ hgo hadv₃ => ?_
      exact .pure hr₃ ⟨hadv₃, hadv.goes hgo, Nat.le_trans hdepth hgo.lastEnd_le⟩

theorem parentheses_lands (hi : inner.Landing env) (hr : r.Placed env lo) :
    Lands env lo (parentheses inner) r fun _ r' => r.cursor.Advances r'.cursor :=
  (parentheses_upTo_lands hi hr).imp fun _ _ _ _ h => h.1

/-- A `CASE` block moves on, at least over `CASE` and the `END` that belongs to it. -/
theorem caseBlock_lands (hi : inner.Landing env) (hr : r.Placed env lo) :
    Lands env lo (caseBlock inner) r fun _ r' => r.cursor.Advances r'.cursor := by
  refine (accept_lands hr (by simp)).bind ?_
  rintro opening r₁ hr₁ - ⟨rfl, -, hover⟩
  have hfirst := hr.cursor.lastEnd_lt hover.toAdvances
  refine Lands.repeating
    (fun depth r₂ => r.cursor.Advances r₂.cursor ∧ depth ≤ r₂.cursor.lastEnd) hr₁
    ⟨hover.toAdvances, Nat.succ_le_of_lt (Nat.zero_lt_of_lt hfirst)⟩ ?_
  rintro depth r₂ hr₂ - ⟨hadv, hdepth⟩
  split
  · exact .pure hr₂ hadv
  · rename_i hzero
    rw [lands_bind_current]
    split
    · exact failAt_lands (hr.cursor.met.goes hadv.toGoes) rfl
    · refine (parentheses_lands hi hr₂).bind fun _ r₃ hr₃ hgo hadv₃ => .pure hr₃ ?_
      exact ⟨hadv₃, hadv.goes hgo, Nat.le_trans hdepth hgo.lastEnd_le⟩
    · rename_i hkind
      have hlimit := hr₂.cursor.lastEnd_lt_limit (Token.isEnd_of_kind hkind (by simp))
      exact Counter.ensures_up (by omega)
        (countedLevel_lands hr₂ hadv hkind (by simp) (by omega))
    · rename_i hkind
      exact Counter.ensures_down hzero (countedLevel_lands hr₂ hadv hkind (by simp) (by omega))
    · rename_i hend _ _ _
      refine (consume_lands hr₂ (Token.isEnd_eq_false.2 hend)).bind fun _ r₃ hr₃ hgo hadv₃ => ?_
      exact .pure hr₃ ⟨hadv₃, hadv.goes hgo, Nat.le_trans hdepth hgo.lastEnd_le⟩

/-- A call is only looked for, and only at a token that is not the end. -/
theorem atCall_lands (hr : r.Placed env lo) :
    Lands env lo atCall r fun b r' => r' = r ∧ (b = true → r.cursor.current.isEnd = false) := by
  rw [atCall, lands_bind_current]
  dsimp only
  split
  · rename_i hcall
    refine (peek_lands hr).bind ?_
    rintro t r₁ hr₁ - ⟨rfl, -⟩
    refine .pure hr₁ ⟨rfl, fun _ => ?_⟩
    simp only [Bool.or_eq_true] at hcall
    rcases hcall with ((((hname | hk) | hk) | hk) | hk) | hk
    · exact Token.isEnd_of_isName hname
    all_goals exact Token.isEnd_of_isKeyword hk
  · exact .pure hr ⟨rfl, fun h => absurd h Bool.false_ne_true⟩

/-- There may be no sign at all, so signs are not known to move on. -/
theorem signs_lands (hr : r.Placed env lo) : Lands env lo signs r fun _ _ => True := by
  refine Lands.repeating (fun _ _ => True) hr trivial ?_
  intro _ r₁ hr₁ _ _
  rw [lands_bind_current]
  split
  · rename_i hsign
    have hend : r₁.cursor.current.isEnd = false := by
      rw [Token.isEnd_eq_false]
      intro hend
      rw [hend] at hsign
      cases hsign
    refine (next_lands hr₁ hend).bind fun _ r₂ hr₂ _ hover => .pure hr₂ ?_
    exact ⟨hover.toAdvances, trivial⟩
  · exact .pure hr₁ trivial

/-- An operand moves on, since none of its forms is empty. -/
theorem operand_lands (hi : inner.Landing env) (hr : r.Placed env lo) :
    Lands env lo (operand inner) r fun _ r' => r.cursor.Advances r'.cursor := by
  refine (signs_lands hr).bind fun _ r₁ hr₁ hgo _ => ?_
  have hparens : ∀ {r₂ : Reading}, r₂.Placed env lo → r.cursor.Goes r₂.cursor →
      Lands env lo (do let _ ← parentheses inner) r₂ fun _ r' => r.cursor.Advances r'.cursor := by
    intro r₂ hr₂ hgo₂
    exact (parentheses_lands hi hr₂).bind fun _ r₃ hr₃ _ hadv => .pure hr₃ (hgo₂.advances hadv)
  rw [lands_bind_current]
  split
  · exact hparens hr₁ hgo
  · exact (caseBlock_lands hi hr₁).imp fun _ _ _ _ hadv => hgo.advances hadv
  · rename_i hkind
    refine (next_landsOf hr₁ hkind (by simp)).bind fun _ r₂ hr₂ hgo₂ _ => ?_
    exact hparens hr₂ (hgo.trans hgo₂)
  · rename_i hkind
    refine (next_landsOf hr₁ hkind (by simp)).bind fun _ r₂ hr₂ hgo₂ _ => ?_
    refine (hi.operand hr₂).bind fun _ r₃ hr₃ _ hadv => ?_
    have hadv₃ := (hgo.trans hgo₂).advances hadv
    rw [lands_bind_current]
    split
    · rename_i hname
      refine (next_lands hr₃ (Token.isEnd_of_isName hname)).bind fun _ r₄ hr₄ hgo₄ _ => ?_
      refine (recordPassage_lands hr₄ _ _).imp fun _ r₅ _ hgo₅ _ => ?_
      exact (hadv₃.goes hgo₄).goes hgo₅
    · exact .pure hr₃ hadv₃
  · refine (atCall_lands hr₁).bind ?_
    rintro b r₂ hr₂ - ⟨rfl, hend⟩
    split
    · rename_i hb
      refine (next_lands hr₂ (hend hb)).bind fun _ r₃ hr₃ hgo₃ _ => ?_
      exact hparens hr₃ (hgo.trans hgo₃)
    · split
      · rename_i hoperand
        have hend : r₂.cursor.current.isEnd = false := by
          rw [Token.isEnd_eq_false]
          intro hend
          rw [hend] at hoperand
          cases hoperand
        exact (consume_lands hr₂ hend).imp fun _ _ _ _ hadv => hgo.advances hadv
      · exact failExpected_lands hr₂ _

/-- What continues an expression moves on if there is any. -/
theorem continuation_lands (hi : inner.Landing env) (hr : r.Placed env lo) :
    Lands env lo (continuation inner) r r.MovedIf := by
  refine Lands.repeating r.MovedIf hr (.inr ⟨rfl, rfl⟩) ?_
  intro found r₁ hr₁ hgo hfound
  have hoperand : r₁.cursor.current.isEnd = false →
      Lands env lo (do next; operand inner; return .again true : Reader (Round Bool Bool)) r₁
        fun round r₂ => round.Meets
          (fun found r₂ => r₁.cursor.Advances r₂.cursor ∧ r.MovedIf found r₂) r.MovedIf r₂ := by
    intro hend
    refine (next_lands hr₁ hend).bind fun _ r₂ hr₂ _ hover => ?_
    refine (operand_lands hi hr₂).bind fun _ r₃ hr₃ hgo₃ _ => ?_
    exact again_lands hgo (hover.toAdvances.goes hgo₃) hr₃
  rw [lands_bind_current]
  split
  · exact (parentheses_lands hi hr₁).bind fun _ r₂ hr₂ _ hadv => again_lands hgo hadv hr₂
  · rename_i hkind
    refine (next_landsOf hr₁ hkind (by simp)).bind fun _ r₂ hr₂ _ hover => ?_
    rw [lands_bind_current]
    split
    · rename_i hmember
      have hend : r₂.cursor.current.isEnd = false := by
        simp only [Bool.or_eq_true] at hmember
        rcases hmember with (hname | hstar) | hword
        · exact Token.isEnd_of_isName hname
        · exact Token.isEnd_of_isSymbol hstar
        · exact Token.isEnd_of_isPlain (Token.isPlain_of_isAnyKeyword hword)
      refine (consume_lands hr₂ hend).bind fun _ r₃ hr₃ hgo₃ _ => ?_
      exact again_lands hgo (hover.toAdvances.goes hgo₃) hr₃
    · exact failExpected_lands hr₂ _
  · rename_i hkind
    split
    · exact hoperand (Token.isEnd_of_kind hkind (by simp))
    · exact .pure hr₁ hfound
  · rename_i hkind
    exact hoperand (Token.isEnd_of_kind hkind (by simp))
  · rename_i hkind
    exact hoperand (Token.isEnd_of_kind hkind (by simp))
  · exact .pure hr₁ hfound

/-! ## Expressions -/

/-- An expression that starts with what was read from `s` to `r`. -/
theorem leafOr_lands (hi : inner.Landing env) {s : Reading} (hs : s.Placed env lo)
    (hr : r.Placed env lo) (hadv : s.cursor.Advances r.cursor) {leaf : Expr}
    (hleaf : leaf.Fills env.page (s.cursor.upTo r.cursor)) :
    Completes env lo (Expr.Fills env.page) (leafOr env inner s.cursor.current.span.start leaf) s
      r := by
  refine (continuation_lands hi hr).bind ?_
  rintro found r₁ hr₁ hgo (⟨rfl, -⟩ | ⟨rfl, rfl⟩)
  · exact verbatimFrom_lands hs hr₁ (hadv.goes hgo)
  · exact .pure hr₁ ⟨hadv, hleaf⟩

/-- A name fills the token it was read from, and a name with a member the text up to the member.
Anything that goes on is kept as text. -/
theorem namedExpression_lands (hi : inner.Landing env) (hr : r.Placed env lo)
    (hend : r.cursor.current.isEnd = false) :
    Builds env lo (Expr.Fills env.page) (namedExpression env inner) r := by
  unfold Builds Completes
  rw [namedExpression, lands_bind_current]
  dsimp only
  refine (next_lands hr hend).bind fun _ r₁ hr₁ _ hover => ?_
  refine (nameOf_lands hr₁ hr.cursor.current_mem).bind ?_
  rintro name r₁ - - ⟨hname, rfl⟩
  have howner : Ident.Sits env.page r.cursor.current.span ⟨name, r.cursor.current.span⟩ :=
    ⟨.rfl, Setting.shows_of hr.cursor.current_mem hname⟩
  rw [lands_bind_atSymbol]
  split
  · rename_i hdot
    refine (noteOwner_lands hr₁ hr.cursor.current_mem).bind fun _ r₂ hr₂ hgo₂ hcursor => ?_
    refine (next_landsOf hr₂ (hcursor ▸ Token.isSymbol_iff.1 hdot) (by simp)).bind
      fun _ r₃ hr₃ hgo₃ _ => ?_
    have hmember : ∀ member, r₃.cursor.current.isEnd = false → Lands env lo (do
        next
        recordPassage .member r₃.cursor.current.span
        let stop ← lastEnd
        leafOr env inner r.cursor.current.span.start
          (.member ⟨name, r.cursor.current.span⟩ member ⟨r.cursor.current.span.start, stop⟩)) r₃
          fun e r' =>
            r.cursor.Advances r'.cursor ∧ e.Fills env.page (r.cursor.upTo r'.cursor) := by
      intro member hend₃
      refine (next_lands hr₃ hend₃).bind fun _ r₄ hr₄ hgo₄ _ => ?_
      refine (recordPassage_lands hr₄ _ _).bind fun _ r₅ hr₅ hgo₅ _ => ?_
      have hgo₁ := hgo₂.trans (hgo₃.trans (hgo₄.trans hgo₅))
      have hadv := hover.toAdvances.goes hgo₁
      rw [lands_bind_lastEnd]
      refine leafOr_lands hi hr hr₅ hadv ⟨rfl, hr.cursor.frames hr₅.cursor hadv, ?_, howner.2⟩
      rw [hover.span_eq]
      exact Cursor.Goes.rfl.upTo_within hgo₁
    rw [lands_bind_current]
    split
    · rename_i hstar
      exact hmember _ (Token.isEnd_of_isSymbol hstar)
    · split
      · rename_i hword
        refine (nameOf_lands hr₃ hr₃.cursor.current_mem).bind ?_
        rintro member r₄ - - ⟨-, rfl⟩
        simp only [Bool.or_eq_true, decide_eq_true_eq] at hword
        rcases hword with hkind | hword
        · exact hmember _ (Token.isEnd_of_kind hkind (by simp))
        · exact hmember _ (Token.isEnd_of_isPlain (Token.isPlain_of_isAnyKeyword hword))
      · exact failExpected_bind_lands hr₃ _
  · exact leafOr_lands hi hr hr₁ hover.toAdvances ⟨hover.span_eq, howner⟩

/-- An expression fills the place it was read from: it starts at the first token and ends at the
last one. -/
theorem expression_lands (hi : inner.Landing env) (hr : r.Placed env lo) :
    Builds env lo (Expr.Fills env.page) (expression env inner) r := by
  have hmem := hr.cursor.current_mem
  have hcomposite : Lands env lo (do
      operand inner
      let _ ← continuation inner
      verbatimFrom env r.cursor.current.span.start) r fun e r' =>
        r.cursor.Advances r'.cursor ∧ e.Fills env.page (r.cursor.upTo r'.cursor) := by
    refine (operand_lands hi hr).bind fun _ r₁ hr₁ _ hadv => ?_
    refine (continuation_lands hi hr₁).bind fun _ r₂ hr₂ hgo _ => ?_
    exact verbatimFrom_lands hr hr₂ (hadv.goes hgo)
  unfold Builds Completes
  rw [expression, lands_bind_current]
  dsimp only
  split
  · rename_i hkind
    refine (next_landsOf hr hkind (by simp)).bind fun _ r₁ hr₁ _ hover => ?_
    have hlt := hr.cursor.lastEnd_lt hover.toAdvances
    have hroom : r₁.draft.parameters < r₁.cursor.lastEnd := by
      rw [hover.draft_eq]
      exact Nat.lt_of_le_of_lt hr.counted hlt
    refine (nextParameter_lands hr₁ hroom).bind fun index r₂ hr₂ _ hcursor => ?_
    have hadv : r.cursor.Advances r₂.cursor := hcursor ▸ hover.toAdvances
    refine leafOr_lands hi hr hr₂ hadv ⟨?_, Setting.shows_of hmem hkind⟩
    exact hcursor ▸ hover.span_eq
  -- Integers, in both notations, and reals: each of them has a value.
  iterate 3
    · rename_i hkind
      refine (next_landsOf hr hkind (by simp)).bind fun _ r₁ hr₁ _ hover => ?_
      split
      · rename_i v hv
        exact leafOr_lands hi hr hr₁ hover.toAdvances ⟨hover.span_eq, Setting.shows_of hmem hv⟩
      · rename_i hnone
        have hvalued := TokenStream.valued_ofText hmem
        first
          | cases hnone ▸ hvalued.integer (by simp [hkind])
          | cases hnone ▸ hvalued.real hkind
  · rename_i hkind
    refine (next_landsOf hr hkind (by simp)).bind fun _ r₁ hr₁ _ hover => ?_
    refine leafOr_lands hi hr hr₁ hover.toAdvances
      ⟨hover.span_eq, Setting.shows_of hmem ⟨?_, rfl⟩⟩
    simp [Token.chars?, hkind, Setting.page]
  · split
    · rename_i hname
      refine (atCall_lands hr).bind ?_
      rintro composite r₁ - - ⟨rfl, -⟩
      split
      · exact hcomposite
      · exact namedExpression_lands hi hr (Token.isEnd_of_isName hname)
    · exact hcomposite

theorem expression_sits (hi : inner.Landing env) (hr : r.Placed env lo) :
    Builds env lo (Expr.Sits env.page) (expression env inner) r :=
  (expression_lands hi hr).imp fun _ _ _ _ ⟨hadv, he⟩ => ⟨hadv, he.sits⟩

/-! ## Aliases -/

theorem aliasOf_lands (hr : r.Placed env lo) {t : Token} (ht : t ∈ env.page.tokens) :
    Lands env lo (aliasOf env t) r fun _ r' => r' = r := by
  unfold aliasOf
  split
  · exact .pure hr rfl
  · exact (nameOf_lands hr ht).imp fun _ _ _ _ h => h.2

theorem optionalAlias_lands (hr : r.Placed env lo) :
    Lands env lo (optionalAlias env) r fun _ r' => r'.draft = r.draft := by
  refine (skipOneOf_lands hr (by simp)).bind fun marked r₁ hr₁ _ hmarked => ?_
  have hdraft : r₁.draft = r.draft := by
    rcases hmarked with ⟨-, -, hover⟩ | ⟨-, rfl⟩
    · exact hover.draft_eq
    · rfl
  have htaken : ∀ taken, (taken = true → r₁.cursor.current.isEnd = false) → Lands env lo (do
      if taken then
        next
        return some (← aliasOf env r₁.cursor.current)
      else return none) r₁ fun _ r' => r'.draft = r.draft := by
    intro taken hend
    split
    · rename_i h
      refine (next_lands hr₁ (hend h)).bind fun _ r₂ hr₂ _ hover => ?_
      refine (aliasOf_lands hr₂ hr₁.cursor.current_mem).bind ?_
      rintro name r₃ hr₃ - rfl
      exact .pure hr₃ (hover.draft_eq.trans hdraft)
    · exact .pure hr₁ hdraft
  rw [lands_bind_current]
  dsimp only
  split
  · split
    · rw [lands_bind_pure]
      exact htaken _ (by simp)
    · exact failExpected_bind_lands hr₁ _
    · rename_i hend
      rw [lands_bind_pure]
      exact htaken _ fun _ => Token.isEnd_eq_false.2 hend
  · split
    · rename_i hkind
      rw [lands_bind_pure]
      exact htaken _ fun _ => Token.isEnd_of_kind hkind (by simp)
    · rename_i hkind
      rw [lands_bind_pure]
      exact htaken _ fun _ => Token.isEnd_of_kind hkind (by simp)
    · rename_i hkind
      rw [lands_bind_pure]
      exact htaken _ fun _ => Token.isEnd_of_kind hkind (by simp)
    · rw [lands_bind_pure]
      exact htaken _ (by simp)

end Reader

end SqlMarkers
