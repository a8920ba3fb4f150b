/-
SqlMarkers.Proofs.Readback.Condition — predicates and conditions are read back.

A predicate is recognized by its first token, and its form by the token behind its first
operand. So a legible predicate is read as one of the same form, whose parts have the same
texts, if it stands in front of a token that no predicate goes on with.

A predicate with an operand is read in two steps: the operand, and a reader that is given the
operand (`operandTail`). Each form is a lemma on the second step alone, and
`recovers_operands` puts the first one in front. The result of the first step is rendered like
the operand, and no more is known of it; nothing more is needed, since the second step passes
it on.
-/
import SqlMarkers.Proofs.Readback.Recovery

namespace SqlMarkers

open Glyph

/-- Whether a token of this kind ends the predicate in front of it. -/
def Kind.stopsPredicate (k : Kind) : Bool := k.stopsItem && k != .keyword .ESCAPE

/-- Whether a token of this kind ends the conditions in front of it. -/
def Kind.stopsConditions (k : Kind) : Bool :=
  k.stopsPredicate && Reader.connectorOf k == none

/-- Whether a token of this kind may follow a query. An `ON` may not if it would be taken for
that of a join. -/
def Kind.endsQuery (bare : Bool) : Kind → Bool
  | .endOfInput | .symbol .rightParen => true
  | .keyword .ON => !bare
  | _ => false

/-- The text of a group of conditions. -/
def Reader.groupText (cs : List Condition) : String := "(" ++ Render.conditions cs ++ ")"

/-- The nested readers read back what is legible below, and what is nested in a leaf. -/
structure Inner.Recovers (env : Setting) (depth levels : Nat) (below : Below) (inner : Inner) :
    Prop where
  admits : inner.Admits env depth levels
  query : ∀ q, below.query q = true → ∃ gs,
    Reader.Recovers env depth inner.query Render.query (Kind.endsQuery q.endsInBareJoin) q gs ∧
      ahead gs = .keyword .SELECT ∧ Trails env.dialect (spaced gs)
  predicate : ∀ p, below.predicate p = true → ∃ gs,
    Reader.Recovers env depth inner.predicate Render.predicate Kind.stopsPredicate p gs ∧
      (ahead gs).opensExpression = true
  group : ∀ cs, below.group cs = true → ∃ gs, gs ≠ [] ∧
    Reader.Recovers env depth inner.group Reader.groupText (fun _ => true) cs (enclosed gs) ∧
      (ahead gs).opensExpression = true
  sources : ∀ ss, below.sources ss = true → ∃ gs,
    Reader.Recovers env depth inner.sources Render.sources (· == .symbol .rightParen) ss gs ∧
      ahead gs ≠ .keyword .SELECT

/-! ## Negated words -/

namespace Glyph

variable {d : Dialect} {gs : List Glyph} {negative : Bool}

/-- A `NOT` in front does not reach behind the first of the glyphs. -/
theorem spaced_negated (g : Glyph) (gs : List Glyph) :
    spaced (negated negative (g :: gs)) = spaced (negated negative [g]) ++ gs := by
  cases negative <;> rfl

theorem negated_ne_nil (h : gs ≠ []) : negated negative gs ≠ [] := by
  cases negative
  · exact h
  · exact List.cons_ne_nil _ _

theorem spell_negated (h : gs ≠ []) :
    spell (negated negative gs) = (Render.negation negative).toList ++ spell gs := by
  cases negative with
  | false => rfl
  | true =>
      show spell (word .NOT :: spaced gs) = _
      rw [spell_cons, spell_spaced h]
      rfl

/-- `NOT` is set off by blanks. -/
theorem Trails.negated (h : Trails d (Glyph.spaced gs)) :
    Trails d (Glyph.spaced (Glyph.negated negative gs)) := by
  cases negative with
  | false => exact h
  | true => exact .words (by cases d <;> decide) h

end Glyph

/-- `NOT` is read where it is written and only there. -/
theorem Reading.At.skipNegation {env : Setting} {depth : Nat} {r : Reading} {negative : Bool}
    {gs hs : List Glyph} (hne : gs ≠ []) (hnot : ahead gs ≠ .keyword .NOT)
    (h : r.At env depth (negated negative gs ++ hs)) :
    Reader.Attains (Reader.skipKeyword .NOT) r fun b r' =>
      b = negative ∧ r'.At env depth (gs ++ hs) := by
  cases negative with
  | false =>
      refine .yields (h.skipNone ?_) ⟨rfl, h⟩
      show [Kind.keyword .NOT].contains (ahead (gs ++ hs)) = false
      rw [ahead_append hne]
      simpa using hnot
  | true =>
      refine (h.skipOneOf rfl).mono ?_
      rintro _ r' ⟨rfl, hat⟩
      exact ⟨rfl, hat.unspaced⟩

namespace Reader

variable {env : Setting} {depth levels : Nat} {below : Below} {inner : Inner} {r : Reading}
  {gs hs : List Glyph} {Q : Predicate → Reading → Prop}

theorem stopsItem_of_stopsPredicate {k : Kind} (h : k.stopsPredicate = true) :
    k.stopsItem = true := by
  rw [Kind.stopsPredicate, Bool.and_eq_true] at h
  exact h.1

theorem stopsOperand_of_stopsPredicate {k : Kind} (h : k.stopsPredicate = true) :
    k.stopsOperand = true :=
  Stage.stopsOperand_of_stopsItem (stopsItem_of_stopsPredicate h)

/-! ## Predicates with operands -/

/-- The text of a legible expression begins with a token that an expression can begin with. -/
theorem expr_opens {e : Expr} (h : e.legible env.dialect levels = true) :
    (ahead (Glyph.ofText env.dialect (Render.expr e))).opensExpression = true := by
  obtain ⟨e', u, u', hkind, hyields⟩ := exists_of_recovers h
  rw [← hkind]
  exact expression_opens hyields

theorem legible_of_legibleOperand {e : Expr} {operator : List Glyph}
    (h : e.legibleOperand env.dialect levels operator = true) :
    e.legible env.dialect levels = true := by
  rw [Expr.legibleOperand, Bool.and_eq_true] at h
  exact h.1

/-- Where a predicate starts with an operand, it is read from this operand on. -/
theorem attains_of_startsOperand
    (h : Attains (startsOperand env inner) r fun b r' => b = true ∧ r' = r)
    (hoperand : Attains (operandPredicate env inner) r Q) : Attains (predicate env inner) r Q := by
  rcases h.unbind with ⟨t, r₁, hcurrent, h⟩ | ⟨e, r₁, hcurrent, -⟩
  · obtain ⟨rfl, rfl⟩ := yields_current.1 hcurrent
    refine .current ?_
    split
    · rename_i hkind
      rw [hkind] at h
      exact absurd h.1 (by decide)
    · rename_i hkind
      rw [hkind] at h
      exact absurd h.1 (by decide)
    · rename_i hkind
      rw [hkind] at h
      rcases h.unbind with ⟨t, r₁, hpeek, h⟩ | ⟨e, r₁, hpeek, he⟩
      · obtain ⟨-, rfl⟩ := peekNth_yields hpeek
        refine .after hpeek ?_
        split
        · exact hoperand
        · rename_i hselect
          rw [if_neg hselect] at h
          rcases h.unbind with ⟨tried, r₁, htried, h⟩ | ⟨e, r₁, htried, he⟩
          · refine .after htried ?_
            cases tried with
            | some cs => exact absurd h.1 (by decide)
            | none =>
                obtain ⟨-, rfl⟩ : true = true ∧ r₁ = r := h
                exact hoperand
          · exact .unmet_bind htried he
      · exact .unmet_bind hpeek he
    · exact hoperand
  · cases hcurrent

/-- The operator of a predicate is made up of words and marks. -/
theorem operator_proper (p : Predicate) :
    ∀ g ∈ spaced p.operator, g.kind ≠ .endOfInput ∧ g.text ≠ [] := by
  have hnegated : ∀ (negative : Bool) (k : Keyword), k ∈ [.IN, .BETWEEN, .LIKE] →
      ∀ g ∈ spaced (negated negative [word k]), g.kind ≠ .endOfInput ∧ g.text ≠ [] := by
    intro negative k hk
    simp only [List.mem_cons, List.not_mem_nil, or_false] at hk
    rcases hk with rfl | rfl | rfl <;> cases negative <;> decide
  have hmark : ∀ comparison : Comparison, ∀ g ∈ spaced [mark comparison.symbol],
      g.kind ≠ .endOfInput ∧ g.text ≠ [] := by
    intro comparison
    cases comparison <;> decide
  have his : ∀ g ∈ spaced [word .IS], g.kind ≠ .endOfInput ∧ g.text ≠ [] := by decide
  cases p with
  | compare _ comparison _ => exact hmark comparison
  | inValues _ negative _ => exact hnegated negative .IN (by simp)
  | inQuery _ negative _ => exact hnegated negative .IN (by simp)
  | between _ negative _ _ => exact hnegated negative .BETWEEN (by simp)
  | isNull _ _ => exact his
  | like _ negative _ _ => exact hnegated negative .LIKE (by simp)
  | existsIn _ _ => exact fun _ h => absurd h (List.not_mem_nil)
  | not _ => exact fun _ h => absurd h (List.not_mem_nil)
  | group _ => exact fun _ h => absurd h (List.not_mem_nil)
  | bare _ => exact fun _ h => absurd h (List.not_mem_nil)

/-- What follows the first operand of a predicate. -/
def operandTail (env : Setting) (inner : Inner) (left : Expr) : Reader Predicate := do
  let t ← current
  match comparisonAt? t with
  | some comparison =>
      next
      let right ← comparand env inner
      return .compare left comparison right
  | none =>
      if t.isKeyword .IS then
        next
        nullTest env inner left
      else matching env inner left

/-- A predicate that begins with an operand is read from its operand on. -/
theorem attains_predicate (hin : inner.Admits env depth levels) {p : Predicate} {left : Expr}
    (hleft : left.legibleOperand env.dialect levels p.operator = true)
    (hat : r.At env depth (Glyph.ofText env.dialect (Render.expr left) ++
      (spaced p.operator ++ gs)))
    (hstop : (ahead (spaced p.operator ++ gs)).stopsOperand = true)
    (h : ∀ left' r', Render.expr left' = Render.expr left →
      r'.At env depth (spaced p.operator ++ gs) → Attains (operandTail env inner left') r' Q) :
    Attains (predicate env inner) r Q := by
  have hlegible := legible_of_legibleOperand hleft
  have hrecovers := expr_recovers hin hlegible
  rw [Expr.legibleOperand, Bool.and_eq_true] at hleft
  have hproper : ∀ g ∈ Glyph.ofText env.dialect (Render.expr left) ++ spaced p.operator,
      g.kind ≠ .endOfInput ∧ g.text ≠ [] := by
    intro g hg
    rcases List.mem_append.1 hg with hg | hg
    · exact Lexes.proper (hrecovers.leads [] rfl) g hg
    · exact operator_proper p g hg
  have hstarts := attains_startsOperand hin hproper hleft.2 (by rwa [List.append_assoc])
  exact attains_of_startsOperand hstarts
    ((hrecovers.attains hstop hat).bind fun left' r' h' => h left' r' h'.1 h'.2)

/-- A predicate with operands recovers if what follows its first operand is read as such. -/
theorem recovers_operands (hin : inner.Admits env depth levels) {p : Predicate} {left : Expr}
    (tail : String) (gs : List Glyph)
    (hleft : left.legibleOperand env.dialect levels p.operator = true)
    (htext : Render.predicate p = Render.expr left ++ " " ++ tail)
    (hspells : spell gs = tail.toList) (hne : gs ≠ [])
    (hoperator : ∃ gs', spaced gs = spaced p.operator ++ gs')
    (htrails : Trails env.dialect (spaced gs)) (hstop : (ahead gs).stopsOperand = true)
    (h : ∀ left' r hs, Render.expr left' = Render.expr left →
      (ahead hs).stopsPredicate = true → r.At env depth (gs ++ hs) →
      Attains (operandTail env inner left') r fun p' r' =>
        Render.predicate p' = Render.predicate p ∧ r'.At env depth hs) :
    ∃ gs, Recovers env depth (predicate env inner) Render.predicate Kind.stopsPredicate p gs ∧
      (ahead gs).opensExpression = true := by
  have hlegible := legible_of_legibleOperand hleft
  have hrecovers := expr_recovers hin hlegible
  obtain ⟨gs', hgs'⟩ := hoperator
  refine ⟨Glyph.ofText env.dialect (Render.expr left) ++ spaced gs, ⟨?_, ?_, ?_, ?_⟩, ?_⟩
  · rw [spell_append, hrecovers.spells, spell_spaced hne, hspells, htext]
    simp
  · simp [hrecovers.nonempty]
  · exact hrecovers.leads.append htrails
  · intro r hs hfollow hat
    rw [List.append_assoc, hgs', List.append_assoc] at hat
    refine attains_predicate hin hleft hat ?_ fun left' r' hrender hat' => ?_
    · rw [← List.append_assoc, ← hgs', ahead_append (by simpa using hne)]
      simpa using hstop
    · rw [← List.append_assoc, ← hgs'] at hat'
      exact h left' r' hs hrender hfollow hat'.unspaced
  · rw [ahead_append hrecovers.nonempty]
    exact expr_opens hlegible

theorem ne_of_opensExpression {k : Kind} (h : k.opensExpression = true) (k' : Kind)
    (h' : k'.opensExpression = false) : k ≠ k' := by
  rintro rfl
  rw [h] at h'
  cases h'

theorem compare_recovers (hin : inner.Admits env depth levels) {left right : Expr}
    (comparison : Comparison)
    (hleft : left.legibleOperand env.dialect levels [mark comparison.symbol] = true)
    (hright : right.legibleComparand env.dialect levels = true) :
    ∃ gs, Recovers env depth (predicate env inner) Render.predicate Kind.stopsPredicate
      (.compare left comparison right) gs ∧ (ahead gs).opensExpression = true := by
  have hrecovers := comparand_recovers hin hright
  refine recovers_operands hin (comparison.spelling ++ " " ++ Render.expr right)
    (mark comparison.symbol :: spaced (Glyph.ofText env.dialect (Render.expr right))) hleft
    ?_ ?_ (List.cons_ne_nil _ _) ⟨_, rfl⟩ ?_ ?_ ?_
  · simp [Render.predicate, String.append_assoc]
  · simp [spell_spaced hrecovers.nonempty, hrecovers.spells]
  · exact .comparison comparison hrecovers.leads hrecovers.nonempty
  · cases comparison <;> rfl
  · intro left' r hs hrender hfollow hat
    have hkind := hat.kind
    have hcomparison : comparisonAt? r.cursor.current = some comparison := by
      rw [comparisonAt?, hkind]
      exact comparison.ofSymbol?_symbol
    refine .current ?_
    rw [hcomparison]
    refine hat.next.bind fun _ r₁ hat₁ => ?_
    refine (hrecovers.attains (stopsOperand_of_stopsPredicate hfollow) hat₁.unspaced).bind ?_
    rintro right' r' ⟨hright', hat'⟩
    refine .pure ⟨?_, hat'⟩
    rw [Render.predicate, Render.predicate, hrender, hright']

theorem isNull_recovers (hin : inner.Admits env depth levels) {left : Expr} (negative : Bool)
    (hleft : left.legibleOperand env.dialect levels [word .IS] = true) :
    ∃ gs, Recovers env depth (predicate env inner) Render.predicate Kind.stopsPredicate
      (.isNull left negative) gs ∧ (ahead gs).opensExpression = true := by
  have hnull : Trails env.dialect (spaced [word .NULL]) := .word (by cases env.dialect <;> decide)
  refine recovers_operands hin ("IS " ++ Render.negation negative ++ "NULL")
    (word .IS :: spaced (negated negative [word .NULL])) hleft ?_ ?_ (List.cons_ne_nil _ _)
    ⟨_, rfl⟩ ?_ rfl ?_
  · simp [Render.predicate, String.append_assoc]
    rfl
  · cases negative <;> rfl
  · exact .words (by cases env.dialect <;> decide) hnull.negated
  · intro left' r hs hrender hfollow hat
    have hkind := hat.kind
    refine .current ?_
    rw [comparisonAt?, hkind, hat.isKeyword]
    refine hat.next.bind fun _ r₁ hat₁ => ?_
    refine (hat₁.unspaced.skipNegation (List.cons_ne_nil _ _) (by decide)).bind ?_
    rintro _ r₂ ⟨rfl, hat₂⟩
    refine (hat₂.skipOneOf rfl).bind ?_
    rintro _ r₃ ⟨rfl, hat₃⟩
    refine .pure ⟨?_, hat₃⟩
    rw [Render.predicate, Render.predicate, hrender]

/-! ### Operators that may be negated -/

/-- What follows an optional `NOT` behind the first operand of a predicate. -/
def matchingTail (env : Setting) (inner : Inner) (left : Expr) (negative : Bool) :
    Reader Predicate := do
  let t ← current
  match t.kind with
  | .keyword .IN =>
      next
      membership env inner left negative
  | .keyword .BETWEEN =>
      next
      let low ← expression env inner
      let _ ← acceptKeyword .AND
      let high ← expression env inner
      return .between left negative low high
  | .keyword .LIKE =>
      next
      let pattern ← expression env inner
      if ← skipKeyword .ESCAPE then
        let escape ← expression env inner
        return .like left negative pattern (some escape)
      else return .like left negative pattern none
  | _ =>
      if isRegexp env t then
        next
        let _ ← expression env inner
        return .bare (← verbatimFrom env left.span.start)
      else if negative then failExpected "IN, BETWEEN, LIKE or REGEXP"
      else return .bare left

/-- An operator, with or without `NOT`, behind the first operand. -/
theorem attains_operator {left : Expr} {negative : Bool} {k : Keyword} (hk : k ≠ .NOT ∧ k ≠ .IS)
    (hat : r.At env depth (negated negative (word k :: gs) ++ hs))
    (h : ∀ r', r'.At env depth (word k :: (gs ++ hs)) →
      Attains (matchingTail env inner left negative) r' Q) :
    Attains (operandTail env inner left) r Q := by
  have hfirst : ∃ k', ahead (negated negative (word k :: gs) ++ hs) = .keyword k' ∧ k' ≠ .IS := by
    cases negative with
    | false => exact ⟨k, rfl, hk.2⟩
    | true => exact ⟨.NOT, rfl, by decide⟩
  obtain ⟨k', hfirst, his⟩ := hfirst
  have hkind := hat.kind
  refine .current ?_
  rw [comparisonAt?, hkind, hat.isKeyword, hfirst,
    beq_false_of_ne (fun heq => his (Kind.keyword.inj heq))]
  have hnot : ahead (word k :: gs) ≠ .keyword .NOT := fun heq => hk.1 (Kind.keyword.inj heq)
  refine (hat.skipNegation (List.cons_ne_nil _ _) hnot).bind ?_
  rintro _ r₁ ⟨rfl, hat₁⟩
  exact h r₁ hat₁

/-- What stands in parentheses behind `IN`, and the closing parenthesis. -/
def membershipTail (env : Setting) (inner : Inner) (left : Expr) (negative : Bool)
    (opening : Token) : Reader Predicate := do
  if ← atKeyword .SELECT then
    let q ← inner.embed
    close opening
    return .inQuery left negative q
  else
    let values ← commaSeparated (expression env inner)
    close opening
    return .inValues left negative values

/-- `IN` with something in parentheses recovers if that is read as such. -/
theorem recovers_membership (hin : inner.Admits env depth levels) {p : Predicate} {left : Expr}
    {negative : Bool} {text : String} (hoperator : p.operator = negated negative [word .IN])
    (hleft : left.legibleOperand env.dialect levels p.operator = true)
    (htext : Render.predicate p = Render.expr left ++ " " ++ Render.negation negative ++
      "IN (" ++ text ++ ")")
    (hspells : spell gs = text.toList) (hleads : Leads env.dialect gs)
    (h : ∀ left' opening r hs, Render.expr left' = Render.expr left →
      r.At env depth (gs ++ (mark .rightParen :: hs)) →
      Attains (membershipTail env inner left' negative opening) r fun p' r' =>
        Render.predicate p' = Render.predicate p ∧ r'.At env depth hs) :
    ∃ gs, Recovers env depth (predicate env inner) Render.predicate Kind.stopsPredicate p gs ∧
      (ahead gs).opensExpression = true := by
  have hmember : Trails env.dialect (spaced (word .IN :: spaced (enclosed gs))) :=
    .words (by cases env.dialect <;> decide) (.enclosed hleads)
  refine recovers_operands hin (Render.negation negative ++ "IN (" ++ text ++ ")")
    (negated negative (word .IN :: spaced (enclosed gs))) hleft ?_ ?_
    (negated_ne_nil (List.cons_ne_nil _ _)) ⟨_, by rw [hoperator]; exact spaced_negated _ _⟩
    hmember.negated ?_ ?_
  · rw [htext]
    simp only [String.append_assoc]
  · rw [spell_negated (List.cons_ne_nil _ _)]
    simp [enclosed, hspells]
    rfl
  · cases negative <;> rfl
  · intro left' r hs hrender _ hat
    refine attains_operator (by decide) hat fun r₁ hat₁ => ?_
    refine .current ?_
    rw [hat₁.kind]
    refine hat₁.next.bind fun _ r₂ hat₂ => ?_
    have hat₂ := hat₂.unspaced
    rw [enclosed_append] at hat₂
    exact (hat₂.accept rfl).bind fun opening r₃ hat₃ => h left' opening r₃ hs hrender hat₃

/-- Expressions with commas between them. -/
theorem exprs_recover (hin : inner.Admits env depth levels) {es : List Expr} (hne : es ≠ [])
    (hes : ∀ e ∈ es, e.legible env.dialect levels = true) :
    ∃ gs, Recovers env depth (commaSeparated (expression env inner)) Render.exprs
      (fun k => k.stopsOperand && k != .symbol .comma) es gs ∧
      (ahead gs).opensExpression = true :=
  list_recovers Kind.stopsOperand (fun k => k.opensExpression = true) hne
    (fun e he => ⟨_, expr_recovers hin (hes e he), expr_opens (hes e he)⟩) rfl

/-- A list of values is read back: its first token begins an expression, so it is not `SELECT`. -/
theorem inValues_recovers (hin : inner.Admits env depth levels) {left : Expr} {values : List Expr}
    (negative : Bool)
    (hleft : left.legibleOperand env.dialect levels (negated negative [word .IN]) = true)
    (hne : values ≠ [])
    (hvalues : ∀ e ∈ values, e.legible env.dialect levels = true) :
    ∃ gs, Recovers env depth (predicate env inner) Render.predicate Kind.stopsPredicate
      (.inValues left negative values) gs ∧ (ahead gs).opensExpression = true := by
  obtain ⟨gs, hgs, hfirst⟩ := exprs_recover hin hne hvalues
  refine recovers_membership hin rfl hleft (by rw [Render.predicate]) hgs.spells hgs.leads ?_
  intro left' opening r hs hrender hat
  refine .atKeyword ?_
  rw [hat.isKeyword, ahead_append hgs.nonempty, beq_false_of_ne (ne_of_opensExpression hfirst _ rfl)]
  refine (hgs.attains rfl hat).bind ?_
  rintro values' r₁ ⟨hvalues', hat₁⟩
  refine (hat₁.close opening).bind fun _ r₂ hat₂ => .pure ⟨?_, hat₂⟩
  rw [Render.predicate, Render.predicate, hrender, hvalues']

/-- A nested query is read back by the readers one level down. -/
theorem inQuery_recovers (hin : inner.Recovers env depth levels below) {left : Expr} {q : Query}
    (negative : Bool)
    (hleft : left.legibleOperand env.dialect levels (negated negative [word .IN]) = true)
    (hq : below.query q = true) :
    ∃ gs, Recovers env depth (predicate env inner) Render.predicate Kind.stopsPredicate
      (.inQuery left negative q) gs ∧ (ahead gs).opensExpression = true := by
  obtain ⟨gs, hgs, hfirst, -⟩ := hin.query q hq
  refine recovers_membership hin.admits rfl hleft (by rw [Render.predicate]) hgs.spells hgs.leads ?_
  intro left' opening r hs hrender hat
  refine .atKeyword ?_
  rw [hat.isKeyword, ahead_append hgs.nonempty, hfirst]
  refine (hgs.embed.attains rfl hat).bind ?_
  rintro q' r₁ ⟨hq', hat₁⟩
  refine (hat₁.close opening).bind fun _ r₂ hat₂ => .pure ⟨?_, hat₂⟩
  rw [Render.predicate, Render.predicate, hrender, hq']

/-- `BETWEEN` is read back. The `AND` in it ends the lower bound, as it goes on no operand. -/
theorem between_recovers (hin : inner.Admits env depth levels) {left low high : Expr}
    (negative : Bool)
    (hleft : left.legibleOperand env.dialect levels (negated negative [word .BETWEEN]) = true)
    (hlow : low.legible env.dialect levels = true)
    (hhigh : high.legible env.dialect levels = true) :
    ∃ gs, Recovers env depth (predicate env inner) Render.predicate Kind.stopsPredicate
      (.between left negative low high) gs ∧ (ahead gs).opensExpression = true := by
  have hl := expr_recovers hin hlow
  have hh := expr_recovers hin hhigh
  have hand : Trails env.dialect (spaced (word .AND ::
      spaced (Glyph.ofText env.dialect (Render.expr high)))) :=
    .clause (by cases env.dialect <;> decide) rfl hh.leads
  have hbetween := Trails.clause (k := .BETWEEN) (by cases env.dialect <;> decide) rfl
    (hl.leads.append hand)
  refine recovers_operands hin
    (Render.negation negative ++ "BETWEEN " ++ Render.expr low ++ " AND " ++ Render.expr high)
    (negated negative (word .BETWEEN :: spaced (Glyph.ofText env.dialect (Render.expr low) ++
      spaced (word .AND :: spaced (Glyph.ofText env.dialect (Render.expr high)))))) hleft ?_ ?_
    (negated_ne_nil (List.cons_ne_nil _ _)) ⟨_, spaced_negated _ _⟩ hbetween.negated ?_ ?_
  · simp only [Render.predicate, String.append_assoc]
  · rw [spell_negated (List.cons_ne_nil _ _), spell_cons, spell_spaced (by simp), spell_append,
      hl.spells, spell_spaced (by simp), spell_cons, spell_spaced hh.nonempty, hh.spells]
    simp
    rfl
  · cases negative <;> rfl
  · intro left' r hs hrender hfollow hat
    refine attains_operator (by decide) hat fun r₁ hat₁ => ?_
    refine .current ?_
    rw [hat₁.kind]
    refine hat₁.next.bind fun _ r₂ hat₂ => ?_
    have hat₂ := hat₂.unspaced
    rw [List.append_assoc] at hat₂
    refine (hl.attains rfl hat₂).bind ?_
    rintro low' r₃ ⟨hlow', hat₃⟩
    refine (hat₃.unspaced.accept rfl).bind fun _ r₄ hat₄ => ?_
    refine (hh.attains (stopsOperand_of_stopsPredicate hfollow) hat₄.unspaced).bind ?_
    rintro high' r₅ ⟨hhigh', hat₅⟩
    refine .pure ⟨?_, hat₅⟩
    rw [Render.predicate, Render.predicate, hrender, hlow', hhigh']

/-- The text of an optional `ESCAPE`. -/
def escapeText : Option Expr → String
  | some e => " ESCAPE " ++ Render.expr e
  | none => ""

theorem predicate_like (left pattern : Expr) (negative : Bool) (escape : Option Expr) :
    Render.predicate (.like left negative pattern escape) = Render.expr left ++ " " ++
      (Render.negation negative ++ "LIKE " ++ Render.expr pattern ++ escapeText escape) := by
  cases escape <;> simp only [Render.predicate, escapeText, String.append_assoc]

/-- The glyphs of an optional `ESCAPE`. -/
def escapeGlyphs (d : Dialect) : Option Expr → List Glyph
  | some e => spaced (word .ESCAPE :: spaced (Glyph.ofText d (Render.expr e)))
  | none => []

theorem trails_escapeGlyphs (hin : inner.Admits env depth levels) {escape : Option Expr}
    (hescape : escape.all (·.legible env.dialect levels) = true) :
    Trails env.dialect (escapeGlyphs env.dialect escape) := by
  cases escape with
  | none => exact .nil
  | some e =>
      exact .clause (by cases env.dialect <;> decide) rfl (expr_recovers hin hescape).leads

theorem spell_escapeGlyphs (hin : inner.Admits env depth levels) {escape : Option Expr}
    (hescape : escape.all (·.legible env.dialect levels) = true) :
    spell (escapeGlyphs env.dialect escape) = (escapeText escape).toList := by
  cases escape with
  | none => rfl
  | some e =>
      have he := expr_recovers hin hescape
      rw [escapeGlyphs, spell_spaced (by simp), spell_cons, spell_spaced he.nonempty, he.spells]
      simp [escapeText]
      rfl

/-- `LIKE` is read back, with or without `ESCAPE`. -/
theorem like_recovers (hin : inner.Admits env depth levels) {left pattern : Expr}
    {escape : Option Expr} (negative : Bool)
    (hleft : left.legibleOperand env.dialect levels (negated negative [word .LIKE]) = true)
    (hpattern : pattern.legible env.dialect levels = true)
    (hescape : escape.all (·.legible env.dialect levels) = true) :
    ∃ gs, Recovers env depth (predicate env inner) Render.predicate Kind.stopsPredicate
      (.like left negative pattern escape) gs ∧ (ahead gs).opensExpression = true := by
  have hp := expr_recovers hin hpattern
  have hlike := Trails.clause (k := .LIKE) (by cases env.dialect <;> decide) rfl
    (hp.leads.append (trails_escapeGlyphs hin hescape))
  refine recovers_operands hin
    (Render.negation negative ++ "LIKE " ++ Render.expr pattern ++ escapeText escape)
    (negated negative (word .LIKE :: spaced (Glyph.ofText env.dialect (Render.expr pattern) ++
      escapeGlyphs env.dialect escape))) hleft (predicate_like left pattern negative escape) ?_
    (negated_ne_nil (List.cons_ne_nil _ _)) ⟨_, spaced_negated _ _⟩ hlike.negated ?_ ?_
  · rw [spell_negated (List.cons_ne_nil _ _), spell_cons, spell_spaced (by simp [hp.nonempty]),
      spell_append, hp.spells, spell_escapeGlyphs hin hescape]
    simp
    rfl
  · cases negative <;> rfl
  · intro left' r hs hrender hfollow hat
    have hstop := stopsOperand_of_stopsPredicate hfollow
    refine attains_operator (by decide) hat fun r₁ hat₁ => ?_
    refine .current ?_
    rw [hat₁.kind]
    refine hat₁.next.bind fun _ r₂ hat₂ => ?_
    have hat₂ := hat₂.unspaced
    rw [List.append_assoc] at hat₂
    cases escape with
    | none =>
        refine (hp.attains hstop hat₂).bind ?_
        rintro pattern' r₃ ⟨hpattern', hat₃⟩
        have hnone : [Kind.keyword .ESCAPE].contains (ahead hs) = false := by
          rw [Kind.stopsPredicate, Bool.and_eq_true, bne_iff_ne] at hfollow
          simpa using hfollow.2
        refine .after (hat₃.skipNone hnone) (.pure ⟨?_, hat₃⟩)
        rw [predicate_like, predicate_like, hrender, hpattern']
    | some e =>
        have he := expr_recovers hin hescape
        refine (hp.attains rfl hat₂).bind ?_
        rintro pattern' r₃ ⟨hpattern', hat₃⟩
        rw [escapeGlyphs] at hat₃
        refine (hat₃.unspaced.skipOneOf rfl).bind ?_
        rintro _ r₄ ⟨rfl, hat₄⟩
        refine (he.attains hstop hat₄.unspaced).bind ?_
        rintro e' r₅ ⟨he', hat₅⟩
        refine .pure ⟨?_, hat₅⟩
        rw [predicate_like, predicate_like, hrender, hpattern', escapeText, escapeText, he']

/-! ### Predicates that are kept as text -/

/-- Such a predicate is read back as one that is kept as text again. -/
theorem bare_recovers (hin : inner.Admits env depth levels) {e : Expr}
    (he : e.legiblePredicate env.dialect levels = true) :
    ∃ gs, Recovers env depth (predicate env inner) Render.predicate Kind.stopsPredicate (.bare e) gs ∧
      (ahead gs).opensExpression = true := by
  obtain ⟨hrecovers, hstarts⟩ := Bool.and_eq_true_iff.1 he
  have hrow := isRow_of_recovers hrecovers
  refine ⟨_, ⟨?_, ofText_ne_nil hrow, leads_ofText hrow, fun {r hs} hfollow hat => ?_⟩, ?_⟩
  · rw [spell_ofText hrow, Render.predicate]
  · have hproper := Lexes.proper (leads_ofText hrow [] rfl)
    refine attains_of_startsOperand (attains_startsOperand hin hproper hstarts hat) ?_
    refine (attains_barePredicate hin hrecovers (stopsItem_of_stopsPredicate hfollow) hat).mono ?_
    rintro _ r' ⟨⟨e', rfl, he'⟩, hat'⟩
    exact ⟨by rw [Render.predicate, Render.predicate, he'], hat'⟩
  · obtain ⟨e', u, u', hkind, hyields⟩ := exists_of_recovers hrecovers
    rw [← hkind]
    exact barePredicate_opens hyields

/-! ## Nested predicates -/

theorem existsIn_recovers (hin : inner.Recovers env depth levels below) {q : Query}
    (hq : below.query q = true) :
    ∃ gs, Recovers env depth (predicate env inner) Render.predicate Kind.stopsPredicate
      (.existsIn false q) gs ∧ (ahead gs).opensExpression = true := by
  obtain ⟨gs, hgs, hfirst, -⟩ := hin.query q hq
  refine ⟨word .EXISTS :: spaced (enclosed gs), ⟨?_, List.cons_ne_nil _ _, ?_, ?_⟩, rfl⟩
  · simp [enclosed, hgs.spells, Render.predicate, Render.negation]
    rfl
  · exact sound_word (by cases env.dialect <;> decide) (.enclosed hgs.leads)
  · intro r hs hfollow hat
    refine .current ?_
    rw [hat.kind]
    refine hat.next.bind fun _ r₁ hat₁ => ?_
    have hat₁ := hat₁.unspaced
    rw [enclosed_append] at hat₁
    refine (hat₁.accept rfl).bind fun opening r₂ hat₂ => .atKeyword ?_
    rw [hat₂.isKeyword, ahead_append hgs.nonempty, hfirst]
    refine (hgs.embed.attains rfl hat₂).bind ?_
    rintro q' r₃ ⟨hq', hat₃⟩
    refine (hat₃.close opening).bind fun _ r₄ hat₄ => .pure ⟨?_, hat₄⟩
    rw [Render.predicate, Render.predicate, hq']

/-- Negating writes `NOT` in front, also in front of `EXISTS`. -/
theorem predicate_negate (p : Predicate) :
    Render.predicate (negate p) = "NOT " ++ Render.predicate p := by
  unfold negate
  split
  · simp only [Render.predicate, Render.negation, String.append_assoc]
    rfl
  · rw [Render.predicate]

/-- A negated predicate is read back one level down. -/
theorem not_recovers (hin : inner.Recovers env depth levels below) {p p' : Predicate}
    (hp : below.predicate p = true) (htext : Render.predicate p' = "NOT " ++ Render.predicate p) :
    ∃ gs, Recovers env depth (predicate env inner) Render.predicate Kind.stopsPredicate p' gs ∧
      (ahead gs).opensExpression = true := by
  obtain ⟨gs, hgs, hfirst⟩ := hin.predicate p hp
  refine ⟨word .NOT :: spaced gs, ⟨?_, List.cons_ne_nil _ _, ?_, ?_⟩, rfl⟩
  · rw [spell_cons, spell_spaced hgs.nonempty, hgs.spells, htext]
    simp
    rfl
  · exact sound_clause (by cases env.dialect <;> decide) rfl hgs.leads
  · intro r hs hfollow hat
    refine .current ?_
    rw [hat.kind]
    refine hat.next.bind fun _ r₁ hat₁ => ?_
    refine (hgs.attains hfollow hat₁.unspaced).bind ?_
    rintro p₁ r₂ ⟨hp₁, hat₂⟩
    refine .pure ⟨?_, hat₂⟩
    rw [predicate_negate, hp₁, htext]

/-- What ends a predicate shows that a group before it was one. -/
theorem yields_operandGoesOn (hat : r.At env depth hs) (hstop : (ahead hs).stopsPredicate = true) :
    Yields (operandGoesOn env) r false r := by
  have hitem := stopsItem_of_stopsPredicate hstop
  have hkind : r.cursor.current.kind.stopsItem = true := by
    rw [hat.kind]
    exact hitem
  refine yields_bind.2 ⟨r.cursor.current, r, yields_current.2 ⟨rfl, rfl⟩, ?_⟩
  rw [Stage.isRegexp_of_ne env (Stage.ne_of_stopsItem hkind _ rfl)]
  generalize r.cursor.current.kind = k at hkind
  split
  · rename_i mark
    have hoperand := Stage.stopsOperand_of_stopsItem hkind
    rw [Kind.stopsItem, Bool.and_eq_true, Bool.not_eq_true'] at hkind
    rw [Kind.stopsOperand, Bool.not_eq_true'] at hoperand
    rw [hkind.2, hoperand]
    rfl
  · exact absurd hkind (by decide)
  · rename_i k _
    have hother : [Keyword.IS, .IN, .BETWEEN, .LIKE, .DIV, .MOD].contains k = false := by
      cases k <;> first | rfl | exact absurd hkind (by decide)
    rw [hother]
    rfl
  · rfl

/-- A group is read back: the attempt to read it succeeds, and what follows shows that it was no
operand. -/
theorem group_recovers (hin : inner.Recovers env depth levels below) {cs : List Condition}
    (hcs : below.group cs = true) :
    ∃ gs, Recovers env depth (predicate env inner) Render.predicate Kind.stopsPredicate
      (.group cs) gs ∧ (ahead gs).opensExpression = true := by
  obtain ⟨gs, hne, hgs, hfirst⟩ := hin.group cs hcs
  refine ⟨enclosed gs, ⟨?_, List.cons_ne_nil _ _, hgs.leads, ?_⟩, rfl⟩
  · rw [hgs.spells, Render.predicate, groupText]
  · intro r hs hfollow hat
    have hattempt : Attains (attemptGroup env inner) r fun cs' r' =>
        (∃ cs'', cs' = some cs'' ∧ groupText cs'' = groupText cs) ∧ r'.At env depth hs := by
      rcases (hgs.attains rfl hat).outcome with ⟨cs', r₁, hgroup, hcs', hat₁⟩ | ⟨e, r₁, hgroup, he⟩
      · refine .yields (a := some cs') (s := r₁) ?_ ⟨⟨cs', rfl, hcs'⟩, hat₁⟩
        rw [Yields, attemptGroup, show inner.group r = .ok cs' r₁ from hgroup]
        simp only [show operandGoesOn env r₁ = .ok false r₁ from yields_operandGoesOn hat₁ hfollow]
      · -- A fault that no statement leads to is not one that a group is given up for.
        refine .unmet (e := e) (s := r₁) ?_ he
        rw [attemptGroup, hgroup]
        rcases he with rfl | rfl <;> rfl
    rw [enclosed_append] at hat
    refine .current ?_
    rw [hat.kind]
    refine hat.peek.bind ?_
    rintro t _ ⟨hkind, rfl⟩
    have hselect : t.isKeyword .SELECT = false := by
      rw [Token.isKeyword, hkind, ahead_append hne]
      exact beq_false_of_ne (ne_of_opensExpression hfirst _ rfl)
    rw [hselect]
    refine hattempt.bind ?_
    rintro _ r₂ ⟨⟨cs', rfl, hcs'⟩, hat₂⟩
    refine .pure ⟨?_, hat₂⟩
    rw [Render.predicate, Render.predicate]
    exact hcs'

theorem predicate_recovers (hin : inner.Recovers env depth levels below) {p : Predicate}
    (h : p.isBuilt (Leaf.legible env.dialect levels) below = true) :
    ∃ gs, Recovers env depth (predicate env inner) Render.predicate Kind.stopsPredicate p gs ∧
      (ahead gs).opensExpression = true := by
  cases p with
  | compare left comparison right =>
      simp only [Predicate.isBuilt, Bool.and_eq_true] at h
      exact compare_recovers hin.admits comparison h.1 h.2
  | inValues left negative values =>
      simp only [Predicate.isBuilt, Bool.and_eq_true, Bool.not_eq_true', List.isEmpty_eq_false_iff,
        List.all_eq_true] at h
      exact inValues_recovers hin.admits negative h.1.1 h.1.2 h.2
  | inQuery left negative q =>
      simp only [Predicate.isBuilt, Bool.and_eq_true] at h
      exact inQuery_recovers hin negative h.1 h.2
  | between left negative low high =>
      simp only [Predicate.isBuilt, Bool.and_eq_true] at h
      exact between_recovers hin.admits negative h.1.1 h.1.2 h.2
  | isNull left negative => exact isNull_recovers hin.admits negative h
  | like left negative pattern escape =>
      simp only [Predicate.isBuilt, Bool.and_eq_true] at h
      exact like_recovers hin.admits negative h.1.1 h.1.2 h.2
  | existsIn negative q =>
      cases negative with
      | false => exact existsIn_recovers hin h
      | true => exact not_recovers hin h (predicate_negate (.existsIn false q))
  | not p => exact not_recovers hin h (by rw [Render.predicate])
  | group cs => exact group_recovers hin h
  | bare e => exact bare_recovers hin.admits h

/-! ## Conditions -/

/-- The word of a connector. -/
def connectorKeyword : Connector → Keyword
  | .or => .OR
  | _ => .AND

/-- Conditions with their words in front. -/
def linked (glyphs : Condition → List Glyph) : List Condition → List Glyph
  | [] => []
  | c :: cs => spaced (word (connectorKeyword c.connector) :: spaced (glyphs c)) ++ linked glyphs cs

theorem conditions_eq (cs : List Condition) :
    Render.conditions cs = " ".intercalate (cs.map Render.condition) := by
  induction cs with
  | nil => simp [Render.conditions]
  | cons c cs ih =>
      cases cs with
      | nil => simp [Render.conditions]
      | cons c' cs =>
          simp only [List.map_cons, String.intercalate_cons_cons] at ih ⊢
          rw [Render.conditions, ih]
          simp

theorem condition_eq (c : Condition) :
    Render.condition c = Render.connectorWord c.connector ++ Render.predicate c.predicate := by
  obtain ⟨connector, p, span⟩ := c
  rw [Render.condition]

theorem spell_linked {glyphs : Condition → List Glyph} {c : Condition} {cs : List Condition}
    (hcs : ∀ c ∈ cs, c.connector ≠ .first ∧ glyphs c ≠ [] ∧
      spell (glyphs c) = (Render.predicate c.predicate).toList) :
    (Render.condition c).toList ++ spell (linked glyphs cs) =
      (Render.conditions (c :: cs)).toList := by
  rw [conditions_eq]
  induction cs generalizing c with
  | nil => simp [linked]
  | cons c' cs ih =>
      obtain ⟨⟨hword, hne, hspell⟩, hcs⟩ := List.forall_mem_cons.1 hcs
      have htail := ih (c := c') hcs
      simp only [List.map_cons, String.intercalate_cons_cons] at htail ⊢
      rw [String.toList_append, ← htail, linked, spell_append, spell_spaced (by simp), spell_cons,
        spell_spaced hne, hspell, condition_eq c']
      obtain ⟨connector, p, span⟩ := c'
      cases connector with
      | first => exact absurd rfl hword
      | and => simp [connectorKeyword, Render.connectorWord]; rfl
      | or => simp [connectorKeyword, Render.connectorWord]; rfl

theorem trails_linked {glyphs : Condition → List Glyph} {cs : List Condition}
    (hcs : ∀ c ∈ cs, Leads env.dialect (glyphs c)) : Trails env.dialect (linked glyphs cs) := by
  induction cs with
  | nil => exact .nil
  | cons c cs ih =>
      obtain ⟨hc, hcs⟩ := List.forall_mem_cons.1 hcs
      have hplain : Plain env.dialect (connectorKeyword c.connector) := by
        cases c.connector <;> cases env.dialect <;> decide
      have hends : (Kind.keyword (connectorKeyword c.connector)).endsOperand = false := by
        cases c.connector <;> rfl
      exact (Trails.clause hplain hends hc).append (ih hcs)

/-- Conditions are read one by one, each with the word in front of it. -/
theorem attains_conditions {glyphs : Condition → List Glyph} {c : Condition} {cs : List Condition}
    (hfirst : c.connector = .first) (hcs : ∀ c ∈ cs, c.connector ≠ .first)
    (hglyphs : ∀ c' ∈ c :: cs, Recovers env depth (predicate env inner) Render.predicate
      Kind.stopsPredicate c'.predicate (glyphs c'))
    (hfollow : (ahead hs).stopsConditions = true)
    (hat : r.At env depth (glyphs c ++ (linked glyphs cs ++ hs))) :
    Attains (conditions env inner) r fun cs' r' =>
      Render.conditions cs' = Render.conditions (c :: cs) ∧ r'.At env depth hs := by
  rw [Kind.stopsConditions, Bool.and_eq_true, beq_iff_eq] at hfollow
  refine attains_repeating (fun (state : Connector × List Condition) r => ∃ front c' back,
    c :: cs = front ++ c' :: back ∧ state.1 = c'.connector ∧
      state.2.map Render.condition = front.map Render.condition ∧
      r.At env depth (glyphs c' ++ (linked glyphs back ++ hs))) ?_
    ⟨[], c, cs, rfl, hfirst.symm, rfl, hat⟩
  rintro ⟨connector, done⟩ r ⟨front, c', back, hsplit, rfl, hdone, hat⟩
  have hc' := hglyphs c' (by rw [hsplit]; simp)
  have hsnoc : ∀ p span, Render.predicate p = Render.predicate c'.predicate →
      (done ++ [Condition.mk c'.connector p span]).map Render.condition =
        (front ++ [c']).map Render.condition := by
    intro p span hp
    rw [List.map_append, List.map_append, hdone, List.map_singleton, List.map_singleton,
      condition_eq, condition_eq c', hp]
  refine .here ?_
  cases back with
  | nil =>
      refine (hc'.attains hfollow.1 hat).bind ?_
      rintro p r₁ ⟨hp, hat₁⟩
      refine .lastEnd (.current ?_)
      rw [hat₁.kind, hfollow.2]
      refine .pure ⟨?_, hat₁⟩
      rw [conditions_eq, hsnoc p _ hp, hsplit, conditions_eq]
  | cons c'' back =>
      have hlink : c''.connector ≠ .first := by
        refine hcs c'' ?_
        cases front with
        | nil => simp [(List.cons.inj hsplit).2]
        | cons x front => simp [(List.cons.inj hsplit).2]
      rw [linked, List.append_assoc] at hat
      have hword : connectorOf (.keyword (connectorKeyword c''.connector)) = some c''.connector := by
        cases hconnector : c''.connector with
        | first => exact absurd hconnector hlink
        | and => rfl
        | or => rfl
      have hstop : (Kind.keyword (connectorKeyword c''.connector)).stopsPredicate = true := by
        cases c''.connector <;> rfl
      refine (hc'.attains (by exact hstop) hat).bind ?_
      rintro p r₁ ⟨hp, hat₁⟩
      refine .lastEnd (.current ?_)
      have hkind : r₁.cursor.current.kind = .keyword (connectorKeyword c''.connector) := hat₁.kind
      rw [hkind, hword]
      exact hat₁.next.bind fun _ r₂ hat₂ => .pure ⟨front ++ [c'], c'', back,
        by rw [hsplit]; simp, rfl, hsnoc p _ hp, hat₂.unspaced⟩

theorem conditions_recover (hin : inner.Recovers env depth levels below) {cs : List Condition}
    (h : conditionsBuilt (Leaf.legible env.dialect levels) below cs = true) :
    ∃ gs, Recovers env depth (conditions env inner) Render.conditions Kind.stopsConditions cs gs ∧
      (ahead gs).opensExpression = true := by
  cases cs with
  | nil => cases h
  | cons c cs =>
      simp only [conditionsBuilt, Bool.and_eq_true, beq_iff_eq, List.all_eq_true, bne_iff_ne] at h
      obtain ⟨⟨hfirst, hc⟩, hcs⟩ := h
      have hall : ∀ c' ∈ c :: cs, c'.predicate.isBuilt (Leaf.legible env.dialect levels) below = true :=
        List.forall_mem_cons.2 ⟨hc, fun c' hc' => (hcs c' hc').2⟩
      obtain ⟨glyphs, hglyphs⟩ := exists_glyphs fun c' hc' => predicate_recovers hin (hall c' hc')
      have hspells : spell (glyphs c ++ linked glyphs cs) = (Render.conditions (c :: cs)).toList := by
        rw [← spell_linked fun c' hc' => ⟨(hcs c' hc').1,
          (hglyphs c' (List.mem_cons_of_mem _ hc')).1.nonempty,
          (hglyphs c' (List.mem_cons_of_mem _ hc')).1.spells⟩, spell_append,
          (hglyphs c List.mem_cons_self).1.spells, condition_eq, hfirst]
        simp [Render.connectorWord]
      have htrails : Trails env.dialect (linked glyphs cs) :=
        trails_linked fun c' hc' => (hglyphs c' (List.mem_cons_of_mem _ hc')).1.leads
      refine ⟨glyphs c ++ linked glyphs cs, ⟨hspells, ?_, ?_, ?_⟩, ?_⟩
      · simp [(hglyphs c List.mem_cons_self).1.nonempty]
      · exact (hglyphs c List.mem_cons_self).1.leads.append htrails
      · intro r hs hfollow hat
        rw [List.append_assoc] at hat
        exact attains_conditions hfirst (fun c' hc' => (hcs c' hc').1)
          (fun c' hc' => (hglyphs c' hc').1) hfollow hat
      · rw [ahead_append (hglyphs c List.mem_cons_self).1.nonempty]
        exact (hglyphs c List.mem_cons_self).2

/-- Conditions in parentheses are read as a group. -/
theorem enclosed_recovers (hin : inner.Recovers env depth levels below) {cs : List Condition}
    (h : conditionsBuilt (Leaf.legible env.dialect levels) below cs = true) :
    ∃ gs, gs ≠ [] ∧
      Recovers env depth (group env inner) groupText (fun _ => true) cs (enclosed gs) ∧
      (ahead gs).opensExpression = true := by
  obtain ⟨gs, hgs, hfirst⟩ := conditions_recover hin h
  refine ⟨gs, hgs.nonempty, ⟨?_, List.cons_ne_nil _ _, sound_enclosed hgs.leads, ?_⟩, hfirst⟩
  · simp [enclosed, groupText, hgs.spells]
    rfl
  · intro r hs _ hat
    rw [enclosed_append] at hat
    refine (hat.accept rfl).bind fun _ r₁ hat₁ => ?_
    refine (hgs.attains rfl hat₁).bind ?_
    rintro cs' r₂ ⟨hcs', hat₂⟩
    refine (hat₂.accept rfl).bind fun _ r₃ hat₃ => .pure ⟨?_, hat₃⟩
    rw [groupText, groupText, hcs']

end Reader

end SqlMarkers
