/-
SqlMarkers.Proofs.Agreement.Operand — operands, expressions and aliases in twin
settings.

The two settings have texts whose tokens are alike: same kind, same place, and texts that are
the same in the words of `w`. `Reader.Agree w S m m'` says that both readers end in the same
way and that their results are related by `S`. The readers of operands give only spans and
answers, so their results are equal (`Eq`). Expressions agree up to their outline, which is
the tree with every text replaced by what `w` makes of it.

Where a text is cut out of the source, the twin settings give texts of the same outline
(`verbatimFrom_agrees`); where a value is decoded, alike tokens give values of the same outline
(`chars_congr`).
-/
import SqlMarkers.Proofs.Agreement

namespace SqlMarkers.Reader

variable {w : String → String} {env env' : Setting} {inner inner' : Inner}

/-! ## Operands -/

/-- Both runs pass the same parentheses. A nested query is attached to both scopes, and the two
queries have the same outline. -/
theorem parentheses_agrees (hin : inner.Agree w inner') :
    Reader.Agree w Eq (parentheses inner) (parentheses inner') := by
  refine (acceptSymbol_agrees _).bind fun opening opening' hopening => ?_
  rw [hopening.span]
  refine repeating_agrees (B := Eq) ?_ rfl
  rintro depth _ rfl
  split
  · refine lastEnd_agrees.bind ?_
    rintro stop _ rfl
    exact .pure (.stop rfl)
  · refine current_agrees.bind fun t t' ht => ?_
    rw [ht.kind]
    split
    · exact failAt_agrees _ _
    · refine (up_agrees _).bind ?_
      rintro depth _ rfl
      exact next_agrees.bind fun _ _ _ => .pure (.again rfl)
    · refine (down_agrees _).bind ?_
      rintro depth _ rfl
      exact next_agrees.bind fun _ _ _ => .pure (.again rfl)
    · refine hin.embed.bind fun q q' hq => ?_
      have hattach : Reader.Agree w Eq
          (modifyDraft fun d => { d with subqueries := d.subqueries ++ [q] })
          (modifyDraft fun d => { d with subqueries := d.subqueries ++ [q'] }) := by
        exact modifyDraft_agrees fun d d' hparam hsub => ⟨hparam, Same.snoc hsub hq⟩
      exact hattach.bind fun _ _ _ => .pure (.again rfl)
    · exact consume_agrees.bind fun _ _ _ => .pure (.again rfl)

/-- Both runs count the same nested `CASE`s and stop at the same `END`. -/
theorem caseBlock_agrees (hin : inner.Agree w inner') :
    Reader.Agree w Eq (caseBlock inner) (caseBlock inner') := by
  refine (acceptKeyword_agrees _).bind fun opening opening' hopening => ?_
  refine repeating_agrees (B := Eq) ?_ rfl
  rintro depth _ rfl
  split
  · exact .pure (.stop rfl)
  · refine current_agrees.bind fun t t' ht => ?_
    rw [ht.kind, hopening.span]
    split
    · exact failAt_agrees _ _
    · exact (parentheses_agrees hin).bind fun _ _ _ => .pure (.again rfl)
    · refine (up_agrees _).bind ?_
      rintro depth _ rfl
      exact next_agrees.bind fun _ _ _ => .pure (.again rfl)
    · refine (down_agrees _).bind ?_
      rintro depth _ rfl
      exact next_agrees.bind fun _ _ _ => .pure (.again rfl)
    · exact consume_agrees.bind fun _ _ _ => .pure (.again rfl)

/-- Whether a call follows is told by the kinds of two tokens. -/
theorem atCall_agrees : Reader.Agree w Eq atCall atCall := by
  refine current_agrees.bind fun t t' ht => ?_
  simp only [ht.isName, ht.isKeyword]
  split
  · exact peek_agrees.bind fun _ _ hu => .pure (hu.isSymbol _)
  · exact .pure rfl

theorem signs_agrees : Reader.Agree w Eq signs signs := by
  refine repeating_agrees (B := Eq) ?_ rfl
  rintro _ _ rfl
  refine current_agrees.bind fun t t' ht => ?_
  rw [ht.kind]
  split
  · exact next_agrees.bind fun _ _ _ => .pure (.again rfl)
  · exact .pure (.stop rfl)

/-- An operand. Behind `INTERVAL` it is read one level down, then a unit is passed if one is there. -/
theorem operand_agrees (hin : inner.Agree w inner') :
    Reader.Agree w Eq (operand inner) (operand inner') := by
  have hparen : Reader.Agree w Eq (do let _ ← parentheses inner) (do let _ ← parentheses inner') :=
    (parentheses_agrees hin).bind fun _ _ _ => .pure rfl
  refine signs_agrees.bind fun _ _ _ => current_agrees.bind fun t t' ht => ?_
  rw [ht.kind]
  split
  · exact hparen
  · exact caseBlock_agrees hin
  · exact next_agrees.bind fun _ _ _ => hparen
  · refine next_agrees.bind fun _ _ _ => hin.operand.bind fun _ _ _ => ?_
    refine current_agrees.bind fun u u' hu => ?_
    rw [hu.isName, hu.span]
    split
    · exact next_agrees.bind fun _ _ _ => recordPassage_agrees _ _
    · exact .pure rfl
  · refine atCall_agrees.bind ?_
    rintro call _ rfl
    split
    · exact next_agrees.bind fun _ _ _ => hparen
    · split
      · exact consume_agrees
      · exact failExpected_agrees _

/-- Both loops take the same rounds, since a round depends on the kind of a token only. -/
theorem continuation_agrees (hin : inner.Agree w inner') :
    Reader.Agree w Eq (continuation inner) (continuation inner') := by
  refine repeating_agrees (B := Eq) ?_ rfl
  rintro found _ rfl
  have hoperand : Reader.Agree w (Round.Alike Eq Eq)
      (do next; operand inner; return .again true : Reader (Round Bool Bool))
      (do next; operand inner'; return .again true) :=
    next_agrees.bind fun _ _ _ => (operand_agrees hin).bind fun _ _ _ => .pure (.again rfl)
  refine current_agrees.bind fun t t' ht => ?_
  rw [ht.kind]
  split
  · exact (parentheses_agrees hin).bind fun _ _ _ => .pure (.again rfl)
  · refine next_agrees.bind fun _ _ _ => current_agrees.bind fun u u' hu => ?_
    rw [hu.isName, hu.isSymbol, hu.isAnyKeyword]
    split
    · exact consume_agrees.bind fun _ _ _ => .pure (.again rfl)
    · exact failExpected_agrees _
  · split
    · exact hoperand
    · exact .pure (.stop rfl)
  · exact hoperand
  · exact hoperand
  · exact .pure (.stop rfl)

/-! ## Expressions -/

/-- The value of a string, or the empty text, in the words of `w`. -/
theorem chars_congr {t t' : Token} (h : env.Twin w env') (ht : t.Alike w t') :
    w ((t.chars? env.dialect.features.backslashEscapes).getD "") =
      w ((t'.chars? env'.dialect.features.backslashEscapes).getD "") := by
  have hchars := ht.chars env'.dialect.features.backslashEscapes
  rw [h.dialect]
  revert hchars
  cases t.chars? _ <;> cases t'.chars? _ <;> intro hchars
  · rfl
  · cases hchars
  · cases hchars
  · exact Option.some.inj hchars

/-- A leaf that goes on is kept as text from its start on, and the leaf is dropped in both runs. -/
theorem leafOr_agrees (h : env.Twin w env') (hin : inner.Agree w inner') (start : Nat)
    {leaf leaf' : Expr} (hleaf : leaf.outline w = leaf'.outline w) :
    Reader.Agree w (Same (Expr.outline w)) (leafOr env inner start leaf)
      (leafOr env' inner' start leaf') := by
  refine (continuation_agrees hin).bind ?_
  rintro goesOn _ rfl
  split
  · exact verbatimFrom_agrees h _
  · exact .pure hleaf

/-- The member behind an owner may be `*`, a name or any keyword. The owner is noted in both
scopes before the member is looked at. -/
theorem namedExpression_agrees (h : env.Twin w env') (hin : inner.Agree w inner') :
    Reader.Agree w (Same (Expr.outline w)) (namedExpression env inner)
      (namedExpression env' inner') := by
  refine current_agrees.bind fun t t' ht => next_agrees.bind fun _ _ _ => ?_
  refine (nameOf_agrees ht).bind fun owner owner' howner => ?_
  refine (atSymbol_agrees _).bind ?_
  rintro dot _ rfl
  rw [ht.span]
  split
  · refine (noteOwner_agrees ht).bind fun _ _ _ => next_agrees.bind fun _ _ _ => ?_
    refine current_agrees.bind fun u u' hu => ?_
    extract_lets rest rest'
    have hrest : ∀ column column', Same w column column' →
        Reader.Agree w (Same (Expr.outline w)) (rest column) (rest' column') := by
      intro column column' hcolumn
      simp only [rest, rest', hu.span]
      refine next_agrees.bind fun _ _ _ => (recordPassage_agrees _ _).bind fun _ _ _ => ?_
      refine lastEnd_agrees.bind ?_
      rintro stop _ rfl
      refine leafOr_agrees h hin _ ?_
      simp only [Expr.outline, Ident.outline, howner.eq, hcolumn.eq]
    rw [hu.isSymbol, hu.kind, hu.isAnyKeyword]
    split
    · exact hrest _ _ rfl
    · split
      · exact (nameOf_agrees hu).bind hrest
      · exact (failExpected_agrees _).bind hrest
  · refine leafOr_agrees h hin _ ?_
    simp only [Expr.outline, Ident.outline, howner.eq]

/-- The kind of the first token decides which expression is read. -/
theorem expression_agrees (h : env.Twin w env') (hin : inner.Agree w inner') :
    Reader.Agree w (Same (Expr.outline w)) (expression env inner) (expression env' inner') := by
  refine current_agrees.bind fun t t' ht => ?_
  rw [ht.kind]
  split
  · refine next_agrees.bind fun _ _ _ => nextParameter_agrees.bind ?_
    rintro index _ rfl
    rw [ht.span]
    exact leafOr_agrees h hin _ rfl
  -- Integers, in both notations.
  iterate 2
    · refine next_agrees.bind fun _ _ _ => ?_
      rw [ht.integer, ht.span]
      split
      · exact leafOr_agrees h hin _ rfl
      · exact failAt_agrees _ _
  · refine next_agrees.bind fun _ _ _ => ?_
    rw [ht.real, ht.span]
    split
    · exact leafOr_agrees h hin _ rfl
    · exact failAt_agrees _ _
  · refine next_agrees.bind fun _ _ _ => ?_
    rw [ht.span]
    refine leafOr_agrees h hin _ ?_
    simp only [Expr.outline, ht.national, chars_congr h ht]
  · extract_lets start rest start' rest'
    have hrest : ∀ composite composite' : Bool, composite = composite' →
        Reader.Agree w (Same (Expr.outline w)) (rest composite) (rest' composite') := by
      rintro composite _ rfl
      simp only [rest, rest', start, start', ht.span]
      split
      · exact (operand_agrees hin).bind fun _ _ _ => (continuation_agrees hin).bind fun _ _ _ =>
          verbatimFrom_agrees h _
      · exact namedExpression_agrees h hin
    rw [ht.isName]
    split
    · exact atCall_agrees.bind hrest
    · exact hrest true true rfl

/-! ## Aliases -/

theorem aliasOf_agrees (h : env.Twin w env') {t t' : Token} (ht : t.Alike w t') :
    Reader.Agree w (Same w) (aliasOf env t) (aliasOf env' t') := by
  rw [aliasOf, ht.kind, aliasOf]
  split
  · exact .pure (chars_congr h ht)
  · exact nameOf_agrees ht

/-- Which words are no alias depends on their kind, and on whether `AS` stands in front of
them. -/
theorem optionalAlias_agrees (h : env.Twin w env') :
    Reader.Agree w (Same (Option.map w)) (optionalAlias env) (optionalAlias env') := by
  refine (skipKeyword_agrees _).bind ?_
  rintro marked _ rfl
  refine current_agrees.bind fun t t' ht => ?_
  extract_lets rest rest'
  have hrest : ∀ taken taken' : Bool, taken = taken' →
      Reader.Agree w (Same (Option.map w)) (rest taken) (rest' taken') := by
    rintro taken _ rfl
    simp only [rest, rest']
    split
    · refine next_agrees.bind fun _ _ _ => (aliasOf_agrees h ht).bind fun x x' hx => .pure ?_
      exact congrArg some hx
    · exact .pure rfl
  rw [ht.kind]
  split
  · split
    · exact hrest false false rfl
    · exact (failExpected_agrees _).bind hrest
    · exact hrest true true rfl
  · split
    · exact hrest true true rfl
    · exact hrest true true rfl
    · exact hrest (aliasKeywords.contains _) _ rfl
    · exact hrest false false rfl

end SqlMarkers.Reader
