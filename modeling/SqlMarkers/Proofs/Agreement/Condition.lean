/-
SqlMarkers.Proofs.Agreement.Condition — predicates and lists of conditions in twin
settings.

The readers behind a first operand are given that operand, in both runs with the same outline.
They need no more of it: where the predicate is kept as text after all, only the start of the
operand counts, which the outline keeps (`span_of_outline`).

A group of conditions that is only tried is given up in both settings or in
neither: whether a fault ends the whole reading does not depend on its words
(`isRecoverable_outline`), and a reader that goes back stands where it stood.
-/
import SqlMarkers.Proofs.Agreement.Operand

namespace SqlMarkers.Reader

variable {w : String → String} {env env' : Setting} {inner inner' : Inner} {left left' : Expr}

/-! ## Behind the first operand -/

/-- An outline keeps the place of an expression. -/
theorem span_of_outline (h : left.outline w = left'.outline w) : left.span = left'.span := by
  rw [← left.outline_span (w := w), h, Expr.outline_span]

/-- `IN` with a query or a list of values, told apart by the word `SELECT`. -/
theorem membership_agrees (h : env.Twin w env') (hin : inner.Agree w inner')
    (hleft : left.outline w = left'.outline w) (negated : Bool) :
    Reader.Agree w (Same (Predicate.outline w)) (membership env inner left negated)
      (membership env' inner' left' negated) := by
  refine (acceptSymbol_agrees _).bind fun opening opening' hopening => ?_
  refine (atKeyword_agrees _).bind ?_
  rintro select _ rfl
  split
  · refine hin.embed.bind fun q q' hq => (close_agrees hopening).bind fun _ _ _ => .pure ?_
    simp only [Same, Predicate.outline, hleft, hq.eq]
  · refine (commaSeparated_agrees (expression_agrees h hin)).bind fun es es' hes => ?_
    refine (close_agrees hopening).bind fun _ _ _ => .pure ?_
    simp only [Same, Predicate.outline, hleft, hes.eq]

/-- What is compared with: behind `ALL` the parentheses are kept as text. -/
theorem comparand_agrees (h : env.Twin w env') (hin : inner.Agree w inner') :
    Reader.Agree w (Same (Expr.outline w)) (comparand env inner) (comparand env' inner') := by
  refine here_agrees.bind ?_
  rintro start _ rfl
  refine peekBehind_agrees (fun t t' ht => ht.isSymbol _) fun all => ?_
  split
  · exact next_agrees.bind fun _ _ _ => (parentheses_agrees hin).bind fun _ _ _ =>
      verbatimFrom_agrees h _
  · exact expression_agrees h hin

/-- `IS` with anything but `NULL` is no predicate of its own: the whole is kept as text, from the
start of the operand in front of it. -/
theorem nullTest_agrees (h : env.Twin w env') (hin : inner.Agree w inner')
    (hleft : left.outline w = left'.outline w) :
    Reader.Agree w (Same (Predicate.outline w)) (nullTest env inner left)
      (nullTest env' inner' left') := by
  refine (skipKeyword_agrees _).bind ?_
  rintro negated _ rfl
  refine (skipKeyword_agrees _).bind ?_
  rintro null _ rfl
  split
  · refine .pure ?_
    simp only [Same, Predicate.outline, hleft]
  · rw [span_of_outline hleft]
    refine (operand_agrees hin).bind fun _ _ _ => (verbatimFrom_agrees h _).bind fun e e' he => ?_
    exact .pure (congrArg Predicate.bare he)

/-- `IN`, `BETWEEN`, `LIKE` and what SQL dialects have besides, behind an optional `NOT`. A `NOT`
with none of these behind it is a fault in both runs. -/
theorem matching_agrees (h : env.Twin w env') (hin : inner.Agree w inner')
    (hleft : left.outline w = left'.outline w) :
    Reader.Agree w (Same (Predicate.outline w)) (matching env inner left)
      (matching env' inner' left') := by
  refine (skipKeyword_agrees _).bind ?_
  rintro negated _ rfl
  refine current_agrees.bind fun t t' ht => ?_
  rw [ht.kind]
  split
  · exact next_agrees.bind fun _ _ _ => membership_agrees h hin hleft negated
  · refine next_agrees.bind fun _ _ _ => (expression_agrees h hin).bind fun low low' hlow => ?_
    refine (acceptKeyword_agrees _).bind fun _ _ _ => ?_
    refine (expression_agrees h hin).bind fun high high' hhigh => .pure ?_
    simp only [Same, Predicate.outline, hleft, hlow.eq, hhigh.eq]
  · refine next_agrees.bind fun _ _ _ => ?_
    refine (expression_agrees h hin).bind fun pattern pattern' hpattern => ?_
    refine (skipKeyword_agrees _).bind ?_
    rintro escaped _ rfl
    split
    · refine (expression_agrees h hin).bind fun escape escape' hescape => .pure ?_
      simp only [Same, Predicate.outline, hleft, hpattern.eq, Option.map_some, hescape.eq]
    · refine .pure ?_
      simp only [Same, Predicate.outline, hleft, hpattern.eq, Option.map_none]
  · rw [isRegexp_congr h ht, span_of_outline hleft]
    split
    · refine next_agrees.bind fun _ _ _ => (expression_agrees h hin).bind fun _ _ _ => ?_
      refine (verbatimFrom_agrees h _).bind fun e e' he => ?_
      exact .pure (congrArg Predicate.bare he)
    · split
      · exact failExpected_agrees _
      · exact .pure (congrArg Predicate.bare hleft)

/-- A predicate that begins with an operand: the token behind it decides how it goes on. -/
theorem operandPredicate_agrees (h : env.Twin w env') (hin : inner.Agree w inner') :
    Reader.Agree w (Same (Predicate.outline w)) (operandPredicate env inner)
      (operandPredicate env' inner') := by
  refine (expression_agrees h hin).bind fun left left' hleft => ?_
  refine current_agrees.bind fun t t' ht => ?_
  rw [comparisonAt?, ht.kind, comparisonAt?, ht.isKeyword]
  split
  · refine next_agrees.bind fun _ _ _ => (comparand_agrees h hin).bind fun right right' hright => ?_
    refine .pure ?_
    simp only [Same, Predicate.outline, hleft.eq, hright.eq]
  · split
    · exact next_agrees.bind fun _ _ _ => nullTest_agrees h hin hleft
    · exact matching_agrees h hin hleft

/-! ## Groups -/

theorem operandGoesOn_agrees (h : env.Twin w env') :
    Reader.Agree w Eq (operandGoesOn env) (operandGoesOn env') := by
  refine current_agrees.bind fun t t' ht => ?_
  rw [ht.kind]
  split
  · exact .pure rfl
  · refine peek_agrees.bind fun u u' hu => .pure ?_
    rw [hu.isKeyword, hu.isKeyword, hu.isKeyword, isRegexp_congr h hu]
  · exact .pure rfl
  · exact .pure (isRegexp_congr h ht)

/-- Whether a fault ends the whole reading does not depend on its words. -/
theorem isRecoverable_outline (f : Fault) : (f.outline w).isRecoverable = f.isRecoverable := by
  cases f with
  | grammar offset cause => cases cause <;> rfl
  | _ => rfl

theorem attemptGroup_agrees (h : env.Twin w env') (hin : inner.Agree w inner') :
    Reader.Agree w (Same (Option.map (List.map (Condition.outline w)))) (attemptGroup env inner)
      (attemptGroup env' inner') := by
  intro r r' hr
  have hgroup := hin.group r r' hr
  unfold attemptGroup
  revert hgroup
  generalize inner.group r = x
  generalize inner'.group r' = x'
  rintro (⟨hresult, hstate⟩ | ⟨hfault, hstate⟩)
  · rename_i cs cs' s s'
    have hgoes := operandGoesOn_agrees h s s' hstate
    dsimp only
    revert hgoes
    generalize operandGoesOn env s = y
    generalize operandGoesOn env' s' = y'
    rintro (⟨rfl, hstate'⟩ | ⟨hfault, hstate'⟩)
    · rename_i goesOn _ _
      cases goesOn with
      | false => exact .ok (congrArg some hresult) hstate'
      | true => exact .ok rfl (hr.onLevel hstate'.nesting)
    · exact .error hfault hstate'
  · rename_i f f' _ _
    have hrecover : f.isRecoverable = f'.isRecoverable := by
      rw [← isRecoverable_outline (w := w) f, hfault, isRecoverable_outline]
    dsimp only
    rw [hrecover, hstate.nesting]
    split
    · exact .ok rfl (hr.onLevel hstate.nesting)
    · exact .error hfault hstate

theorem outline_negate (p : Predicate) : (negate p).outline w = negate (p.outline w) := by
  cases p with
  | existsIn negated q => cases negated <;> rfl
  | _ => rfl

theorem predicate_agrees (h : env.Twin w env') (hin : inner.Agree w inner') :
    Reader.Agree w (Same (Predicate.outline w)) (predicate env inner) (predicate env' inner') := by
  refine current_agrees.bind fun t t' ht => ?_
  rw [ht.kind]
  split
  · refine next_agrees.bind fun _ _ _ => hin.predicate.bind fun p p' hp => .pure ?_
    rw [Same, outline_negate, hp, outline_negate]
  · refine next_agrees.bind fun _ _ _ => (acceptSymbol_agrees _).bind fun o o' ho => ?_
    refine (atKeyword_agrees _).bind ?_
    rintro select _ rfl
    refine failUnless_agrees ?_
    refine hin.embed.bind fun q q' hq => (close_agrees ho).bind fun _ _ _ => .pure ?_
    simp only [Same, Predicate.outline, hq.eq]
  · refine peek_agrees.bind fun u u' hu => ?_
    rw [hu.isKeyword]
    split
    · exact operandPredicate_agrees h hin
    · refine (attemptGroup_agrees h hin).bind ?_
      rintro (_ | cs) (_ | cs') hcs
      · exact operandPredicate_agrees h hin
      · cases hcs
      · cases hcs
      · refine .pure ?_
        simp only [Same, Predicate.outline, Condition.outlines_eq_map]
        rw [Option.some.inj hcs]
  · exact operandPredicate_agrees h hin

/-! ## Lists of conditions -/

theorem conditions_agrees (h : env.Twin w env') (hin : inner.Agree w inner') :
    Reader.Agree w (Same (List.map (Condition.outline w))) (conditions env inner)
      (conditions env' inner') := by
  refine repeating_agrees (B := Same (Prod.map id (List.map (Condition.outline w)))) ?_ rfl
  rintro ⟨connector, done⟩ ⟨connector', done'⟩ hsame
  obtain ⟨hconnector, hdone⟩ := Prod.mk.inj hsame
  obtain rfl : connector = connector' := hconnector
  refine here_agrees.bind ?_
  rintro start _ rfl
  refine (predicate_agrees h hin).bind fun p p' hp => lastEnd_agrees.bind ?_
  rintro stop _ rfl
  have hcondition : Same (Condition.outline w) ⟨connector, p, ⟨start, stop⟩⟩
      ⟨connector, p', ⟨start, stop⟩⟩ := by
    simp only [Same, Condition.outline, hp.eq]
  have hsnoc := Same.snoc hdone hcondition
  refine current_agrees.bind fun t t' ht => ?_
  rw [ht.kind]
  split
  · exact next_agrees.bind fun _ _ _ => .pure (.again (Prod.ext rfl hsnoc))
  · exact .pure (.stop hsnoc)

theorem group_agrees (h : env.Twin w env') (hin : inner.Agree w inner') :
    Reader.Agree w (Same (List.map (Condition.outline w))) (group env inner) (group env' inner') :=
  (acceptSymbol_agrees _).bind fun _ _ _ => (conditions_agrees h hin).bind fun _ _ hcs =>
    (acceptSymbol_agrees _).bind fun _ _ _ => .pure hcs

theorem conditionClause_agrees (h : env.Twin w env') (hin : inner.Agree w inner') (k : Keyword) :
    Reader.Agree w (Same (Option.map (ConditionList.outline w))) (conditionClause env inner k)
      (conditionClause env' inner' k) := by
  refine (skipKeyword_agrees _).bind ?_
  rintro present _ rfl
  split
  · refine here_agrees.bind ?_
    rintro start _ rfl
    refine (conditions_agrees h hin).bind fun cs cs' hcs => lastEnd_agrees.bind ?_
    rintro stop _ rfl
    refine .pure ?_
    simp only [Same, Option.map_some, ConditionList.outline, Condition.outlines_eq_map, hcs.eq]
  · exact .pure rfl

end SqlMarkers.Reader
