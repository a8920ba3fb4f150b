/-
SqlMarkers.Proofs.Nesting.Operand — operands, expressions and aliases under a nesting
limit.

The readers are compared over two towers of nested readers: `Capped cap room P m m'` says
that `m` and `m'` do the same as far as `cap` allows, that what they attach to the scope is
at most `room` high, and that `P` holds of the result. A reader that calls no nested one is
compared with itself (`Level`).

The only trees these readers build out of nested ones are the queries they attach to the
scope, so no lemma of this module has to bound the height of its result.
-/
import SqlMarkers.Proofs.Nesting

namespace SqlMarkers.Reader

variable {cap : Cap} {n room : Nat} {env : Setting} {inner inner' : Inner}

/-! ## Operands -/

/-- Parentheses are the place where queries are met inside expressions. Such a query is read by
the nested reader and attached, with a height that `room` admits. -/
theorem parentheses_capped (hin : inner.Capped cap n room inner') :
    Capped cap room (fun _ => True) (parentheses inner) (parentheses inner') := by
  refine (acceptSymbol_level _).bind fun opening _ => ?_
  refine Capped.repeating (fun _ => True) (fun depth _ => ?_) trivial
  split
  · exact lastEnd_level.bind fun _ _ => .pure trivial
  · refine current_level.bind fun t _ => ?_
    split
    · exact failAt_capped (by simp)
    · exact (up_level _).bind fun _ _ => next_level.bind fun _ _ => .pure trivial
    · exact (down_level _).bind fun _ _ => next_level.bind fun _ _ => .pure trivial
    · exact attach_capped hin (Round.again depth) trivial
    · exact consume_level.bind fun _ _ => .pure trivial

/-- A `CASE` block nests through the parentheses in it only. -/
theorem caseBlock_capped (hin : inner.Capped cap n room inner') :
    Capped cap room (fun _ => True) (caseBlock inner) (caseBlock inner') := by
  refine (acceptKeyword_level _).bind fun opening _ => ?_
  refine Capped.repeating (fun _ => True) (fun depth _ => ?_) trivial
  split
  · exact .pure trivial
  · refine current_level.bind fun t _ => ?_
    split
    · exact failAt_capped (by simp)
    · exact (parentheses_capped hin).bind fun _ _ => .pure trivial
    · exact (up_level _).bind fun _ _ => next_level.bind fun _ _ => .pure trivial
    · exact (down_level _).bind fun _ _ => next_level.bind fun _ _ => .pure trivial
    · exact consume_level.bind fun _ _ => .pure trivial

/-- Whether a call follows is told by two tokens. -/
theorem atCall_level : Level cap room atCall := by
  refine current_level.bind fun t _ => ?_
  dsimp only
  split
  · exact peek_level.bind fun _ _ => .pure trivial
  · exact .pure trivial

theorem signs_level : Level cap room signs := by
  refine Capped.repeating (fun _ => True) (fun _ _ => ?_) trivial
  refine current_level.bind fun t _ => ?_
  split
  · exact next_level.bind fun _ _ => .pure trivial
  · exact .pure trivial

/-- Of all operands, that of `INTERVAL` is the only one that is read one level deeper by a reader
of its own. -/
theorem operand_capped (hin : inner.Capped cap n room inner') :
    Capped cap room (fun _ => True) (operand inner) (operand inner') := by
  have hparen : Capped cap room (fun _ => True) (do let _ ← parentheses inner)
      (do let _ ← parentheses inner') :=
    (parentheses_capped hin).bind fun _ _ => .pure trivial
  refine signs_level.bind fun _ _ => current_level.bind fun t _ => ?_
  split
  · exact hparen
  · exact caseBlock_capped hin
  · exact next_level.bind fun _ _ => hparen
  · refine next_level.bind fun _ _ => hin.operand.bind fun _ _ => ?_
    refine current_level.bind fun unit _ => ?_
    split
    · exact next_level.bind fun _ _ => recordPassage_level _ _
    · exact .pure trivial
  · refine atCall_level.bind fun call _ => ?_
    split
    · exact next_level.bind fun _ _ => hparen
    · split
      · exact consume_level
      · exact failExpected_capped _

/-- Right operands are on the level of the left one: a chain of operators does not nest, however
long it is. -/
theorem continuation_capped (hin : inner.Capped cap n room inner') :
    Capped cap room (fun _ => True) (continuation inner) (continuation inner') := by
  refine Capped.repeating (fun _ => True) (fun found _ => ?_) trivial
  have hoperand : Capped cap room (Round.Holds (fun _ => True) fun _ => True)
      (do next; operand inner; return .again true : Reader (Round Bool Bool))
      (do next; operand inner'; return .again true) :=
    next_level.bind fun _ _ => (operand_capped hin).bind fun _ _ => .pure trivial
  refine current_level.bind fun t _ => ?_
  split
  · exact (parentheses_capped hin).bind fun _ _ => .pure trivial
  · refine next_level.bind fun _ _ => current_level.bind fun u _ => ?_
    split
    · exact consume_level.bind fun _ _ => .pure trivial
    · exact failExpected_capped _
  · split
    · exact hoperand
    · exact .pure trivial
  · exact hoperand
  · exact hoperand
  · exact .pure trivial

/-! ## Expressions -/

/-- A leaf stays as it is, or is replaced by source text; no tree comes of it in either case. -/
theorem leafOr_capped (hin : inner.Capped cap n room inner') (start : Nat) (leaf : Expr) :
    Capped cap room (fun _ => True) (leafOr env inner start leaf)
      (leafOr env inner' start leaf) := by
  refine (continuation_capped hin).bind fun goesOn _ => ?_
  split
  · exact verbatimFrom_level env start
  · exact .pure trivial

/-- A name, its member and what continues them. -/
theorem namedExpression_capped (hin : inner.Capped cap n room inner') :
    Capped cap room (fun _ => True) (namedExpression env inner) (namedExpression env inner') := by
  refine current_level.bind fun t _ => next_level.bind fun _ _ => ?_
  refine (nameOf_level t).bind fun owner _ => (atSymbol_level _).bind fun dot _ => ?_
  split
  · refine (noteOwner_level t).bind fun _ _ => next_level.bind fun _ _ => ?_
    refine current_level.bind fun u _ => ?_
    extract_lets rest rest'
    -- What follows the member is the same for `*`, for a name and for a keyword.
    have hrest : ∀ column, True → Capped cap room (fun _ => True) (rest column) (rest' column) :=
      fun column _ => next_level.bind fun _ _ => (recordPassage_level _ _).bind fun _ _ =>
        lastEnd_level.bind fun _ _ => leafOr_capped hin _ _
    split
    · exact hrest "*" trivial
    · split
      · exact (nameOf_level u).bind hrest
      · exact (failExpected_capped _).bind hrest
  · exact leafOr_capped hin _ _

/-- An expression nests where an operand of it does. The heights of trees are those of queries
and conditions, so there is nothing to show of the result. -/
theorem expression_capped (hin : inner.Capped cap n room inner') :
    Capped cap room (fun _ => True) (expression env inner) (expression env inner') := by
  refine current_level.bind fun t _ => ?_
  split
  · exact next_level.bind fun _ _ => nextParameter_level.bind fun _ _ => leafOr_capped hin _ _
  -- Integers, in both notations.
  iterate 2
    · refine next_level.bind fun _ _ => ?_
      split
      · exact leafOr_capped hin _ _
      · exact failAt_capped (by simp)
  · refine next_level.bind fun _ _ => ?_
    split
    · exact leafOr_capped hin _ _
    · exact failAt_capped (by simp)
  · exact next_level.bind fun _ _ => leafOr_capped hin _ _
  · extract_lets start rest rest'
    -- A name is followed by a look whether it is called; anything else is composite anyway.
    have hrest : ∀ composite, True →
        Capped cap room (fun _ => True) (rest composite) (rest' composite) := by
      intro composite _
      simp only [rest, rest']
      split
      · exact (operand_capped hin).bind fun _ _ => (continuation_capped hin).bind fun _ _ =>
          verbatimFrom_level env _
      · exact namedExpression_capped hin
    split
    · exact atCall_level.bind hrest
    · exact hrest true trivial

/-! ## Aliases -/

/-- An alias is one token. -/
theorem optionalAlias_level (env : Setting) : Level cap room (optionalAlias env) := by
  refine (skipKeyword_level _).bind fun marked _ => current_level.bind fun t _ => ?_
  extract_lets rest
  have hrest : ∀ taken, True → Level cap room (rest taken) := by
    intro taken _
    simp only [rest]
    split
    · refine next_level.bind fun _ _ => ?_
      unfold aliasOf
      split
      · exact .pure trivial
      · exact (nameOf_level t).bind fun _ _ => .pure trivial
    · exact .pure trivial
  split
  · split
    · exact hrest false trivial
    · exact (failExpected_capped _).bind hrest
    · exact hrest true trivial
  · split
    · exact hrest true trivial
    · exact hrest true trivial
    · exact hrest (aliasKeywords.contains _) trivial
    · exact hrest false trivial

end SqlMarkers.Reader
