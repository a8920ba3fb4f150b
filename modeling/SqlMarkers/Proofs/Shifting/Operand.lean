/-
SqlMarkers.Proofs.Shifting.Operand — operands, expressions and aliases further on in a text.

Operands are passed, not kept, so their readers give nothing that could move (`Slides n id`);
the nested queries in them are put into the scope, moved as a whole. Expressions are trees:
their spans move, and the text of a composite one is cut out again further on.

Loops are compared round by round (`Follows.repeating`). A round is settled by the token that
both runs stand at: a moved token has the kind and the text of the token.
-/
import SqlMarkers.Proofs.Shifting

namespace SqlMarkers.Reader

variable {n : Nat} {env env' : Setting} {inner inner' : Inner}

/-! ## Operands -/

/-- A pair of parentheses ends behind a token, so behind the start of the text. -/
theorem parentheses_follows (hin : inner.Slides n inner') :
    Reader.Follows n (fun s s' => s' = s.shift n ∧ 0 < s.stop) (parentheses inner)
      (parentheses inner') := by
  refine (acceptSymbol_slides _).follows fun opening => ?_
  refine Follows.repeating (k := id) (fun depth => ?_) 1
  dsimp only [id]
  split
  · refine Agree.bind lastEnd_follows ?_
    rintro stop _ ⟨rfl, hstop⟩
    exact Agree.pure (.stop ⟨rfl, hstop⟩)
  · refine current_slides.follows fun t => ?_
    rw [Token.shift_kind]
    split
    · exact failAt_follows _ _
    · exact (up_slides _).follows fun _ => next_slides.follows fun _ => Agree.pure (.again rfl)
    · exact (down_slides _).follows fun _ => next_slides.follows fun _ => Agree.pure (.again rfl)
    -- A nested query: its tree is moved, and so is the entry that it leaves in the scope.
    · refine hin.embed.follows fun q => ?_
      have hattach : Reader.Slides n id
          (modifyDraft fun d => { d with subqueries := d.subqueries ++ [q] })
          (modifyDraft fun d => { d with subqueries := d.subqueries ++ [q.shift n] }) := by
        refine modifyDraft_slides fun d => ?_
        simp only [Draft.shift, List.map_append, List.map_singleton]
      exact hattach.follows fun _ => Agree.pure (.again rfl)
    · exact consume_slides.follows fun _ => Agree.pure (.again rfl)

/-- The span of a pair of parentheses is moved. -/
theorem parentheses_slides (hin : inner.Slides n inner') :
    Reader.Slides n (Span.shift n) (parentheses inner) (parentheses inner') :=
  (parentheses_follows hin).imp fun _ _ h => h.1

/-- The depth in a `CASE` block counts nested `CASE`s; it is the same in both places, and so is
the token at which it comes back to zero. -/
theorem caseBlock_slides (hin : inner.Slides n inner') :
    Reader.Slides n id (caseBlock inner) (caseBlock inner') := by
  refine (acceptKeyword_slides _).bind fun opening => ?_
  refine Follows.repeating (k := id) (fun depth => ?_) 1
  dsimp only [id]
  split
  · exact Agree.pure (.stop rfl)
  · refine current_slides.follows fun t => ?_
    rw [Token.shift_kind]
    split
    · exact failAt_follows _ _
    · exact (parentheses_slides hin).follows fun _ => Agree.pure (.again rfl)
    · exact (up_slides _).follows fun _ => next_slides.follows fun _ => Agree.pure (.again rfl)
    · exact (down_slides _).follows fun _ => next_slides.follows fun _ => Agree.pure (.again rfl)
    · exact consume_slides.follows fun _ => Agree.pure (.again rfl)

theorem atCall_slides : Reader.Slides n id atCall atCall := by
  refine current_slides.bind fun t => ?_
  extract_lets callable callable'
  rw [show callable' = callable from rfl]
  split
  · exact peek_slides.bind fun _ => .pure rfl
  · exact .pure rfl

theorem signs_slides : Reader.Slides n id signs signs := by
  refine Follows.repeating (k := id) (fun _ => ?_) ()
  refine current_slides.follows fun t => ?_
  rw [Token.shift_kind]
  split
  · exact next_slides.follows fun _ => Agree.pure (.again rfl)
  · exact Agree.pure (.stop rfl)

/-- An operand. Behind `INTERVAL` it is read one level down, and the passage of its unit is
moved with the token. -/
theorem operand_slides (hin : inner.Slides n inner') :
    Reader.Slides n id (operand inner) (operand inner') := by
  have hparen : Reader.Slides n id (do let _ ← parentheses inner)
      (do let _ ← parentheses inner') := (parentheses_slides hin).bind fun _ => .pure rfl
  refine signs_slides.bind fun _ => current_slides.bind fun t => ?_
  rw [Token.shift_kind]
  split
  · exact hparen
  · exact caseBlock_slides hin
  · exact next_slides.bind fun _ => hparen
  · refine next_slides.bind fun _ => hin.operand.bind fun _ => current_slides.bind fun u => ?_
    rw [Token.shift_isName]
    split
    · exact next_slides.bind fun _ => recordPassage_slides _ _
    · exact .pure rfl
  · refine atCall_slides.bindSame fun call => ?_
    split
    · exact next_slides.bind fun _ => hparen
    · split
      · exact consume_slides
      · exact failExpected_slides _

/-- What goes on behind an operand. It is only told whether anything did. -/
theorem continuation_slides (hin : inner.Slides n inner') :
    Reader.Slides n id (continuation inner) (continuation inner') := by
  refine Follows.repeating (k := id) (fun found => ?_) false
  have hoperand : Reader.Follows n
      (Round.Alike (fun b b' => b' = id b) (fun b b' => b' = id b))
      (do next; operand inner; return .again true : Reader (Round Bool Bool))
      (do next; operand inner'; return .again true) :=
    next_slides.follows fun _ => (operand_slides hin).follows fun _ => Agree.pure (.again rfl)
  refine current_slides.follows fun t => ?_
  rw [Token.shift_kind]
  split
  · exact (parentheses_slides hin).follows fun _ => Agree.pure (.again rfl)
  · refine next_slides.follows fun _ => current_slides.follows fun u => ?_
    rw [Token.shift_isName, Token.shift_isSymbol, Token.shift_isAnyKeyword]
    split
    · exact consume_slides.follows fun _ => Agree.pure (.again rfl)
    · exact failExpected_follows _
  · split
    · exact hoperand
    · exact Agree.pure (.stop rfl)
  · exact hoperand
  · exact hoperand
  · exact Agree.pure (.stop rfl)

/-! ## Expressions -/

/-- A leaf that goes on is kept as text instead, from the moved start on, so the leaf itself is
needed for the other case only. -/
theorem leafOr_slides (h : env.Behind n env') (hin : inner.Slides n inner') (start : Nat)
    (leaf : Expr) :
    Reader.Slides n (Expr.shift n) (leafOr env inner start leaf)
      (leafOr env' inner' (start + n) (leaf.shift n)) := by
  refine (continuation_slides hin).bindSame fun goesOn => ?_
  split
  · exact verbatimFrom_slides h _
  · exact .pure rfl

/-- A name, an owner with a member, or something that begins with one of them. The owner is noted
for the scope, in both places with its own span. -/
theorem namedExpression_slides (h : env.Behind n env') (hin : inner.Slides n inner') :
    Reader.Slides n (Expr.shift n) (namedExpression env inner) (namedExpression env' inner') := by
  refine current_slides.bind fun t => next_slides.bind fun _ => ?_
  refine (nameOf_slides t).bindSame fun owner => (atSymbol_slides _).bindSame fun dot => ?_
  split
  · refine (noteOwner_slides t).bind fun _ => next_slides.bind fun _ => current_slides.bind fun u => ?_
    extract_lets rest rest'
    have hrest : ∀ column, Reader.Slides n (Expr.shift n) (rest column) (rest' column) :=
      fun column => next_slides.bind fun _ => (recordPassage_slides _ _).bind fun _ =>
        lastEnd_slides.bind fun stop => leafOr_slides h hin _ _
    rw [Token.shift_isSymbol, Token.shift_kind, Token.shift_isAnyKeyword]
    split
    · exact hrest _
    · split
      · exact (nameOf_slides u).bindSame hrest
      · exact (failExpected_slides _).bindSame hrest
  · exact leafOr_slides h hin _ (.name ⟨owner, t.span⟩)

/-- An expression: a placeholder, a literal, a name or text that is kept. -/
theorem expression_slides (h : env.Behind n env') (hin : inner.Slides n inner') :
    Reader.Slides n (Expr.shift n) (expression env inner) (expression env' inner') := by
  refine current_slides.bind fun t => ?_
  rw [Token.shift_kind]
  split
  · exact next_slides.bind fun _ => nextParameter_slides.bind fun index =>
      leafOr_slides h hin _ (.placeholder index t.span)
  -- Integers, in both notations.
  iterate 2
    · refine next_slides.bind fun _ => ?_
      rw [Token.shift_integer?]
      split
      · exact leafOr_slides h hin _ (.number _ t.span)
      · exact failAt_slides _ _
  · refine next_slides.bind fun _ => ?_
    rw [Token.shift_real?]
    split
    · exact leafOr_slides h hin _ (.number _ t.span)
    · exact failAt_slides _ _
  · refine next_slides.bind fun _ => ?_
    rw [h.dialect]
    exact leafOr_slides h hin _ (.text _ _ t.span)
  · extract_lets start rest start' rest'
    have hrest : ∀ composite, Reader.Slides n (Expr.shift n) (rest composite) (rest' composite) := by
      intro composite
      dsimp only [rest, rest']
      split
      · exact (operand_slides hin).bind fun _ => (continuation_slides hin).bind fun _ =>
          verbatimFrom_slides h _
      · exact namedExpression_slides h hin
    rw [Token.shift_isName]
    split
    · exact atCall_slides.bindSame hrest
    · exact hrest true

/-! ## Aliases -/

/-- An alias is a name or a string, and is kept without a span. -/
theorem aliasOf_slides (h : env.Behind n env') (t : Token) :
    Reader.Slides n id (aliasOf env t) (aliasOf env' (t.shift n)) := by
  rw [aliasOf, aliasOf, Token.shift_kind, Token.shift_chars?, h.dialect]
  split
  · exact .pure rfl
  · exact nameOf_slides t

theorem optionalAlias_slides (h : env.Behind n env') :
    Reader.Slides n id (optionalAlias env) (optionalAlias env') := by
  refine (skipKeyword_slides _).bindSame fun marked => current_slides.bind fun t => ?_
  extract_lets rest rest'
  have hrest : ∀ taken, Reader.Slides n id (rest taken) (rest' taken) := by
    intro taken
    dsimp only [rest, rest']
    split
    · exact next_slides.bind fun _ => (aliasOf_slides h t).bind fun _ => .pure rfl
    · exact .pure rfl
  rw [Token.shift_kind]
  split
  · split
    · exact hrest false
    · exact (failExpected_slides _).bindSame hrest
    · exact hrest true
  · split
    · exact hrest true
    · exact hrest true
    · exact hrest _
    · exact hrest false

end SqlMarkers.Reader
