/-
SqlMarkers.Proofs.Fence.Operand — operands, expressions and select items behind a fence.

Each of these readers does in its place what it does in a fenced reading of the text alone
(`Stage.Follows`), as long as the readers nested in it do (`Stage.Nested`). A reader decides by
the kinds and the words of tokens, which both readings see alike, so the two runs take the same
branch everywhere. The results differ in spans, in the indices of `?` and in texts, and no
reader decides by those; what it does decide by, such as whether an operand went on, is
stated as equal.
-/
import SqlMarkers.Proofs.Fence

namespace SqlMarkers

namespace Stage

open Reader

/-- The nested readers follow in their place, and a group that comes to the fence is not given
up. -/
structure Nested (s : Stage) (inner inner' : Inner) : Prop where
  query : s.Follows Any inner.query inner'.query
  operand : s.Follows Any inner.operand inner'.operand
  predicate : s.Follows Any inner.predicate inner'.predicate
  group : s.Follows Any inner.group inner'.group
  sources : s.Follows Any inner.sources inner'.sources
  lasting : ∀ {u f u'}, inner.group u = .error f u' → f.isLexical = true →
    u'.nesting.exhausted = true

variable {s : Stage} {inner inner' : Inner} {k : Nat} {u r : Reading} {α β : Type}

/-- A nested query has a scope of its own, which is none of the cursor. -/
theorem Nested.embed (hin : s.Nested inner inner') :
    s.Follows Any inner.embed inner'.embed := by
  intro k begun u r hr
  have hquery := hin.query k begun _ _ (hr.draft (Draft.startingAt u.draft.parameters)
    (Draft.startingAt r.draft.parameters))
  unfold Inner.embed
  revert hquery
  generalize inner.query _ = x
  generalize inner'.query _ = x'
  rintro (⟨-, hs⟩ | ⟨hfault, hlevel⟩ | hvoid | hunmet)
  · exact .ok trivial (hs.draft _ _)
  · exact .error hfault hlevel
  · exact .void hvoid
  · exact .unmet hunmet

section Operands

variable (hin : s.Nested inner inner')
include hin

/-! ## Operands -/

/-- Parentheses are counted alike, and a query begins in both runs or in none. -/
theorem parentheses_follows : s.Follows Any (parentheses inner) (parentheses inner') := by
  refine (acceptSymbol_follows _).andThen fun opening opening' => ?_
  refine .repeating (B := Eq) ?_ rfl
  rintro depth _ rfl
  split
  · exact lastEnd_follows.andThen fun _ _ => .pure (.stop trivial)
  · refine current_follows.bind fun t t' ht => ?_
    rw [ht.kind]
    split
    · exact failAt_follows _ _ _ _
    · exact (up_follows _).bindEq fun _ => again_follows rfl
    · exact (down_follows _).bindEq fun _ => again_follows rfl
    · exact hin.embed.andThen fun _ _ => (modifyDraft_follows _ _).andThen fun _ _ =>
        .pure (.again rfl)
    · exact consume_follows.andThen fun _ _ => .pure (.again rfl)

/-- An operator or a word and what stands in parentheses behind it. -/
theorem nextParentheses_follows :
    s.Follows Any (do next; let _ ← parentheses inner) (do next; let _ ← parentheses inner') :=
  next_follows.andThen fun _ _ => (parentheses_follows hin).andThen fun _ _ => .pure trivial

/-- Both runs stand equally deep in `CASE` blocks, so they come to the same `END`. -/
theorem caseBlock_follows : s.Follows Any (caseBlock inner) (caseBlock inner') := by
  refine (acceptKeyword_follows _).andThen fun opening opening' => ?_
  refine .repeating (B := Eq) ?_ rfl
  rintro depth _ rfl
  split
  · exact .pure (.stop trivial)
  · refine current_follows.bind fun t t' ht => ?_
    rw [ht.kind]
    split
    · exact failAt_follows _ _ _ _
    · exact (parentheses_follows hin).andThen fun _ _ => .pure (.again rfl)
    · exact (up_follows _).bindEq fun _ => again_follows rfl
    · exact (down_follows _).bindEq fun _ => again_follows rfl
    · exact consume_follows.andThen fun _ _ => .pure (.again rfl)

omit hin in
/-- A call is seen from two tokens. If the second one is behind the fence, the first run ends. -/
theorem atCall_follows : s.Follows Eq atCall atCall := by
  refine current_follows.bind fun t t' ht => ?_
  simp only [ht.isName, ht.isKeyword]
  split
  · exact peek_follows.bind fun _ _ ht => .pure (ht.isSymbol _).symm
  · exact .pure rfl

omit hin in
/-- Signs are read up to the first token that is none. -/
theorem signs_follows : s.Follows Any signs signs := by
  refine .repeating (B := Any) (fun _ _ _ => ?_) trivial
  refine current_follows.bind fun t t' ht => ?_
  rw [ht.kind]
  split
  · exact again_follows trivial
  · exact .pure (.stop trivial)

/-- The kind of an operand is seen from its first tokens. Behind `INTERVAL` a name is looked for as
the unit, so a text that ends there comes to the fence. -/
theorem operand_follows : s.Follows Any (operand inner) (operand inner') := by
  refine signs_follows.andThen fun _ _ => current_follows.bind fun t t' ht => ?_
  rw [ht.kind]
  split
  · exact (parentheses_follows hin).andThen fun _ _ => .pure trivial
  · exact caseBlock_follows hin
  · exact nextParentheses_follows hin
  · refine next_follows.andThen fun _ _ => hin.operand.andThen fun _ _ => ?_
    refine current_follows.bind fun measure measure' hmeasure => ?_
    rw [hmeasure.isName]
    split
    · exact next_follows.andThen fun _ _ => recordPassage_follows _ _ _
    · exact .pure trivial
  · refine atCall_follows.bindEq fun call => ?_
    split
    · exact nextParentheses_follows hin
    · split
      · exact consume_follows
      · exact failExpected_follows _

/-- Whether an operand goes on is stated as equal: it decides whether a text is kept. -/
theorem continuation_follows : s.Follows Eq (continuation inner) (continuation inner') := by
  refine .repeating (B := Eq) ?_ rfl
  rintro found _ rfl
  have hoperand : s.Follows (Round.Alike Eq Eq)
      (do next; operand inner; return .again true : Reader (Round Bool Bool))
      (do next; operand inner'; return .again true) :=
    next_follows.andThen fun _ _ => (operand_follows hin).andThen fun _ _ => .pure (.again rfl)
  refine current_follows.bind fun t t' ht => ?_
  rw [ht.kind]
  split
  · exact (parentheses_follows hin).andThen fun _ _ => .pure (.again rfl)
  · refine next_follows.andThen fun _ _ => current_follows.bind fun t t' ht => ?_
    rw [ht.isName, ht.isSymbol, ht.isAnyKeyword]
    split
    · exact consume_follows.andThen fun _ _ => .pure (.again rfl)
    · exact failExpected_follows _
  · split
    · exact hoperand
    · exact .pure (.stop rfl)
  · exact hoperand
  · exact hoperand
  · exact .pure (.stop rfl)

theorem fullOperand_follows : s.Follows Any (fullOperand inner) (fullOperand inner') :=
  (operand_follows hin).andThen fun _ _ => (continuation_follows hin).andThen fun _ _ =>
    .pure trivial

/-! ## Expressions -/

/-- The leaves differ in their spans, which no reader looks at. -/
theorem leafOr_follows (start start' : Nat) (leaf leaf' : Expr) :
    s.Follows Any (leafOr s.alone inner start leaf) (leafOr s.env inner' start' leaf') := by
  refine (continuation_follows hin).bindEq fun found => ?_
  split
  · exact verbatimFrom_follows _ _ _ _
  · exact .pure trivial

/-- An owner is noted and a member recorded in both runs, each at its own place. -/
theorem namedExpression_follows :
    s.Follows Any (namedExpression s.alone inner) (namedExpression s.env inner') := by
  refine current_follows.bind fun t t' ht => next_follows.andThen fun _ _ => ?_
  refine (nameOf_follows ht).bindEq fun owner => (atSymbol_follows _).bindEq fun dot => ?_
  split
  · refine (noteOwner_follows ht).andThen fun _ _ => next_follows.andThen fun _ _ => ?_
    refine current_follows.bind fun t₁ t₁' ht₁ => ?_
    have hmember : ∀ member : String, s.Follows Any
        (do
          next
          recordPassage .member t₁.span
          let stop ← lastEnd
          leafOr s.alone inner t.span.start
            (.member ⟨owner, t.span⟩ member ⟨t.span.start, stop⟩))
        (do
          next
          recordPassage .member t₁'.span
          let stop ← lastEnd
          leafOr s.env inner' t'.span.start
            (.member ⟨owner, t'.span⟩ member ⟨t'.span.start, stop⟩)) := fun member =>
      next_follows.andThen fun _ _ => (recordPassage_follows _ _ _).andThen fun _ _ =>
        lastEnd_follows.andThen fun _ _ => leafOr_follows hin _ _ _ _
    rw [ht₁.isSymbol, ht₁.kind, ht₁.isAnyKeyword]
    split
    · exact hmember "*"
    · split
      · exact (nameOf_follows ht₁).bindEq hmember
      · exact failExpected_bind_follows _ _ _
  · exact leafOr_follows hin _ _ _ _

/-- A number is in range or malformed in both runs, since its digits are the same. -/
theorem expression_follows :
    s.Follows Any (expression s.alone inner) (expression s.env inner') := by
  have hleaf := leafOr_follows hin
  refine current_follows.bind fun t t' ht => ?_
  rw [ht.kind]
  split
  · exact next_follows.andThen fun _ _ => nextParameter_follows.andThen fun _ _ => hleaf _ _ _ _
  iterate 2
    rw [ht.integer?]
    split
    · exact next_follows.andThen fun _ _ => hleaf _ _ _ _
    · exact next_follows.andThen fun _ _ => failAt_follows _ _ _ _
  · rw [ht.real?]
    split
    · exact next_follows.andThen fun _ _ => hleaf _ _ _ _
    · exact next_follows.andThen fun _ _ => failAt_follows _ _ _ _
  · exact next_follows.andThen fun _ _ => hleaf _ _ _ _
  · have hchoice : ∀ composite : Bool, s.Follows Any
        (if composite then do
          operand inner
          let _ ← continuation inner
          verbatimFrom s.alone t.span.start
        else namedExpression s.alone inner)
        (if composite then do
          operand inner'
          let _ ← continuation inner'
          verbatimFrom s.env t'.span.start
        else namedExpression s.env inner') := by
      intro composite
      split
      · exact (operand_follows hin).andThen fun _ _ => (continuation_follows hin).andThen
          fun _ _ => verbatimFrom_follows _ _ _ _
      · exact namedExpression_follows hin
    rw [ht.isName]
    split
    · exact atCall_follows.bindEq hchoice
    · exact hchoice true

end Operands

/-! ## Aliases -/

theorem aliasOf_follows {t t' : Token} (ht : t.Moved s.shift t') :
    s.Follows Eq (aliasOf s.alone t) (aliasOf s.env t') := by
  unfold aliasOf
  rw [ht.kind, ht.chars?, s.dialect]
  split
  · exact .pure rfl
  · exact nameOf_follows ht

/-- An alias is decoded from its own token, in both runs or in none. -/
theorem optionalAlias_follows :
    s.Follows Any (optionalAlias s.alone) (optionalAlias s.env) := by
  refine (skipKeyword_follows _).bindEq fun marked => current_follows.bind fun t t' ht => ?_
  have htaken : ∀ taken : Bool, s.Follows Any
      (do
        if taken then
          next
          return some (← aliasOf s.alone t)
        else return none)
      (do
        if taken then
          next
          return some (← aliasOf s.env t')
        else return none) := by
    intro taken
    split
    · exact next_follows.andThen fun _ _ => (aliasOf_follows ht).andThen fun _ _ => .pure trivial
    · exact .pure trivial
  rw [ht.kind]
  split
  · split
    · exact htaken false
    · exact failExpected_bind_follows _ _ _
    · exact htaken true
  · split
    · exact htaken true
    · exact htaken true
    · exact htaken _
    · exact htaken false

/-! ## Select items -/

section Items

/-- The operator behind `NOT` is looked for one token ahead. -/
theorem negatesOperator_follows :
    s.Follows Eq (negatesOperator s.alone) (negatesOperator s.env) :=
  peek_follows.bind fun _ _ ht => .pure (by simp only [ht.isKeyword, s.isRegexp_moved ht])

theorem aggregateAt?_follows : s.Follows Eq aggregateAt? aggregateAt? := by
  refine current_follows.bind fun t t' ht => ?_
  rw [ht.kind, ht.text]
  split
  · refine peek_follows.bind fun _ _ ht => ?_
    rw [ht.isSymbol]
    split <;> exact .pure rfl
  · exact .pure rfl

/-- `owner.*` is seen from three tokens. -/
theorem atOwnedStar_follows : s.Follows Eq atOwnedStar atOwnedStar := by
  refine current_follows.bind fun t t' ht => ?_
  rw [ht.isName]
  split
  · refine (peekNth_follows 1).bind fun _ _ ht => ?_
    rw [ht.isSymbol]
    split
    · exact (peekNth_follows 2).bind fun _ _ ht => .pure (ht.isSymbol _).symm
    · exact .pure rfl
  · exact .pure rfl

variable (hin : s.Nested inner inner')
include hin

/-- Whether a comparison follows the operand is stated as equal, as it makes a text of the item. -/
theorem comparisonTail_follows :
    s.Follows Eq (comparisonTail s.alone inner) (comparisonTail s.env inner') := by
  refine .repeating (B := Eq) ?_ rfl
  rintro found _ rfl
  have hfull : s.Follows (Round.Alike Eq Eq)
      (do next; fullOperand inner; return .again true : Reader (Round Bool Bool))
      (do next; fullOperand inner'; return .again true) :=
    next_follows.andThen fun _ _ => (fullOperand_follows hin).andThen fun _ _ => .pure (.again rfl)
  refine current_follows.bind fun t t' ht => ?_
  rw [ht.kind, s.isRegexp_moved ht]
  split
  · split
    · exact hfull
    · exact .pure (.stop rfl)
  · exact next_follows.andThen fun _ _ => (skipKeyword_follows _).andThen fun _ _ =>
      (operand_follows hin).andThen fun _ _ => .pure (.again rfl)
  · refine negatesOperator_follows.bindEq fun negates => ?_
    split
    · exact again_follows rfl
    · exact .pure (.stop rfl)
  · exact hfull
  · exact hfull
  · exact next_follows.andThen fun _ _ => (fullOperand_follows hin).andThen fun _ _ =>
      (acceptKeyword_follows _).andThen fun _ _ => (fullOperand_follows hin).andThen fun _ _ =>
        .pure (.again rfl)
  · split
    · exact hfull
    · exact .pure (.stop rfl)

/-- The stretch of the arguments is another one in its place. Its end is counted down by one, and
that the count is in range is no matter of the text alone. -/
theorem aggregateItem_follows (function : Aggregate) :
    s.Follows Any (aggregateItem s.alone inner function) (aggregateItem s.env inner' function) := by
  refine here_follows.andThen fun start start' => next_follows.andThen fun _ _ => ?_
  refine (parentheses_follows hin).andThen fun arguments arguments' => ?_
  have hitem : ∀ goesOn : Bool, s.Follows Any
      (do
        if goesOn then
          let e ← verbatimFrom s.alone start
          return .expr e (← optionalAlias s.alone)
        else
          let argumentsStop ← Counter.down arguments.stop
          let argument := sourceText s.alone (arguments.start + 1) argumentsStop
          let span : Span := ⟨start, ← lastEnd⟩
          return SelectItem.aggregate function argument (← optionalAlias s.alone) span)
      (do
        if goesOn then
          let e ← verbatimFrom s.env start'
          return .expr e (← optionalAlias s.env)
        else
          let argumentsStop ← Counter.down arguments'.stop
          let argument := sourceText s.env (arguments'.start + 1) argumentsStop
          let span : Span := ⟨start', ← lastEnd⟩
          return SelectItem.aggregate function argument (← optionalAlias s.env) span) := by
    intro goesOn
    split
    · exact (verbatimFrom_follows _ _ _ _).andThen fun _ _ =>
        optionalAlias_follows.andThen fun _ _ => .pure trivial
    · exact (down_follows_any _ _).andThen fun _ _ => lastEnd_follows.andThen fun _ _ =>
        optionalAlias_follows.andThen fun _ _ => .pure trivial
  refine (continuation_follows hin).bindEq fun goesOn => ?_
  split
  · exact hitem true
  · exact (comparisonTail_follows hin).bindEq hitem

/-- An item is kept as text in both runs or in none. -/
theorem expressionItem_follows :
    s.Follows Any (expressionItem s.alone inner) (expressionItem s.env inner') := by
  refine here_follows.andThen fun _ _ => (expression_follows hin).andThen fun _ _ => ?_
  refine (comparisonTail_follows hin).bindEq fun tail => ?_
  split
  · exact (verbatimFrom_follows _ _ _ _).andThen fun _ _ =>
      optionalAlias_follows.andThen fun _ _ => .pure trivial
  · exact optionalAlias_follows.andThen fun _ _ => .pure trivial

/-- What kind of item stands there is seen alike. -/
theorem selectItem_follows :
    s.Follows Any (selectItem s.alone inner) (selectItem s.env inner') := by
  refine current_follows.bind fun t t' ht => ?_
  rw [ht.isSymbol]
  split
  · exact next_follows.andThen fun _ _ => .pure trivial
  · refine atOwnedStar_follows.bindEq fun owned => ?_
    split
    · exact (noteOwner_follows ht).andThen fun _ _ => next_follows.andThen fun _ _ =>
        next_follows.andThen fun _ _ => next_follows.andThen fun _ _ =>
          (nameOf_follows ht).andThen fun _ _ => lastEnd_follows.andThen fun _ _ => .pure trivial
    · refine aggregateAt?_follows.bindEq fun function => ?_
      split
      · exact aggregateItem_follows hin _
      · exact expressionItem_follows hin

end Items

end Stage

end SqlMarkers
