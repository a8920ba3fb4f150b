/-
SqlMarkers.Proofs.Shifting.Condition — predicates and lists of conditions further on in a
text.

The same reader runs over a text and over the same text `n` bytes further on. `Slides n f`
says that it takes the same branches and that the results differ by `f`, which moves every
span by `n` and leaves all else alone. Most steps are settled by the token that both runs
see: it has the same kind and text.

A group of conditions that is only tried is given up in both places or in neither: whether
a fault ends the whole reading does not depend on where it is.
-/
import SqlMarkers.Proofs.Shifting.Operand

namespace SqlMarkers.Reader

variable {n : Nat} {env env' : Setting} {inner inner' : Inner}

/-! ## Behind the first operand -/

/-- The values of `IN` are moved one by one, a query as a whole. -/
theorem membership_slides (h : env.Behind n env') (hin : inner.Slides n inner') (left : Expr)
    (negated : Bool) :
    Reader.Slides n (Predicate.shift n) (membership env inner left negated)
      (membership env' inner' (left.shift n) negated) := by
  refine (acceptSymbol_slides _).bind fun opening => (atKeyword_slides _).bindSame fun select => ?_
  split
  · exact hin.embed.bind fun q => (close_slides opening).bind fun _ => .pure rfl
  · exact (commaSeparated_slides (expression_slides h hin)).bind fun values =>
      (close_slides opening).bind fun _ => .pure rfl

/-- Behind `ALL` the text in parentheses is kept. It is cut out `n` bytes further on, so it is the
same text. -/
theorem comparand_slides (h : env.Behind n env') (hin : inner.Slides n inner') :
    Reader.Slides n (Expr.shift n) (comparand env inner) (comparand env' inner') := by
  refine here_slides.bind fun start => peekBehind_slides (fun _ => rfl) fun all => ?_
  split
  · exact next_slides.bind fun _ => (parentheses_slides hin).bind fun _ => verbatimFrom_slides h _
  · exact expression_slides h hin

/-- A test that is kept as text begins with its left operand, so the moved test begins where the
moved operand does. -/
theorem nullTest_slides (h : env.Behind n env') (hin : inner.Slides n inner') (left : Expr) :
    Reader.Slides n (Predicate.shift n) (nullTest env inner left)
      (nullTest env' inner' (left.shift n)) := by
  refine (skipKeyword_slides _).bindSame fun negated => (skipKeyword_slides _).bindSame fun null => ?_
  split
  · exact .pure rfl
  · rw [Expr.shift_span]
    exact (operand_slides hin).bind fun _ => (verbatimFrom_slides h _).bind fun e => .pure rfl

/-- Operators behind a first operand. The left side has been read before and is given moved; the
operator itself is told by a keyword or by the word for `REGEXP`. -/
theorem matching_slides (h : env.Behind n env') (hin : inner.Slides n inner') (left : Expr) :
    Reader.Slides n (Predicate.shift n) (matching env inner left)
      (matching env' inner' (left.shift n)) := by
  refine (skipKeyword_slides _).bindSame fun negated => current_slides.bind fun t => ?_
  rw [Token.shift_kind]
  split
  · exact next_slides.bind fun _ => membership_slides h hin left negated
  · exact next_slides.bind fun _ => (expression_slides h hin).bind fun low =>
      (acceptKeyword_slides _).bind fun _ => (expression_slides h hin).bind fun high => .pure rfl
  · refine next_slides.bind fun _ => (expression_slides h hin).bind fun pattern => ?_
    refine (skipKeyword_slides _).bindSame fun escaped => ?_
    split
    · exact (expression_slides h hin).bind fun escape => .pure rfl
    · exact .pure rfl
  · rw [isRegexp_shift h, Expr.shift_span]
    split
    · exact next_slides.bind fun _ => (expression_slides h hin).bind fun _ =>
        (verbatimFrom_slides h _).bind fun e => .pure rfl
    · split
      · exact failExpected_slides _
      · exact .pure rfl

/-- The first operand is moved, and with it everything that is built around it. -/
theorem operandPredicate_slides (h : env.Behind n env') (hin : inner.Slides n inner') :
    Reader.Slides n (Predicate.shift n) (operandPredicate env inner)
      (operandPredicate env' inner') := by
  refine (expression_slides h hin).bind fun left => current_slides.bind fun t => ?_
  rw [comparisonAt?, comparisonAt?, Token.shift_kind, Token.shift_isKeyword]
  split
  · exact next_slides.bind fun _ => (comparand_slides h hin).bind fun right => .pure rfl
  · split
    · exact next_slides.bind fun _ => nullTest_slides h hin left
    · exact matching_slides h hin left

/-! ## Groups -/

/-- Whether an operand goes on is told by kinds and words of the next two tokens. -/
theorem operandGoesOn_slides (h : env.Behind n env') :
    Reader.Slides n id (operandGoesOn env) (operandGoesOn env') := by
  refine current_slides.bind fun t => ?_
  rw [Token.shift_kind]
  split
  · exact .pure rfl
  · refine peek_slides.bind fun u => .pure ?_
    rw [isRegexp_shift h]
    rfl
  · exact .pure rfl
  · exact .pure (isRegexp_shift h t)

/-- Whether a fault can be given up is a matter of its cause. -/
theorem isRecoverable_shift (f : Fault) : (f.shift n).isRecoverable = f.isRecoverable := by
  cases f <;> rfl

/-- A group is taken in both places, given up in both, or fails in both. If it is given up, both
readers go back to where they were, which are places that are `n` bytes apart. -/
theorem attemptGroup_slides (h : env.Behind n env') (hin : inner.Slides n inner') :
    Reader.Slides n (Option.map (List.map (Condition.shift n))) (attemptGroup env inner)
      (attemptGroup env' inner') := by
  rintro r _ ⟨hsolid, rfl⟩
  -- The reader looks at the outcome of another one, so the rules for sequences do not apply.
  have hgroup := hin.group r (r.shift n) ⟨hsolid, rfl⟩
  unfold attemptGroup
  revert hgroup
  generalize inner.group r = x
  generalize inner'.group (r.shift n) = x'
  rintro (⟨rfl, hsolid', rfl⟩ | ⟨rfl, hsolid', rfl⟩)
  · rename_i cs s
    have hgoes := operandGoesOn_slides h s (s.shift n) ⟨hsolid', rfl⟩
    dsimp only
    revert hgoes
    generalize operandGoesOn env s = y
    generalize operandGoesOn env' (s.shift n) = y'
    rintro (⟨rfl, hsolid', rfl⟩ | ⟨rfl, hsolid', rfl⟩)
    · rename_i goesOn _
      cases goesOn with
      | false => exact .ok rfl ⟨hsolid', rfl⟩
      | true => exact .ok rfl ⟨hsolid, rfl⟩
    · exact .error rfl ⟨hsolid', rfl⟩
  · rename_i f s
    have hnesting : (s.shift n).nesting = s.nesting := rfl
    dsimp only
    rw [isRecoverable_shift, hnesting]
    split
    · exact .ok rfl ⟨hsolid, rfl⟩
    · exact .error rfl ⟨hsolid', rfl⟩

/-- `NOT EXISTS` is one predicate before and after it is moved. -/
theorem shift_negate (p : Predicate) : (negate p).shift n = negate (p.shift n) := by
  cases p with
  | existsIn negated q => cases negated <;> rfl
  | _ => rfl

/-- Predicates slide: the nested ones by assumption, all others by the lemmas above. -/
theorem predicate_slides (h : env.Behind n env') (hin : inner.Slides n inner') :
    Reader.Slides n (Predicate.shift n) (predicate env inner) (predicate env' inner') := by
  refine current_slides.bind fun t => ?_
  rw [Token.shift_kind]
  split
  · exact next_slides.bind fun _ => hin.predicate.bind fun p => .pure (shift_negate p).symm
  · refine next_slides.bind fun _ => (acceptSymbol_slides _).bind fun opening => ?_
    refine (atKeyword_slides _).bindSame fun select => failUnless_slides ?_
    exact hin.embed.bind fun q => (close_slides opening).bind fun _ => .pure rfl
  · refine peek_slides.bind fun u => ?_
    rw [Token.shift_isKeyword]
    split
    · exact operandPredicate_slides h hin
    · refine (attemptGroup_slides h hin).bind fun cs => ?_
      cases cs with
      | none => exact operandPredicate_slides h hin
      | some cs => exact .pure (congrArg Predicate.group (Condition.shiftAll_eq_map cs).symm)
  · exact operandPredicate_slides h hin

/-! ## Lists of conditions -/

/-- Conditions are moved together with their own spans, which begin at the first token and end
at the last one consumed. -/
theorem conditions_slides (h : env.Behind n env') (hin : inner.Slides n inner') :
    Reader.Slides n (List.map (Condition.shift n)) (conditions env inner)
      (conditions env' inner') := by
  refine Follows.repeating (k := Prod.map id (List.map (Condition.shift n))) ?_ (Connector.first, [])
  rintro ⟨connector, done⟩
  refine here_slides.follows fun start => (predicate_slides h hin).follows fun p => ?_
  refine lastEnd_slides.follows fun stop => current_slides.follows fun t => ?_
  let condition : Condition := ⟨connector, p, ⟨start, stop⟩⟩
  have hsnoc : done.map (Condition.shift n) ++ [condition.shift n] =
      (done ++ [condition]).map (Condition.shift n) := by
    rw [List.map_append, List.map_singleton]
  rw [Token.shift_kind]
  split
  · exact next_slides.follows fun _ => Agree.pure (.again (Prod.ext rfl hsnoc))
  · exact Agree.pure (.stop hsnoc)

theorem group_slides (h : env.Behind n env') (hin : inner.Slides n inner') :
    Reader.Slides n (List.map (Condition.shift n)) (group env inner) (group env' inner') :=
  (acceptSymbol_slides _).bind fun _ => (conditions_slides h hin).bind fun _ =>
    (acceptSymbol_slides _).bind fun _ => .pure rfl

theorem conditionClause_slides (h : env.Behind n env') (hin : inner.Slides n inner') (k : Keyword) :
    Reader.Slides n (Option.map (ConditionList.shift n)) (conditionClause env inner k)
      (conditionClause env' inner' k) := by
  refine (skipKeyword_slides _).bindSame fun present => ?_
  split
  · refine here_slides.bind fun start => (conditions_slides h hin).bind fun cs => ?_
    refine lastEnd_slides.bind fun stop => .pure ?_
    rw [Option.map_some, ConditionList.shift, Condition.shiftAll_eq_map]
    rfl
  · exact .pure rfl

end SqlMarkers.Reader
