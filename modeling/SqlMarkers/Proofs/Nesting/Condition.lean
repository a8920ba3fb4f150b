/-
SqlMarkers.Proofs.Nesting.Condition — predicates and lists of conditions under a
nesting limit.

The lemmas follow the readers and carry a bound on the predicate that is read: a query behind
`IN` or `EXISTS`, a negated predicate and a group are each read one level down, so they are less
than `n` high, and the predicate around them is at most `n` high.

A group of conditions is only tried, and a fault in it is given up. So this is where a
low limit could change the meaning of a statement: the same tokens can be read as an
operand, with fewer levels. It does not, because a reading that was refused at the
limit is not given up (`attemptGroup_capped`).
-/
import SqlMarkers.Proofs.Nesting.Operand

namespace SqlMarkers.Reader

variable {cap : Cap} {n room : Nat} {env : Setting} {inner inner' : Inner} {left : Expr}

/-! ## Behind the first operand -/

/-- A query behind `IN` is one level down; a list of values has no height. -/
theorem membership_capped (hin : inner.Capped cap n room inner') (negated : Bool) :
    Capped cap room (fun p => p.height ≤ n) (membership env inner left negated)
      (membership env inner' left negated) := by
  refine (acceptSymbol_level _).bind fun opening _ => (atKeyword_level _).bind fun select _ => ?_
  split
  · refine hin.embed.bind fun q hq => (close_level _).bind fun _ _ => .pure ?_
    simp only [Predicate.height]
    omega
  · refine (commaSeparated_capped (expression_capped hin)).bind fun _ _ => ?_
    exact (close_level _).bind fun _ _ => .pure (Nat.zero_le n)

theorem comparand_capped (hin : inner.Capped cap n room inner') :
    Capped cap room (fun _ => True) (comparand env inner) (comparand env inner') := by
  refine here_level.bind fun start _ => peekBehind_capped fun all => ?_
  split
  · exact next_level.bind fun _ _ => (parentheses_capped hin).bind fun _ _ =>
      verbatimFrom_level env start
  · exact expression_capped hin

theorem nullTest_capped (hin : inner.Capped cap n room inner') :
    Capped cap room (fun p => p.height ≤ n) (nullTest env inner left)
      (nullTest env inner' left) := by
  refine (skipKeyword_level _).bind fun negated _ => (skipKeyword_level _).bind fun null _ => ?_
  split
  · exact .pure (Nat.zero_le n)
  · exact (operand_capped hin).bind fun _ _ => (verbatimFrom_level env _).bind fun _ _ =>
      .pure (Nat.zero_le n)

/-- Only `IN` can nest a query here; the others are made of expressions. -/
theorem matching_capped (hin : inner.Capped cap n room inner') :
    Capped cap room (fun p => p.height ≤ n) (matching env inner left)
      (matching env inner' left) := by
  refine (skipKeyword_level _).bind fun negated _ => current_level.bind fun t _ => ?_
  split
  · exact next_level.bind fun _ _ => membership_capped hin negated
  · exact next_level.bind fun _ _ => (expression_capped hin).bind fun _ _ =>
      (acceptKeyword_level _).bind fun _ _ => (expression_capped hin).bind fun _ _ =>
        .pure (Nat.zero_le n)
  · refine next_level.bind fun _ _ => (expression_capped hin).bind fun pattern _ => ?_
    refine (skipKeyword_level _).bind fun escaped _ => ?_
    split
    · exact (expression_capped hin).bind fun _ _ => .pure (Nat.zero_le n)
    · exact .pure (Nat.zero_le n)
  · split
    · exact next_level.bind fun _ _ => (expression_capped hin).bind fun _ _ =>
        (verbatimFrom_level env _).bind fun _ _ => .pure (Nat.zero_le n)
    · split
      · exact failExpected_capped _
      · exact .pure (Nat.zero_le n)

/-- A predicate that begins with an operand is as high as what stands behind it. -/
theorem operandPredicate_capped (hin : inner.Capped cap n room inner') :
    Capped cap room (fun p => p.height ≤ n) (operandPredicate env inner)
      (operandPredicate env inner') := by
  refine (expression_capped hin).bind fun left _ => current_level.bind fun t _ => ?_
  split
  · exact next_level.bind fun _ _ => (comparand_capped hin).bind fun _ _ => .pure (Nat.zero_le n)
  · split
    · exact next_level.bind fun _ _ => nullTest_capped hin
    · exact matching_capped hin

/-! ## Groups -/

theorem operandGoesOn_level (env : Setting) : Level cap room (operandGoesOn env) := by
  refine current_level.bind fun t _ => ?_
  split
  · exact .pure trivial
  · exact peek_level.bind fun _ _ => .pure trivial
  · exact .pure trivial
  · exact .pure trivial

/-- A tried group gives the same under both limits, or is refused under the lower one. In the
second case the refusal is passed on: it is not taken for a fault that is given up. -/
theorem attemptGroup_capped (hin : inner.Capped cap n room inner') :
    Capped cap room (fun found => ∀ cs ∈ found, Condition.heightIn cs < n)
      (attemptGroup env inner) (attemptGroup env inner') := by
  intro r hr
  have hgroup := hin.group r hr
  unfold attemptGroup
  revert hgroup
  generalize inner.group r = x
  generalize inner'.group r = x'
  -- A reader that goes back is on its level again.
  have hback : ∀ {r' : Reading}, r'.nesting = r.nesting → cap.Admits room (r.resumed r') :=
    fun hnesting => ⟨congrArg Nesting.depth hnesting ▸ hr.level, hr.height⟩
  rintro (⟨hcs, hadmitted, hnesting⟩ | ⟨hother, hnesting⟩ | ⟨hnesting, hsame⟩)
  · rename_i cs r₁
    have hgoes : Capping cap room (fun _ => True) r₁.nesting (operandGoesOn env r₁)
        (operandGoesOn env r₁) := operandGoesOn_level env r₁ hadmitted
    dsimp only
    revert hgoes
    generalize operandGoesOn env r₁ = y
    rintro (⟨-, hadmitted', hnesting'⟩ | ⟨hother, hnesting'⟩ | ⟨hnesting', -⟩)
    · rename_i goesOn _
      cases goesOn with
      | false => exact .ok (by simpa using hcs) hadmitted' (hnesting'.trans hnesting)
      | true =>
          exact .ok (by simp) (hback (hnesting'.trans hnesting)) (hnesting'.trans hnesting)
    · exact .fault hother (hnesting'.trans hnesting)
    · exact .refused (hnesting'.trans (congrArg Nesting.refused hnesting)) fun _ => rfl
  -- Both readers go back, or neither does.
  · dsimp only
    split
    · exact .ok (by simp) (hback hnesting) hnesting
    · exact .fault hother hnesting
  -- The note that the limit was met keeps the fault.
  · dsimp only
    rw [if_neg (by simp [hnesting, Nesting.refused])]
    refine .refused hnesting fun h => ?_
    rw [hsame h]
    dsimp only
    rw [if_neg (by simp [hnesting, Nesting.refused])]

/-- `NOT` counts for a level, except where it turns `EXISTS` around. -/
theorem height_negate (p : Predicate) : (negate p).height ≤ p.height + 1 := by
  unfold negate
  split
  · exact Nat.le_succ _
  · exact Nat.le_refl _

/-- A predicate is at most `n` high, with `n` the reach of the nested readers. -/
theorem predicate_capped (hin : inner.Capped cap n room inner') :
    Capped cap room (fun p => p.height ≤ n) (predicate env inner) (predicate env inner') := by
  refine current_level.bind fun t _ => ?_
  split
  · refine next_level.bind fun _ _ => hin.predicate.bind fun p hp => .pure ?_
    exact Nat.le_trans (height_negate p) hp
  · refine next_level.bind fun _ _ => (acceptSymbol_level _).bind fun opening _ => ?_
    refine (atKeyword_level _).bind fun select _ => failUnless_capped ?_
    refine hin.embed.bind fun q hq => (close_level _).bind fun _ _ => .pure ?_
    simp only [Predicate.height]
    omega
  · refine peek_level.bind fun u _ => ?_
    split
    · exact operandPredicate_capped hin
    · refine (attemptGroup_capped hin).bind fun found hfound => ?_
      cases found with
      | none => exact operandPredicate_capped hin
      | some cs => exact .pure (hfound cs rfl)
  · exact operandPredicate_capped hin

/-! ## Lists of conditions -/

/-- A list of conditions is as high as its highest one. Connecting words add nothing. -/
theorem conditions_capped (hin : inner.Capped cap n room inner') :
    Capped cap room (fun cs => Condition.heightIn cs ≤ n) (conditions env inner)
      (conditions env inner') := by
  refine Capped.repeating (fun done : Connector × List Condition => Condition.heightIn done.2 ≤ n)
    ?_ (Nat.zero_le n)
  intro ⟨connector, done⟩ hdone
  dsimp only at hdone
  refine here_level.bind fun start _ => (predicate_capped hin).bind fun p hp => ?_
  refine lastEnd_level.bind fun stop _ => current_level.bind fun t _ => ?_
  have hmore : Condition.heightIn (done ++ [⟨connector, p, ⟨start, stop⟩⟩]) ≤ n := by
    rw [Condition.heightIn_append]
    simp only [Condition.heightIn]
    omega
  split
  · exact next_level.bind fun _ _ => .pure hmore
  · exact .pure hmore

theorem group_capped (hin : inner.Capped cap n room inner') :
    Capped cap room (fun cs => Condition.heightIn cs ≤ n) (group env inner)
      (group env inner') :=
  (acceptSymbol_level _).bind fun _ _ => (conditions_capped hin).bind fun _ hcs =>
    (acceptSymbol_level _).bind fun _ _ => .pure hcs

theorem conditionClause_capped (hin : inner.Capped cap n room inner') (keyword : Keyword) :
    Capped cap room (fun clause => ConditionList.heightIn clause ≤ n)
      (conditionClause env inner keyword) (conditionClause env inner' keyword) := by
  refine (skipKeyword_level _).bind fun present _ => ?_
  split
  · exact here_level.bind fun _ _ => (conditions_capped hin).bind fun _ hcs =>
      lastEnd_level.bind fun _ _ => .pure hcs
  · exact .pure (Nat.zero_le n)

end SqlMarkers.Reader
