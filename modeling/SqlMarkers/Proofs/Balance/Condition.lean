/-
SqlMarkers.Proofs.Balance.Condition — predicates and lists of conditions keep parentheses
in pairs.

Behind `IN` and `EXISTS` a parenthesis is opened and closed by the same reader. All that is
read between them keeps the number of open ones, so the reader as a whole keeps it too.

A group that is given up leaves the cursor where it was, so it does not matter how many
parentheses its reading had open.
-/
import SqlMarkers.Proofs.Balance.Operand
import SqlMarkers.Proofs.Trail.Condition

namespace SqlMarkers.Reader

variable {env : Setting} {inner : Inner} {left : Expr}

/-! ## Predicates -/

/-- The list or the query behind `IN` stands in one pair of parentheses. -/
theorem membership_keeps (hi : inner.Pairing) (negated : Bool) :
    Keeps (membership env inner left negated) := by
  intro i
  refine openParen_shifts.bind fun opening => (atKeyword_keeps _ _).bind fun select => ?_
  split
  · exact (embed_keeps hi _).bind fun q => (close_shifts _).bind fun _ => keeps_pure _ i
  · exact (commaSeparated_keeps (expression_keeps hi) _).bind fun values =>
      (close_shifts _).bind fun _ => keeps_pure _ i

/-- A look at a keyword and the token behind it. -/
theorem peekBehind_shifts {α : Type} {i j : Nat} {k : Keyword} {p : Token → Bool}
    {f : Bool → Reader α}
    (hf : ∀ r found, (found = true → r.cursor.current.kind = .keyword k ∧
      ∃ t, r.cursor.lookAhead 1 = .ok t ∧ p t = true) → ShiftsAt i j (f found) r) :
    Shifts i j (do
      if ← atKeyword k then do
        let t ← peek
        let found ← pure (p t)
        f found
      else do
        let found ← pure false
        f found) := by
  intro r loose s n a r' hs hn
  obtain ⟨found, hfound, hn⟩ := peekBehind_yields (bind_atKeyword hn)
  exact hf r found hfound hs hn

/-- Behind `ALL` the comparand is a pair of parentheses. -/
theorem comparand_keeps (hi : inner.Pairing) : Keeps (comparand env inner) := by
  refine here_keeps.bind fun start i => peekBehind_shifts fun r all hall => ?_
  split
  · rename_i h
    exact (next_shiftsOf (hall h).1 rfl).bind fun _ => (parentheses_keeps hi i).bind fun _ =>
      verbatimFrom_keeps env start i
  · exact expression_keeps hi i r

/-- `IS NULL`, or an operand behind `IS`. -/
theorem nullTest_keeps (hi : inner.Pairing) : Keeps (nullTest env inner left) := by
  refine (skipKeyword_keeps _).bind fun negated => (skipKeyword_keeps _).bind fun null => ?_
  split
  · exact keeps_pure _
  · exact (operand_keeps hi).bind fun _ => (verbatimFrom_keeps env _).bind fun _ => keeps_pure _

/-- A word is compared with names only. -/
theorem isFlat_of_isWord {t : Token} {word : String} (h : t.isWord word = true) :
    t.kind.isFlat = true := by
  rw [Token.isWord, Bool.and_eq_true, beq_iff_eq] at h
  rw [h.1]
  rfl

theorem isFlat_of_isRegexp {t : Token} (h : isRegexp env t = true) : t.kind.isFlat = true := by
  simp only [isRegexp, Token.isRegexp, Bool.and_eq_true, Bool.or_eq_true] at h
  rcases h.2 with hword | hword <;> exact isFlat_of_isWord hword

/-- The words of `IN`, `BETWEEN`, `LIKE` and `REGEXP` are keywords or names. -/
theorem matching_keeps (hi : inner.Pairing) : Keeps (matching env inner left) := by
  refine (skipKeyword_keeps _).bind fun negated => keeps_current fun i r => ?_
  split
  · rename_i hk
    exact (next_shiftsOf hk rfl).bind fun _ => membership_keeps hi negated i
  · rename_i hk
    exact (next_shiftsOf hk rfl).bind fun _ => (expression_keeps hi i).bind fun _ =>
      (acceptKeyword_keeps _ i).bind fun _ => (expression_keeps hi i).bind fun _ => keeps_pure _ i
  · rename_i hk
    refine (next_shiftsOf hk rfl).bind fun _ => (expression_keeps hi i).bind fun pattern => ?_
    refine (skipKeyword_keeps _ i).bind fun escaped => ?_
    split
    · exact (expression_keeps hi i).bind fun _ => keeps_pure _ i
    · exact keeps_pure _ i
  · split
    · rename_i hregexp
      exact (next_shifts (isFlat_of_isRegexp hregexp)).bind fun _ =>
        (expression_keeps hi i).bind fun _ => (verbatimFrom_keeps env _ i).bind fun _ =>
          keeps_pure _ i
    · split
      · exact failExpected_keeps _ i r
      · exact keeps_pure _ i r

/-- No comparison is written as a parenthesis. -/
theorem isFlat_of_comparisonAt? {t : Token} {comparison : Comparison}
    (h : comparisonAt? t = some comparison) : t.kind.isFlat = true := by
  refine Kind.isFlat_of ?_ ?_ ?_ <;> intro hk <;> simp [comparisonAt?, hk, Comparison.ofSymbol?] at h

theorem operandPredicate_keeps (hi : inner.Pairing) : Keeps (operandPredicate env inner) := by
  refine (expression_keeps hi).bind fun left => keeps_current fun i r => ?_
  split
  · rename_i comparison hcomparison
    exact (next_shifts (isFlat_of_comparisonAt? hcomparison)).bind fun _ =>
      (comparand_keeps hi i).bind fun _ => keeps_pure _ i
  · split
    · rename_i his
      exact (next_shiftsOf (Token.isKeyword_iff.1 his) rfl).bind fun _ => nullTest_keeps hi i
    · exact matching_keeps hi i r

/-! ## Groups -/

/-- A group that is kept was read by a reader that keeps parentheses in pairs; otherwise the
cursor is back at the opening parenthesis. -/
theorem attemptGroup_keeps (hi : inner.Pairing) : Keeps (attemptGroup env inner) := by
  intro i r loose s n found r' hs hn
  rcases attemptGroup_yields hn with ⟨cs, -, hgroup⟩ | ⟨-, level, rfl⟩
  · exact hi.group i r hs hgroup
  · exact hs

theorem predicate_keeps (hi : inner.Pairing) : Keeps (predicate env inner) := by
  refine keeps_current fun i r => ?_
  split
  · rename_i hk
    exact (next_shiftsOf hk rfl).bind fun _ => (hi.predicate i).bind fun _ => keeps_pure _ i
  · rename_i hk
    refine (next_shiftsOf hk rfl).bind fun _ => openParen_shifts.bind fun opening => ?_
    refine (atKeyword_keeps _ _).bind fun select => ?_
    have hquery : Shifts (i + 1) i (do
        let q ← inner.embed
        close opening
        return .existsIn false q : Reader Predicate) :=
      (embed_keeps hi _).bind fun _ => (close_shifts _).bind fun _ => keeps_pure _ i
    split
    · exact failExpected_bind_shifts
    · exact hquery
  · refine (peek_keeps i r).bind fun u => ?_
    split
    · exact operandPredicate_keeps hi i
    · refine (attemptGroup_keeps hi i).bind fun found => ?_
      cases found with
      | none => exact operandPredicate_keeps hi i
      | some cs => exact keeps_pure _ i
  · exact operandPredicate_keeps hi i r

/-! ## Lists of conditions -/

theorem isFlat_of_connectorOf {k : Kind} {connector : Connector}
    (h : connectorOf k = some connector) : k.isFlat = true := by
  refine Kind.isFlat_of ?_ ?_ ?_ <;> rintro rfl <;> cases h

theorem conditions_keeps (hi : inner.Pairing) : Keeps (conditions env inner) := by
  refine repeating_keeps (fun done => ?_) _
  obtain ⟨connector, done⟩ := done
  refine here_keeps.bind fun start => (predicate_keeps hi).bind fun p => ?_
  refine lastEnd_keeps.bind fun stop => keeps_current fun i r => ?_
  split
  · rename_i hconnector
    exact (next_shifts (isFlat_of_connectorOf hconnector)).bind fun _ => keeps_pure _ i
  · exact keeps_pure _ i r

theorem group_keeps (hi : inner.Pairing) : Keeps (group env inner) := fun i =>
  openParen_shifts.bind fun _ => (conditions_keeps hi _).bind fun _ =>
    closeParen_shifts.bind fun _ => keeps_pure _ i

theorem conditionClause_keeps (hi : inner.Pairing) (keyword : Keyword) :
    Keeps (conditionClause env inner keyword) := by
  refine (skipKeyword_keeps _).bind fun present => ?_
  split
  · exact here_keeps.bind fun _ => (conditions_keeps hi).bind fun _ => lastEnd_keeps.bind fun _ =>
      keeps_pure _
  · exact keeps_pure _

end SqlMarkers.Reader
