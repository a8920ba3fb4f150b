/-
SqlMarkers.Proofs.Trail.Condition — the trails of predicates and conditions.

A predicate begins with an operand, whose parts are in hand when the readers behind it start.
Some of these readers keep the whole predicate as text after all, from the operand on. They
need the reading with the operand's parts in hand and the same one without them: its tokens are
passed then, and the text is the only part (`nullTest_yields`, `matching_yields`).

A group of conditions that is tried and given up leaves no trail: the reader
is back where it was (`attemptGroup_yields`), and the operand is read from
there.
-/
import SqlMarkers.Proofs.Trail.Operand

namespace SqlMarkers.Reader

variable {env : Setting} {inner : Inner} {s r r' : Reading} {h : List Part}

/-- Expressions with commas between them put their parts in hand one by one. -/
theorem expressions_yields (hi : inner.Tracked env) (hr : Reached env s h r) {xs : List Expr}
    (hn : Yields (commaSeparated (expression env inner)) r xs r') :
    Ended env s (h ++ Expr.partsIn xs) r' :=
  commaSeparated_yields Ended.reached (fun hr hn => expression_yields hi hr hn) hr hn

/-- The left side of a predicate is in hand. -/
theorem membership_yields (hi : inner.Tracked env) {left : Expr} {negated : Bool}
    (hr : Reached env s (h ++ left.parts) r) {p : Predicate}
    (hn : Yields (membership env inner left negated) r p r') :
    Settled env s (h ++ p.parts) r' := by
  obtain ⟨opening, r₁, hopen, hn⟩ := yields_bind.1 hn
  have hr₁ := (hr.openParen hopen).reached
  replace hn := bind_atKeyword hn
  rcases yields_ite.1 hn with ⟨-, hn⟩ | ⟨-, hn⟩
  · obtain ⟨q, r₂, hembed, hn⟩ := yields_bind.1 hn
    obtain ⟨_, hclose, rfl⟩ := yields_map.1 hn
    simpa [Predicate.parts] using (hi.embed hr₁ hembed).1.close hclose
  · obtain ⟨values, r₂, hvalues, hn⟩ := yields_bind.1 hn
    obtain ⟨_, hclose, rfl⟩ := yields_map.1 hn
    simpa [Predicate.parts] using (expressions_yields hi hr₁ hvalues).reached.close hclose

/-- Behind `ALL` the comparand is kept as text, and that text is its one part. -/
theorem comparand_yields (hi : inner.Tracked env) (hr : Reached env s h r) {x : Expr}
    (hn : Yields (comparand env inner) r x r') : Settled env s (h ++ x.parts) r' := by
  replace hn := bind_here hn
  replace hn := bind_atKeyword hn
  obtain ⟨all, hall, hn⟩ := peekBehind_yields hn
  rcases yields_ite.1 hn with ⟨htrue, hn⟩ | ⟨-, hn⟩
  · obtain ⟨_, r₁, hnext, hn⟩ := yields_bind.1 hn
    obtain ⟨_, r₂, hparens, hn⟩ := yields_bind.1 hn
    have hr₁ := (hr.nextOf (hall htrue).1 hnext rfl).reached
    exact (parentheses_yields hi hr₁ hparens).running.verbatimFrom hn
  · exact (expression_yields hi hr hn).1

/-- The left side of a test is in hand, or becomes part of a kept text. -/
theorem nullTest_yields (hi : inner.Tracked env) {left : Expr}
    (hr : Rested env s (h ++ left.parts) r) (hr₀ : Rested env s h r) {p : Predicate}
    (hn : Yields (nullTest env inner left) r p r') : Rested env s (h ++ p.parts) r' := by
  obtain ⟨negated, r₁, hnot, hn⟩ := yields_bind.1 hn
  obtain ⟨isNull, r₂, hnull, hn⟩ := yields_bind.1 hn
  rcases yields_ite.1 hn with ⟨-, hn⟩ | ⟨-, hn⟩
  · obtain ⟨rfl, rfl⟩ := yields_pure.1 hn
    exact (hr.skipKeyword hnot).skipKeyword hnull
  · obtain ⟨_, r₃, hoperand, hn⟩ := yields_bind.1 hn
    obtain ⟨x, hkeep, rfl⟩ := yields_map.1 hn
    have hr₂ := (hr₀.skipKeyword hnot).skipKeyword hnull
    exact ((operand_yields hi hr₂.reached hoperand).verbatimFrom hkeep).rested

/-- `REGEXP` is a name in the dialect that knows it, hence plain. -/
theorem isPlain_of_isRegexp {t : Token} (h : isRegexp env t = true) : t.kind.isPlain = true := by
  simp only [isRegexp, Token.isRegexp, Token.isWord, Bool.and_eq_true, Bool.or_eq_true,
    beq_iff_eq] at h
  have hkind : t.kind = .identifier := by grind
  rw [hkind]
  rfl

/-- `IN`, `BETWEEN`, `LIKE` and `REGEXP`, or the operand alone. -/
theorem matching_yields (hi : inner.Tracked env) {left : Expr}
    (hr : Rested env s (h ++ left.parts) r) (hr₀ : Rested env s h r) {p : Predicate}
    (hn : Yields (matching env inner left) r p r') : Rested env s (h ++ p.parts) r' := by
  obtain ⟨negated, r₁, hnot, hn⟩ := yields_bind.1 hn
  have hr₁ := hr.skipKeyword hnot
  replace hn := bind_current hn
  split at hn
  · rename_i hkind
    obtain ⟨_, r₂, hnext, hn⟩ := yields_bind.1 hn
    exact (membership_yields hi (hr₁.reached.nextOf hkind hnext rfl).reached hn).rested
  · rename_i hkind
    obtain ⟨_, r₂, hnext, hn⟩ := yields_bind.1 hn
    obtain ⟨low, r₃, hlow, hn⟩ := yields_bind.1 hn
    obtain ⟨_, r₄, hand, hn⟩ := yields_bind.1 hn
    obtain ⟨high, hhigh, rfl⟩ := yields_map.1 hn
    have hr₃ := expression_yields hi (hr₁.reached.nextOf hkind hnext rfl).reached hlow
    have hr₅ := expression_yields hi (hr₃.reached.acceptKeyword hand).reached hhigh
    simpa [Predicate.parts] using hr₅.1.rested
  · rename_i hkind
    obtain ⟨_, r₂, hnext, hn⟩ := yields_bind.1 hn
    obtain ⟨pattern, r₃, hpattern, hn⟩ := yields_bind.1 hn
    obtain ⟨escaped, r₄, hescape, hn⟩ := yields_bind.1 hn
    have hr₃ := expression_yields hi (hr₁.reached.nextOf hkind hnext rfl).reached hpattern
    have hr₄ := hr₃.1.rested.skipKeyword hescape
    rcases yields_ite.1 hn with ⟨-, hn⟩ | ⟨-, hn⟩
    · obtain ⟨escape, hexpr, rfl⟩ := yields_map.1 hn
      simpa [Predicate.parts, Expr.partsIn] using
        (expression_yields hi hr₄.reached hexpr).1.rested
    · obtain ⟨rfl, rfl⟩ := yields_pure.1 hn
      simpa [Predicate.parts, Expr.partsIn] using hr₄
  · rcases yields_ite.1 hn with ⟨hregexp, hn⟩ | ⟨-, hn⟩
    · obtain ⟨_, r₂, hnext, hn⟩ := yields_bind.1 hn
      obtain ⟨x, r₃, hexpr, hn⟩ := yields_bind.1 hn
      obtain ⟨kept, hkeep, rfl⟩ := yields_map.1 hn
      have hr₂ := (hr₀.skipKeyword hnot).reached.next (isPlain_of_isRegexp hregexp) hnext
      have hr₃ := expression_yields hi hr₂.reached hexpr
      exact ((hr₃.drop x).verbatimFrom hkeep).1.rested
    · rcases yields_ite.1 hn with ⟨-, hn⟩ | ⟨-, hn⟩
      · exact (yields_failExpected.1 hn).elim
      · obtain ⟨rfl, rfl⟩ := yields_pure.1 hn
        exact hr₁

/-- No comparison is a mark that is counted. -/
theorem isPlain_of_comparisonAt? {t : Token} {c : Comparison} (h : comparisonAt? t = some c) :
    t.kind.isPlain = true := by
  unfold comparisonAt? at h
  split at h
  · rename_i mark hkind
    rw [hkind]
    cases mark <;> simp_all [Comparison.ofSymbol?, Kind.isPlain]
  · cases h

/-- A predicate that begins with an operand puts its parts in hand. -/
theorem operandPredicate_yields (hi : inner.Tracked env) (hr : Reached env s h r)
    {p : Predicate} (hn : Yields (operandPredicate env inner) r p r') :
    Rested env s (h ++ p.parts) r' := by
  obtain ⟨left, r₁, hleft, hn⟩ := yields_bind.1 hn
  have hr₁ := expression_yields hi hr hleft
  replace hn := bind_current hn
  split at hn
  · rename_i comparison hcomparison
    obtain ⟨_, r₂, hnext, hn⟩ := yields_bind.1 hn
    obtain ⟨right, hright, rfl⟩ := yields_map.1 hn
    have hr₂ := hr₁.reached.next (isPlain_of_comparisonAt? hcomparison) hnext
    simpa [Predicate.parts] using (comparand_yields hi hr₂.reached hright).rested
  · rcases yields_ite.1 hn with ⟨his, hn⟩ | ⟨-, hn⟩
    · obtain ⟨_, r₂, hnext, hn⟩ := yields_bind.1 hn
      have hkind := Token.isKeyword_iff.1 his
      exact nullTest_yields hi (hr₁.reached.nextOf hkind hnext rfl)
        ((hr₁.drop left).reached.nextOf hkind hnext rfl) hn
    · exact matching_yields hi hr₁.1.rested (hr₁.drop left).1.rested hn

/-- Two looks ahead move nothing. -/
theorem operandGoesOn_yields {b : Bool} (hn : Yields (operandGoesOn env) r b r') : r = r' := by
  replace hn := bind_current hn
  split at hn
  · exact (yields_pure.1 hn).2
  · obtain ⟨t, hpeek, -⟩ := yields_map.1 hn
    exact (peek_yields hpeek).2
  · exact (yields_pure.1 hn).2
  · exact (yields_pure.1 hn).2

/-- A group that is given up leaves the reader where it was. -/
theorem attemptGroup_yields {found : Option (List Condition)}
    (hn : Yields (attemptGroup env inner) r found r') :
    (∃ cs, found = some cs ∧ Yields inner.group r cs r') ∨
      (found = none ∧ ∃ level, r' = r.onLevel level) := by
  unfold Yields attemptGroup at hn
  split at hn
  · rename_i cs r₁ hgroup
    split at hn
    · rename_i r₂ hgoes
      cases hn
      obtain rfl := operandGoesOn_yields hgoes
      exact .inl ⟨cs, rfl, hgroup⟩
    · cases hn
      exact .inr ⟨rfl, _, rfl⟩
    · cases hn
  · split at hn
    · cases hn
      exact .inr ⟨rfl, _, rfl⟩
    · cases hn

/-- Negating a predicate leaves its parts. -/
theorem parts_negate (p : Predicate) : (negate p).parts = p.parts := by
  unfold negate
  split <;> simp [Predicate.parts]

/-- A predicate puts its parts in hand: behind `NOT`, behind `EXISTS`, as a group, or from its
first operand on. -/
theorem predicate_yields (hi : inner.Tracked env) (hr : Reached env s h r) {p : Predicate}
    (hn : Yields (predicate env inner) r p r') : Rested env s (h ++ p.parts) r' := by
  replace hn := bind_current hn
  split at hn
  · rename_i hkind
    obtain ⟨_, r₁, hnext, hn⟩ := yields_bind.1 hn
    obtain ⟨p₁, hpred, rfl⟩ := yields_map.1 hn
    rw [parts_negate]
    exact hi.predicate (hr.nextOf hkind hnext rfl).reached hpred
  · rename_i hkind
    obtain ⟨_, r₁, hnext, hn⟩ := yields_bind.1 hn
    obtain ⟨opening, r₂, hopen, hn⟩ := yields_bind.1 hn
    have hr₂ := ((hr.nextOf hkind hnext rfl).reached.openParen hopen).reached
    replace hn := bind_atKeyword hn
    rcases yields_ite.1 hn with ⟨-, hn⟩ | ⟨-, hn⟩
    · exact (bind_failExpected hn).elim
    · obtain ⟨q, r₃, hembed, hn⟩ := yields_bind.1 hn
      obtain ⟨_, hclose, rfl⟩ := yields_map.1 hn
      exact ((hi.embed hr₂ hembed).1.close hclose).rested
  · obtain ⟨t, r₁, hpeek, hn⟩ := yields_bind.1 hn
    obtain ⟨-, rfl⟩ := peek_yields hpeek
    rcases yields_ite.1 hn with ⟨-, hn⟩ | ⟨-, hn⟩
    · exact operandPredicate_yields hi hr hn
    · obtain ⟨found, r₁, hattempt, hn⟩ := yields_bind.1 hn
      rcases attemptGroup_yields hattempt with ⟨cs, rfl, hgroup⟩ | ⟨rfl, level, rfl⟩
      · obtain ⟨rfl, rfl⟩ := yields_pure.1 hn
        exact (hi.group hr hgroup).rested
      · exact operandPredicate_yields hi (hr.level level) hn
  · exact operandPredicate_yields hi hr hn

/-- The parts of conditions are put in hand one condition after the other. -/
theorem partsIn_append (as bs : List Condition) :
    Condition.partsIn (as ++ bs) = Condition.partsIn as ++ Condition.partsIn bs := by
  induction as with
  | nil => rfl
  | cons a as ih =>
      obtain ⟨_, p, _⟩ := a
      simp [Condition.partsIn, ih]

/-- The words that join conditions are plain. -/
theorem conditions_yields (hi : inner.Tracked env) (hr : Reached env s h r)
    {cs : List Condition} (hn : Yields (conditions env inner) r cs r') :
    Rested env s (h ++ Condition.partsIn cs) r' := by
  refine repeatStep_yields (fun done => Reached env s (h ++ Condition.partsIn done.2))
    (fun cs => Rested env s (h ++ Condition.partsIn cs)) ?_ (by simpa [Condition.partsIn]) hn
  rintro ⟨connector, done⟩ r₁ round r₂ hr₁ hround
  replace hround := bind_here hround
  obtain ⟨p, r₃, hpred, hround⟩ := yields_bind.1 hround
  replace hround := bind_lastEnd hround
  have hr₃ : ∀ start stop, Rested env s
      (h ++ Condition.partsIn (done ++ [⟨connector, p, ⟨start, stop⟩⟩])) r₃ := by
    intro start stop
    simpa [partsIn_append, Condition.partsIn] using predicate_yields hi hr₁ hpred
  replace hround := bind_current hround
  split at hround
  · rename_i next hconnector
    obtain ⟨_, hnext, rfl⟩ := yields_map.1 hround
    refine ((hr₃ _ _).reached.next ?_ hnext).reached
    unfold connectorOf at hconnector
    split at hconnector
    all_goals simp_all [Kind.isPlain]
  · obtain ⟨rfl, rfl⟩ := yields_pure.1 hround
    exact hr₃ _ _

/-- The parts of a group are those of its conditions; the parentheses settle the edge. -/
theorem group_yields (hi : inner.Tracked env) (hr : Reached env s h r) {cs : List Condition}
    (hn : Yields (group env inner) r cs r') : Settled env s (h ++ Condition.partsIn cs) r' := by
  obtain ⟨_, r₁, hopen, hn⟩ := yields_bind.1 hn
  obtain ⟨cs₁, r₂, hconds, hn⟩ := yields_bind.1 hn
  obtain ⟨_, hclose, rfl⟩ := yields_map.1 hn
  have hr₂ := conditions_yields hi (hr.openParen hopen).reached hconds
  obtain ⟨-, hkind, hnext⟩ := acceptSymbol_yields hclose
  exact hr₂.reached.nextParen (.inr hkind) hnext

theorem conditionClause_yields (hi : inner.Tracked env) (hr : Rested env s h r) {k : Keyword}
    {clause : Option ConditionList} (hn : Yields (conditionClause env inner k) r clause r') :
    Rested env s (h ++ ConditionList.partsIn clause) r' := by
  obtain ⟨found, r₁, hskip, hn⟩ := yields_bind.1 hn
  have hr₁ := hr.skipKeyword hskip
  rcases yields_ite.1 hn with ⟨-, hn⟩ | ⟨-, hn⟩
  · replace hn := bind_here hn
    obtain ⟨cs, r₂, hconds, hn⟩ := yields_bind.1 hn
    replace hn := bind_lastEnd hn
    obtain ⟨rfl, rfl⟩ := yields_pure.1 hn
    exact conditions_yields hi hr₁.reached hconds
  · obtain ⟨rfl, rfl⟩ := yields_pure.1 hn
    simpa [ConditionList.partsIn] using hr₁

end SqlMarkers.Reader
