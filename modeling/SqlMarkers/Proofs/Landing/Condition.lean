/-
SqlMarkers.Proofs.Landing.Condition — where predicates and conditions land.

A predicate is begun with its first operand and completed by what follows it
(`matching_lands`, `nullTest_lands`). `Completes` tells where such a reader ends: it starts at
`r` with an operand that was read from `s` on, and what it gives sits between `s` and its end.
Where the predicate is kept as text, the text starts where the operand did, so these lemmas ask
also that the operand starts at `s`.

A group that is only tried lands in either
way: it is read, or the reading is the one from before (`attemptGroup_lands`).
So a lexical fault met on the way is not lost: the second attempt starts from the
same reading, and every reading in its place explains its faults.
-/
import SqlMarkers.Proofs.Landing.Operand

namespace SqlMarkers

variable {env : Setting} {inner : Inner} {lo : Nat} {s r r' : Reading} {left : Expr}

namespace Reader

/-- `IN` behind an operand: the query or the values sit between the parentheses. -/
theorem membership_lands (hi : inner.Landing env) (hr : r.Placed env lo)
    (hadv : s.cursor.Advances r.cursor) (hleft : left.Sits env.page (s.cursor.upTo r.cursor))
    (negated : Bool) :
    Completes env lo (Predicate.Sits env.page) (membership env inner left negated) s r := by
  refine (acceptSymbol_lands hr .leftParen).bind fun opening r₁ hr₁ hgo₁ ⟨hopening, _⟩ => ?_
  rw [lands_bind_atKeyword]
  split
  · refine (hi.embed hr₁).bind fun q r₂ hr₂ hgo₂ ⟨_, hq, _, _⟩ => ?_
    refine (close_lands hr₂ (hopening.goes hgo₂)).bind fun _ r₃ hr₃ hgo₃ _ => ?_
    have hgo := hgo₁.trans (hgo₂.trans hgo₃)
    refine .pure hr₃ ⟨hadv.goes hgo, ?_, ?_⟩
    · exact Expr.bounded.mono hleft (Cursor.Goes.rfl.upTo_within hgo)
    · exact Query.bounded.mono hq ((hadv.toGoes.trans hgo₁).upTo_within hgo₃)
  · refine (commaSeparated_builds Expr.bounded hr₁ (expression_sits hi)).bind
      fun values r₂ hr₂ hgo₂ ⟨_, hvalues⟩ => ?_
    refine (close_lands hr₂ (hopening.goes hgo₂)).bind fun _ r₃ hr₃ hgo₃ _ => ?_
    have hgo := hgo₁.trans (hgo₂.trans hgo₃)
    refine .pure hr₃ ⟨hadv.goes hgo, ?_, ?_⟩
    · exact Expr.bounded.mono hleft (Cursor.Goes.rfl.upTo_within hgo)
    · exact hvalues.mono Expr.bounded ((hadv.toGoes.trans hgo₁).upTo_within hgo₃)

/-- Behind `ALL` the comparand sits from that word to the closing parenthesis. -/
theorem comparand_lands (hi : inner.Landing env) (hr : r.Placed env lo) :
    Builds env lo (Expr.Sits env.page) (comparand env inner) r := by
  unfold Builds Completes
  rw [comparand, lands_bind_here, lands_bind_atKeyword]
  refine peekBehind_lands hr (fun t => Token.isEnd_of_isSymbol) fun all hall => ?_
  split
  · rename_i h
    refine (next_lands hr (hall h).1).bind fun _ r₁ hr₁ hgo₁ _ => ?_
    refine (parentheses_lands hi hr₁).bind fun _ r₂ hr₂ _ hadv => ?_
    refine (verbatimFrom_lands hr hr₂ (hgo₁.advances hadv)).imp ?_
    exact fun e r' _ _ ⟨hadv, he⟩ => ⟨hadv, he.sits⟩
  · exact expression_sits hi hr

theorem nullTest_lands (hi : inner.Landing env) (hs : s.Placed env lo) (hr : r.Placed env lo)
    (hadv : s.cursor.Advances r.cursor) (hleft : left.Sits env.page (s.cursor.upTo r.cursor))
    (hstart : left.span.start = s.cursor.current.span.start) :
    Completes env lo (Predicate.Sits env.page) (nullTest env inner left) s r := by
  refine (skipOneOf_lands hr (by simp)).bind fun negated r₁ hr₁ hgo₁ _ => ?_
  refine (skipOneOf_lands hr₁ (by simp)).bind fun null r₂ hr₂ hgo₂ _ => ?_
  have hadv₂ := hadv.goes (hgo₁.trans hgo₂)
  split
  · refine .pure hr₂ ⟨hadv₂, ?_⟩
    exact Expr.bounded.mono hleft (Cursor.Goes.rfl.upTo_within (hgo₁.trans hgo₂))
  · refine (operand_lands hi hr₂).bind fun _ r₃ hr₃ hgo₃ _ => ?_
    rw [hstart]
    refine (verbatimFrom_lands hs hr₃ (hadv₂.goes hgo₃)).bind fun e r₄ hr₄ _ ⟨hadv₄, he⟩ => ?_
    exact .pure hr₄ ⟨hadv₄, he.sits⟩

theorem matching_lands (hi : inner.Landing env) (hs : s.Placed env lo) (hr : r.Placed env lo)
    (hadv : s.cursor.Advances r.cursor) (hleft : left.Sits env.page (s.cursor.upTo r.cursor))
    (hstart : left.span.start = s.cursor.current.span.start) :
    Completes env lo (Predicate.Sits env.page) (matching env inner left) s r := by
  refine (skipOneOf_lands hr (by simp)).bind fun negated r₁ hr₁ hgo₁ _ => ?_
  -- The first operand, seen from any later place.
  have hleft' : ∀ {r' : Reading}, r.cursor.Goes r'.cursor →
      left.Sits env.page (s.cursor.upTo r'.cursor) :=
    fun hgo => Expr.bounded.mono hleft (Cursor.Goes.rfl.upTo_within hgo)
  have hadv₁ := hadv.goes hgo₁
  rw [lands_bind_current]
  split
  · rename_i hkind
    refine (next_landsOf hr₁ hkind (by simp)).bind fun _ r₂ hr₂ hgo₂ _ => ?_
    exact membership_lands hi hr₂ (hadv₁.goes hgo₂) (hleft' (hgo₁.trans hgo₂)) negated
  · rename_i hkind
    refine (next_landsOf hr₁ hkind (by simp)).bind fun _ r₂ hr₂ hgo₂ _ => ?_
    refine (expression_sits hi hr₂).bind fun low r₃ hr₃ hgo₃ ⟨_, hlow⟩ => ?_
    refine (acceptKeyword_lands hr₃ .AND).bind fun _ r₄ hr₄ hgo₄ _ => ?_
    refine (expression_sits hi hr₄).bind fun high r₅ hr₅ hgo₅ ⟨_, hhigh⟩ => ?_
    have hgo₂' := hadv₁.toGoes.trans hgo₂
    have hgo₄' := hgo₂'.trans (hgo₃.trans hgo₄)
    refine .pure hr₅ ⟨hadv₁.goes (hgo₂.trans (hgo₃.trans (hgo₄.trans hgo₅))), ?_, ?_, ?_⟩
    · exact hleft' (hgo₁.trans (hgo₂.trans (hgo₃.trans (hgo₄.trans hgo₅))))
    · exact Expr.bounded.mono hlow (hgo₂'.upTo_within (hgo₄.trans hgo₅))
    · exact Expr.bounded.mono hhigh (hgo₄'.upTo_within .rfl)
  · rename_i hkind
    refine (next_landsOf hr₁ hkind (by simp)).bind fun _ r₂ hr₂ hgo₂ _ => ?_
    refine (expression_sits hi hr₂).bind fun pattern r₃ hr₃ hgo₃ ⟨_, hpattern⟩ => ?_
    refine (skipOneOf_lands hr₃ (by simp)).bind fun escaped r₄ hr₄ hgo₄ _ => ?_
    have hgo₂' := hadv₁.toGoes.trans hgo₂
    have hadv₄ := hadv₁.goes (hgo₂.trans (hgo₃.trans hgo₄))
    split
    · refine (expression_sits hi hr₄).bind fun escape r₅ hr₅ hgo₅ ⟨_, hescape⟩ => ?_
      refine .pure hr₅ ⟨hadv₄.goes hgo₅, ?_, ?_, ?_⟩
      · exact hleft' (hgo₁.trans (hgo₂.trans (hgo₃.trans (hgo₄.trans hgo₅))))
      · exact Expr.bounded.mono hpattern (hgo₂'.upTo_within (hgo₄.trans hgo₅))
      · intro e he
        obtain rfl := Option.mem_some_iff.1 he
        exact Expr.bounded.mono hescape (hadv₄.toGoes.upTo_within .rfl)
    · refine .pure hr₄ ⟨hadv₄, ?_, ?_, by simp⟩
      · exact hleft' (hgo₁.trans (hgo₂.trans (hgo₃.trans hgo₄)))
      · exact Expr.bounded.mono hpattern (hgo₂'.upTo_within hgo₄)
  · split
    · rename_i hregexp
      have hend := Token.isEnd_of_isPlain (isPlain_of_isRegexp hregexp)
      refine (next_lands hr₁ hend).bind fun _ r₂ hr₂ hgo₂ _ => ?_
      refine (expression_sits hi hr₂).bind fun _ r₃ hr₃ hgo₃ _ => ?_
      rw [hstart]
      refine (verbatimFrom_lands hs hr₃ (hadv₁.goes (hgo₂.trans hgo₃))).bind
        fun e r₄ hr₄ _ ⟨hadv₄, he⟩ => ?_
      exact .pure hr₄ ⟨hadv₄, he.sits⟩
    · split
      · exact failExpected_lands hr₁ _
      · exact .pure hr₁ ⟨hadv₁, hleft' hgo₁⟩

/-- A predicate that begins with an operand sits from that operand on. -/
theorem operandPredicate_lands (hi : inner.Landing env) (hr : r.Placed env lo) :
    Builds env lo (Predicate.Sits env.page) (operandPredicate env inner) r := by
  refine (expression_lands hi hr).bind fun left r₁ hr₁ _ ⟨hadv₁, hleft⟩ => ?_
  have hstart : left.span.start = r.cursor.current.span.start := by rw [hleft.1]; rfl
  rw [lands_bind_current]
  split
  · rename_i comparison hcomparison
    have hend := Token.isEnd_of_isPlain (isPlain_of_comparisonAt? hcomparison)
    refine (next_lands hr₁ hend).bind fun _ r₂ hr₂ hgo₂ _ => ?_
    refine (comparand_lands hi hr₂).bind fun right r₃ hr₃ hgo₃ ⟨_, hright⟩ => ?_
    refine .pure hr₃ ⟨hadv₁.goes (hgo₂.trans hgo₃), ?_, ?_⟩
    · exact Expr.bounded.mono hleft.sits (Cursor.Goes.rfl.upTo_within (hgo₂.trans hgo₃))
    · exact Expr.bounded.mono hright ((hadv₁.toGoes.trans hgo₂).upTo_within .rfl)
  · split
    · rename_i his
      refine (next_lands hr₁ (Token.isEnd_of_isKeyword his)).bind fun _ r₂ hr₂ hgo₂ _ => ?_
      refine nullTest_lands hi hr hr₂ (hadv₁.goes hgo₂) ?_ hstart
      exact Expr.bounded.mono hleft.sits (Cursor.Goes.rfl.upTo_within hgo₂)
    · exact matching_lands hi hr hr₁ hadv₁ hleft.sits hstart

theorem operandGoesOn_lands (hr : r.Placed env lo) :
    Lands env lo (operandGoesOn env) r fun _ r' => r' = r := by
  rw [operandGoesOn, lands_bind_current]
  split
  · exact .pure hr rfl
  · refine (peek_lands hr).bind ?_
    rintro t r₁ - - ⟨rfl, -⟩
    exact .pure hr rfl
  · exact .pure hr rfl
  · exact .pure hr rfl

/-! ## Groups -/

/-- A group is read, or the reading is the one from before. -/
theorem attemptGroup_lands (hi : inner.Landing env) (hr : r.Placed env lo) :
    Lands env lo (attemptGroup env inner) r fun found r' =>
      (∃ cs, found = some cs ∧ r.cursor.Advances r'.cursor ∧
        Row Condition.span (Condition.Sits env.page) (r.cursor.upTo r'.cursor) cs) ∨
      (found = none ∧ ∃ level, r' = r.onLevel level) := by
  have hgroup := hi.group hr
  unfold Builds Completes Lands Ensures at hgroup
  unfold Lands Ensures attemptGroup
  cases hread : inner.group r with
  | error f r₁ =>
      rw [hread] at hgroup
      dsimp only
      split
      · rename_i heq
        split at heq
        · cases heq
          exact ⟨hr.onLevel _, .rfl, .inr ⟨rfl, _, rfl⟩⟩
        · cases heq
      · rename_i heq
        split at heq
        · cases heq
        · cases heq
          exact hgroup
  | ok cs r₁ =>
      rw [hread] at hgroup
      obtain ⟨hr₁, hgo, hadv, hrow⟩ := hgroup
      have hgoes := operandGoesOn_lands hr₁
      unfold Lands Ensures at hgoes
      dsimp only
      cases hlook : operandGoesOn env r₁ with
      | error f r₂ =>
          rw [hlook] at hgoes
          exact hgoes
      | ok goesOn r₂ =>
          rw [hlook] at hgoes
          obtain ⟨-, -, rfl⟩ := hgoes
          cases goesOn with
          | false => exact ⟨hr₁, hgo, .inl ⟨cs, rfl, hadv, hrow⟩⟩
          | true => exact ⟨hr.onLevel _, .rfl, .inr ⟨rfl, _, rfl⟩⟩

end Reader

/-- Negating a predicate moves no part of it. -/
theorem Predicate.Sits.negate {pg : Page} {b : Span} {p : Predicate} (h : p.Sits pg b) :
    (Reader.negate p).Sits pg b := by
  unfold Reader.negate
  split <;> exact h

namespace Reader

/-- A predicate sits where it was read, with `NOT`, `EXISTS` or a group in front or without. -/
theorem predicate_lands (hi : inner.Landing env) (hr : r.Placed env lo) :
    Builds env lo (Predicate.Sits env.page) (predicate env inner) r := by
  unfold Builds Completes
  rw [predicate, lands_bind_current]
  split
  · rename_i hkind
    refine (next_landsOf hr hkind (by simp)).bind fun _ r₁ hr₁ hgo₁ _ => ?_
    refine (hi.predicate hr₁).bind fun p r₂ hr₂ _ ⟨hadv, hp⟩ => .pure hr₂ ?_
    exact ⟨hgo₁.advances hadv, (hp.mono (hgo₁.upTo_within .rfl)).negate⟩
  · rename_i hkind
    refine (next_landsOf hr hkind (by simp)).bind fun _ r₁ hr₁ hgo₁ _ => ?_
    refine (acceptSymbol_lands hr₁ .leftParen).bind fun opening r₂ hr₂ hgo₂ ⟨hopening, _⟩ => ?_
    rw [lands_bind_atKeyword]
    split
    · exact failExpected_bind_lands hr₂ _
    · refine (hi.embed hr₂).bind fun q r₃ hr₃ _ ⟨hadv, hq, _, _⟩ => ?_
      refine (close_lands hr₃ (hopening.goes hadv.toGoes)).bind fun _ r₄ hr₄ hgo₄ _ => .pure hr₄ ?_
      have hgo := hgo₁.trans hgo₂
      exact ⟨(hgo.advances hadv).goes hgo₄, Query.bounded.mono hq (hgo.upTo_within hgo₄)⟩
  · refine (peek_lands hr).bind ?_
    rintro t r₁ - - ⟨rfl, -⟩
    split
    · exact operandPredicate_lands hi hr
    · refine (attemptGroup_lands hi hr).bind ?_
      rintro found r₂ hr₂ - (⟨cs, rfl, hadv, hrow⟩ | ⟨rfl, level, rfl⟩)
      · exact .pure hr₂ ⟨hadv, Condition.row_iff.1 hrow⟩
      · exact operandPredicate_lands hi hr₂
  · exact operandPredicate_lands hi hr

/-! ## Lists of conditions -/

theorem connectorOf_isEnd {k : Kind} {c : Connector} (h : connectorOf k = some c) :
    k ≠ .endOfInput := by
  rintro rfl
  cases h

/-- Conditions stand in a row. Each one begins behind the word that joins it to those before, so
they are apart. -/
theorem conditions_lands (hi : inner.Landing env) (hr : r.Placed env lo) :
    Builds env lo (Row Condition.span (Condition.Sits env.page)) (conditions env inner) r := by
  refine Lands.repeating (fun state r₁ => Row Condition.span (Condition.Sits env.page)
    (r.cursor.upTo r₁.cursor) state.2) hr .nil ?_
  rintro ⟨connector, done⟩ r₁ hr₁ hgo₁ hrow
  rw [lands_bind_here]
  refine (predicate_lands hi hr₁).bind fun p r₂ hr₂ hgo₂ ⟨hadv₂, hp⟩ => ?_
  rw [lands_bind_lastEnd, lands_bind_current]
  have hrow₂ : Row Condition.span (Condition.Sits env.page) (r.cursor.upTo r₂.cursor)
      (done ++ [⟨connector, p, r₁.cursor.upTo r₂.cursor⟩]) := by
    refine hrow.snoc Condition.bounded ?_ (Cursor.Goes.rfl.upTo_within hgo₂)
      (hgo₁.upTo_within .rfl) hr₁.cursor.behind
    exact ⟨hr₁.cursor.frames hr₂.cursor hadv₂, .rfl, hp⟩
  split
  · rename_i next hconnector
    have hend := Token.isEnd_eq_false.2 (connectorOf_isEnd hconnector)
    refine (next_lands hr₂ hend).bind fun _ r₃ hr₃ hgo₃ _ => .pure hr₃ ?_
    exact ⟨hadv₂.goes hgo₃, hrow₂.mono Condition.bounded (Cursor.Goes.rfl.upTo_within hgo₃)⟩
  · exact .pure hr₂ ⟨hgo₁.advances hadv₂, hrow₂⟩

theorem group_lands (hi : inner.Landing env) (hr : r.Placed env lo) :
    Builds env lo (Row Condition.span (Condition.Sits env.page)) (group env inner) r := by
  refine (acceptSymbol_lands hr .leftParen).bind fun _ r₁ hr₁ hgo₁ _ => ?_
  refine (conditions_lands hi hr₁).bind fun cs r₂ hr₂ _ ⟨hadv₂, hrow⟩ => ?_
  refine (acceptSymbol_lands hr₂ .rightParen).bind fun _ r₃ hr₃ hgo₃ _ => .pure hr₃ ?_
  exact ⟨(hgo₁.advances hadv₂).goes hgo₃, hrow.mono Condition.bounded (hgo₁.upTo_within hgo₃)⟩

/-- The conditions of a clause sit in it, behind its keyword. -/
theorem conditionClause_lands (hi : inner.Landing env) (hr : r.Placed env lo) (keyword : Keyword) :
    Lands env lo (conditionClause env inner keyword) r fun clause r' =>
      ∀ l ∈ clause, l.Sits env.page (r.cursor.upTo r'.cursor) := by
  refine (skipOneOf_lands hr (by simp)).bind fun found r₁ hr₁ hgo₁ _ => ?_
  split
  · rw [lands_bind_here]
    refine (conditions_lands hi hr₁).bind fun cs r₂ hr₂ _ ⟨hadv₂, hrow⟩ => ?_
    rw [lands_bind_lastEnd]
    refine .pure hr₂ fun l hl => ?_
    obtain rfl := Option.mem_some_iff.1 hl
    exact ⟨hr₁.cursor.frames hr₂.cursor hadv₂, hgo₁.upTo_within .rfl, hrow⟩
  · exact .pure hr₁ (by simp)

end Reader

end SqlMarkers
