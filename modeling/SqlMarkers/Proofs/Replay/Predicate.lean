/-
SqlMarkers.Proofs.Replay.Predicate — parts of predicates in their place.

A predicate has two parts that are kept as text and are no expressions: `ALL (...)` on the
right of a comparison, and an operand with a test behind it, such as `a IS TRUE`, which is the
whole predicate. Both are read in their place as they are read alone.

A reader that goes on with a predicate makes a tree of it, but for those tests. So where a
predicate that is read alone gives a text, most of the ways to read it are excluded by what they
make (`Reader.Makes`), and the rest are replayed.
-/
import SqlMarkers.Proofs.Makes
import SqlMarkers.Proofs.Replay.Alone

namespace SqlMarkers

open Glyph

/-- Whether the predicate is kept as the text of an operand. -/
def Predicate.isBare : Predicate → Bool
  | .bare _ => true
  | _ => false

namespace Reader

/-- The text that the predicate is kept as. -/
def keptText : Predicate → Reader Expr
  | .bare e => return e
  | _ => failExpected "an operand"

/-- A predicate that is kept as text. -/
def barePredicate (env : Setting) (inner : Inner) : Reader Expr := do
  keptText (← operandPredicate env inner)

theorem bare_of_keptText {p : Predicate} {e : Expr} {r r' : Reading}
    (h : Yields (keptText p) r e r') : p = .bare e ∧ r' = r := by
  cases p with
  | bare e' =>
      obtain ⟨rfl, rfl⟩ := yields_pure.1 h
      exact ⟨rfl, rfl⟩
  | _ => exact (yields_failExpected.1 h).elim

/-- Nothing is kept of a predicate that is a tree. -/
theorem not_keptText {m : Reader Predicate} (h : Makes (·.isBare = false) m) (r : Reading)
    (e : Expr) (r' : Reading) : ¬Yields (m >>= keptText) r e r' := by
  intro hrun
  obtain ⟨p, r₁, hm, hkept⟩ := yields_bind.1 hrun
  obtain ⟨rfl, -⟩ := bare_of_keptText hkept
  cases h r _ r₁ hm

/-- A symbol is a comparison or is none, whichever way it is asked for. -/
theorem ofSymbol?_of_isComparison {mark : Symbol} (h : mark.isComparison = false) :
    Comparison.ofSymbol? mark = none := by
  cases mark <;> first | rfl | cases h

theorem comparisonAt?_of_stopsItem {t : Token} (h : t.kind.stopsItem = true) :
    comparisonAt? t = none := by
  unfold comparisonAt?
  split
  · rename_i mark hkind
    rw [hkind, Kind.stopsItem, Bool.and_eq_true, Bool.not_eq_true'] at h
    exact ofSymbol?_of_isComparison h.2
  · rfl

theorem membership_isBare {env : Setting} {inner : Inner} {left : Expr} {negated : Bool} :
    Makes (·.isBare = false) (membership env inner left negated) := by
  refine .after fun _ => .after fun _ => ?_
  split
  · exact .after fun _ => .after fun _ => .pure rfl
  · exact .after fun _ => .after fun _ => .pure rfl

end Reader

namespace Stage

open Reader

variable {s : Stage} {u r : Reading} {inner inner' : Inner}

/-- What is behind `ALL` stands in parentheses of the text, if none follow it. -/
theorem comparand_replays (hin : s.Hosts inner inner') (h : s.Facing u r)
    (hend : u.cursor.current.kind ≠ .endOfInput) (hstop : (ahead s.rest).stopsOperand = true) :
    Replays s.Moved s.Copies (comparand s.alone inner) (comparand s.env inner') u r := by
  have hdot := stopsOperand_ne hstop .dot rfl
  have hcall := stopsOperand_ne hstop .leftParen rfl
  rcases h.current with ⟨-, hsame⟩ | ⟨heq, -⟩
  · have hchoice : ∀ all : Bool, Replays s.Moved s.Copies
        (do
          if all then
            next
            let _ ← parentheses inner
            verbatimFrom s.alone u.cursor.current.span.start
          else expression s.alone inner)
        (do
          if all then
            next
            let _ ← parentheses inner'
            verbatimFrom s.env r.cursor.current.span.start
          else expression s.env inner') u r := by
      intro all
      rw [hsame.start]
      split
      · refine (next_replays h hend).bind fun _ _ _ _ _ h₁ => ?_
        refine (parentheses_replays hin h₁.facing hdot).bind fun _ _ _ _ _ h₂ => ?_
        exact verbatimFrom_replays h₂ _
      · exact expression_replays hin h hend hstop
    refine .here (.atKeyword ?_)
    rw [hsame.isKeyword]
    split
    · refine peek_replays h hend fun t t' ht => ?_
      rw [ht.isSymbol hcall]
      exact hchoice _
    · exact hchoice false
  · exact absurd heq hend

/-- What is behind `IS` ends with the text. -/
theorem nullTest_replays (hin : s.Hosts inner inner') (h : s.Moved u r)
    (hstop : (ahead s.rest).stopsItem = true) {left left' : Expr} (hleft : s.Copies left left') :
    Replays s.Moved s.Copies (nullTest s.alone inner left >>= keptText)
      (nullTest s.env inner' left' >>= keptText) u r := by
  have hoperand := stopsOperand_of_stopsItem hstop
  have hnot : [Kind.keyword .NOT].contains (ahead s.rest) = false := by
    simpa using ne_of_stopsItem hstop (.keyword .NOT) rfl
  simp only [nullTest, bind_assoc]
  refine (skipOneOf_replays s.between_moved h rfl fun _ => hnot).bind ?_
  rintro negated _ u₁ r₁ rfl h₁
  by_cases hend : u₁.cursor.current.kind = .endOfInput
  · -- Neither `NULL` nor an operand is left.
    refine .fails fun e u' hrun => ?_
    obtain ⟨null, u₂, hskip, hrun⟩ := yields_bind.1 hrun
    rcases skipOneOf_yields hskip with ⟨-, hkind, -⟩ | ⟨rfl, -, rfl⟩
    · rw [hend] at hkind
      exact absurd hkind (by decide)
    · obtain ⟨p, u₃, hread, -⟩ := yields_bind.1 hrun
      obtain ⟨_, u₄, hread, -⟩ := yields_bind.1 hread
      have hopens := operand_opens hread
      rw [hend] at hopens
      cases hopens
  · refine (skipOneOf_replays s.between_moved h₁ rfl (absurd · hend)).bind ?_
    rintro null _ u₂ r₂ rfl h₂
    cases null with
    | true => exact .fails fun _ _ => not_keptText (.pure rfl) _ _ _
    | false =>
        simp only [Bool.false_eq_true, if_false, bind_assoc, pure_bind, keptText]
        refine (operand_replays hin h₂.facing hoperand).bind fun _ _ u₃ r₃ _ h₃ => ?_
        rw [hleft.start]
        exact verbatimFrom_replays h₃ _

/-- An expression that must follow, even if the text ends in front of it. -/
theorem pattern_replays (hin : s.Hosts inner inner') (h : s.Facing u r)
    (hstop : (ahead s.rest).stopsOperand = true) :
    Replays s.Moved s.Copies (expression s.alone inner) (expression s.env inner') u r := by
  by_cases hlast : u.cursor.current.kind = .endOfInput
  · refine .fails fun _ _ hread => ?_
    have hopens := expression_opens hread
    rw [hlast] at hopens
    cases hopens
  · exact expression_replays hin h hlast hstop

/-- Only `REGEXP` leaves a text behind an operand, or nothing at all does. -/
theorem matching_replays (hin : s.Hosts inner inner') (h : s.Moved u r)
    (hstop : (ahead s.rest).stopsItem = true) {left left' : Expr} (hleft : s.Copies left left') :
    Replays s.Moved s.Copies (matching s.alone inner left >>= keptText)
      (matching s.env inner' left' >>= keptText) u r := by
  have hoperand := stopsOperand_of_stopsItem hstop
  have hnot : [Kind.keyword .NOT].contains (ahead s.rest) = false := by
    simpa using ne_of_stopsItem hstop (.keyword .NOT) rfl
  have hbare : ∀ (negated : Bool) {u r : Reading}, s.Moved u r → Replays s.Moved s.Copies
      ((if negated then failExpected "IN, BETWEEN, LIKE or REGEXP"
        else return .bare left : Reader Predicate) >>= keptText)
      ((if negated then failExpected "IN, BETWEEN, LIKE or REGEXP"
        else return .bare left' : Reader Predicate) >>= keptText) u r := by
    intro negated u r h
    split
    · exact .fails fun _ _ hfail => bind_failExpected hfail
    · exact .pure hleft h
  simp only [matching, bind_assoc]
  refine (skipOneOf_replays s.between_moved h rfl fun _ => hnot).bind ?_
  rintro negated _ u₁ r₁ rfl h₁
  refine .current ?_
  rcases h₁.facing.current with ⟨hend, hsame⟩ | ⟨hend, hahead⟩
  · rw [hsame.kind, s.isRegexp_moved hsame]
    split
    · exact .fails fun _ _ => not_keptText (.after fun _ => membership_isBare) _ _ _
    · exact .fails fun _ _ => not_keptText (.after fun _ => .after fun _ => .after fun _ =>
        .after fun _ => .pure rfl) _ _ _
    · refine .fails fun _ _ =>
        not_keptText (.after fun _ => .after fun _ => .after fun _ => ?_) _ _ _
      split
      · exact .after fun _ => .pure rfl
      · exact .pure rfl
    · split
      · simp only [bind_assoc, pure_bind, keptText]
        refine (next_replays h₁.facing hend).bind fun _ _ u₂ r₂ _ h₂ => ?_
        refine (pattern_replays hin h₂.facing hoperand).bind fun _ _ u₃ r₃ _ h₃ => ?_
        rw [hleft.start]
        exact verbatimFrom_replays h₃ _
      · exact hbare negated h₁
  · have hword : r₁.cursor.current.kind ≠ .identifier := by
      rw [hahead]
      exact ne_of_stopsItem hstop _ rfl
    rw [isRegexp_of_ne _ hword, isRegexp_of_ne _ (by rw [hend]; decide), hend, hahead]
    generalize ahead s.rest = k at hstop
    cases negated with
    | true => exact .fails fun _ _ hfail => bind_failExpected hfail
    | false =>
        show Replays _ _ (pure left) _ u₁ r₁
        split
        iterate 3 exact absurd hstop (by decide)
        exact .pure hleft h₁

/-- A predicate that is kept as text is so in its place, with the same text. -/
theorem barePredicate_replays (hin : s.Hosts inner inner') (h : s.Facing u r)
    (hend : u.cursor.current.kind ≠ .endOfInput) (hstop : (ahead s.rest).stopsItem = true) :
    Replays s.Moved s.Copies (barePredicate s.alone inner) (barePredicate s.env inner') u r := by
  simp only [barePredicate, operandPredicate, bind_assoc]
  refine (expression_replays hin h hend (stopsOperand_of_stopsItem hstop)).bind ?_
  intro left left' u₁ r₁ hleft h₁
  refine .current ?_
  rcases h₁.facing.current with ⟨hend₁, hsame⟩ | ⟨hend₁, hahead⟩
  · rw [comparisonAt?_moved hsame, hsame.isKeyword]
    split
    · exact .fails fun _ _ => not_keptText (.after fun _ => .after fun _ => .pure rfl) _ _ _
    · split
      · simp only [bind_assoc]
        exact (next_replays h₁.facing hend₁).bind fun _ _ _ _ _ h₂ =>
          nullTest_replays hin h₂ hstop hleft
      · exact matching_replays hin h₁ hstop hleft
  · have hkind : r₁.cursor.current.kind.stopsItem = true := by
      rw [hahead]
      exact hstop
    have hnone : comparisonAt? u₁.cursor.current = none := by rw [comparisonAt?, hend₁]
    rw [hnone, comparisonAt?_of_stopsItem hkind, Token.isKeyword, hend₁, Token.isKeyword,
      beq_false_of_ne (ne_of_stopsItem hkind (.keyword .IS) rfl)]
    exact matching_replays hin h₁ hstop hleft

end Stage

namespace Reader

variable {env : Setting} {inner : Inner} {depth n : Nat} {u u' r : Reading} {text : String}
  {gs : List Glyph}

theorem attains_comparand (hin : inner.Admits env depth n)
    (h : recovers comparand Render.expr env.dialect n text = true)
    (hstop : (ahead gs).stopsOperand = true)
    (hat : r.At env depth (Glyph.ofText env.dialect text ++ gs)) :
    Attains (comparand env inner) r fun e r' => Render.expr e = text ∧ r'.At env depth gs := by
  refine attains_of_recovers hin h (fun s u r hrest hhosts hfacing hlive => ?_) hat
  subst hrest
  exact (Stage.comparand_replays hhosts hfacing hlive hstop).mono (fun _ _ h => h.text)
    fun _ _ h => h.facing

/-- Where a text is kept of a predicate, the predicate is that text. -/
theorem attains_barePredicate (hin : inner.Admits env depth n)
    (h : recovers barePredicate Render.expr env.dialect n text = true)
    (hstop : (ahead gs).stopsItem = true)
    (hat : r.At env depth (Glyph.ofText env.dialect text ++ gs)) :
    Attains (operandPredicate env inner) r fun p r' =>
      (∃ e, p = .bare e ∧ Render.expr e = text) ∧ r'.At env depth gs := by
  have hbare : Attains (barePredicate env inner) r fun e r' =>
      Render.expr e = text ∧ r'.At env depth gs := by
    refine attains_of_recovers hin h (fun s u r hrest hhosts hfacing hlive => ?_) hat
    subst hrest
    exact (Stage.barePredicate_replays hhosts hfacing hlive hstop).mono (fun _ _ h => h.text)
      fun _ _ h => h.facing
  rcases hbare.unbind with ⟨p, r₁, hread, hkept⟩ | ⟨f, r₁, hread, hunmet⟩
  · rcases hkept.outcome with ⟨e, r', hyields, htext, hat'⟩ | ⟨f, r', hfault, hunmet⟩
    · obtain ⟨rfl, rfl⟩ := bare_of_keptText hyields
      exact .yields hread ⟨⟨e, rfl, htext⟩, hat'⟩
    · -- Giving up the predicate is no fault that no statement leads to.
      cases p with
      | bare e => cases hfault
      | _ => rcases hunmet with rfl | rfl <;> cases hfault
  · exact .unmet hread hunmet

theorem barePredicate_opens {e : Expr} (h : Yields (barePredicate env inner) u e u') :
    u.cursor.current.kind.opensExpression = true := by
  obtain ⟨p, u₁, h, -⟩ := yields_bind.1 h
  obtain ⟨left, u₂, h, -⟩ := yields_bind.1 h
  exact expression_opens h

end Reader

end SqlMarkers
