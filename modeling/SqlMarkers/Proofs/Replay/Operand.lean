/-
SqlMarkers.Proofs.Replay.Operand — operands and expressions in their place.

An expression that is read alone is read in the same way in front of any token that does not
continue an operand.

Both readings see the same tokens up to the end of the expression. There the first one is at
the end of its input and the second one at what follows, and it is only this place that needs
an argument: a reader that goes on by the kind of the current token must not go on there. That
is what the hypotheses on `ahead s.rest` exclude (`Kind.stopsOperand`). Where the first reading
is not at its end yet, the two do the same anyway.

What is nested in an expression ends in front of one of its tokens, so what follows the
expression does not matter there. That the nested readers of the second reading do what those
of the first one do is an assumption here (`Stage.Hosts`).
-/
import SqlMarkers.Proofs.Replay

namespace SqlMarkers

open Glyph

/-- Whether a token of this kind ends the operand in front of it. -/
def Kind.stopsOperand : Kind → Bool
  | .symbol s => !s.isComposite
  | .keyword .DIV | .keyword .MOD => false
  | _ => true

namespace Stage

open Reader

variable {s : Stage} {u r : Reading} {inner inner' : Inner}

/-- The nested readers do in the second reading what they do in the first one, in front of a
token of the text. -/
structure Hosts (s : Stage) (inner inner' : Inner) : Prop where
  query : ∀ {u r}, s.Moved u r → Replays s.Live Any inner.query inner'.query u r
  operand : ∀ {u r}, s.Moved u r → Replays s.Live Any inner.operand inner'.operand u r

/-- A nested query has a scope of its own, which is none of the cursor. -/
theorem Hosts.embed (hin : s.Hosts inner inner') (h : s.Moved u r) :
    Replays s.Moved Any inner.embed inner'.embed u r := by
  intro q u' hembed
  unfold Yields Inner.embed at hembed
  cases hquery : inner.query { u with draft := Draft.startingAt u.draft.parameters } with
  | error f w =>
      rw [hquery] at hembed
      cases hembed
  | ok q' w =>
      rw [hquery] at hembed
      cases hembed
      have hreplayed := hin.query
        (u := { u with draft := Draft.startingAt u.draft.parameters })
        (r := { r with draft := Draft.startingAt r.draft.parameters })
        (h.congr rfl rfl ⟨rfl, rfl⟩) q w hquery
      rcases hreplayed.outcome with ⟨q', r', hq, -, hlive⟩ | ⟨f, r', hq, hunmet⟩
      · refine .yields (a := q') (s := r.leave r' q') ?_
          ⟨trivial, hlive.1.congr rfl rfl ⟨rfl, rfl⟩⟩
        rw [Yields, Inner.embed, show inner'.query _ = .ok q' r' from hq]
        rfl
      · refine .unmet (e := f) (s := r') ?_ hunmet
        rw [Inner.embed, hq]

/-- Two stretches, one of which is the other in its place. -/
structure Spans (s : Stage) (a b : Span) : Prop where
  start : b.start = s.shift + a.start
  stop : b.stop = s.shift + a.stop
  positive : 0 < a.stop
  within : a.stop ≤ Text.width s.alone.source

/-! ## Operands -/

/-- The closing parenthesis is one of the tokens of the text, so both loops end there. Only a `.`
that follows could be noted in the second reading. -/
theorem parentheses_replays (hin : s.Hosts inner inner') (h : s.Facing u r)
    (hdot : ahead s.rest ≠ .symbol .dot) :
    Replays s.Moved s.Spans (parentheses inner) (parentheses inner') u r := by
  refine (accept_replays h (by decide)).bind fun opening opening' u₁ r₁ hopening h₁ => ?_
  refine .repeating (fun depth u r h => ?_) h₁
  split
  · exact .lastEnd (.pure (.stop ⟨hopening.start, h.lastEnd, h.positive, h.within⟩) h)
  · refine .current ?_
    rcases h.facing.current with ⟨hend, hsame⟩ | ⟨hend, -⟩
    · have hnext : ∀ b, Replays s.Moved (Round.Alike Eq s.Spans)
          (do next; return .again b : Reader (Round Nat Span)) (do next; return .again b) u r :=
        fun b => (next_replays h.facing hend).bind fun _ _ _ _ _ h => .pure (.again rfl) h
      rw [hsame.kind]
      split
      · exact .fails fun _ _ => yields_failAt.1
      · exact .up (hnext _)
      · exact .down id (hnext _)
      · refine (hin.embed h).bind fun _ _ _ _ _ h => ?_
        refine (modifyDraft_replays h _ _).bind fun _ _ _ _ _ h => .pure (.again rfl) h
      · exact (consume_replays h.facing hend hdot).bind fun _ _ _ _ _ h => .pure (.again rfl) h
    · rw [hend]
      exact .fails fun _ _ => yields_failAt.1

/-- A `CASE` block ends with an `END` of the text. -/
theorem caseBlock_replays (hin : s.Hosts inner inner') (h : s.Facing u r)
    (hdot : ahead s.rest ≠ .symbol .dot) :
    Replays s.Moved Eq (caseBlock inner) (caseBlock inner') u r := by
  refine (accept_replays h (by decide)).bind fun opening opening' u₁ r₁ _ h₁ => ?_
  refine .repeating (fun depth u r h => ?_) h₁
  split
  · exact .pure (.stop rfl) h
  · refine .current ?_
    rcases h.facing.current with ⟨hend, hsame⟩ | ⟨hend, -⟩
    · have hnext : ∀ b, Replays s.Moved (Round.Alike Eq Eq)
          (do next; return .again b : Reader (Round Nat Unit)) (do next; return .again b) u r :=
        fun b => (next_replays h.facing hend).bind fun _ _ _ _ _ h => .pure (.again rfl) h
      rw [hsame.kind]
      split
      · exact .fails fun _ _ => yields_failAt.1
      · exact (parentheses_replays hin h.facing hdot).bind fun _ _ _ _ _ h => .pure (.again rfl) h
      · exact .up (hnext _)
      · exact .down id (hnext _)
      · exact (consume_replays h.facing hend hdot).bind fun _ _ _ _ _ h => .pure (.again rfl) h
    · rw [hend]
      exact .fails fun _ _ => yields_failAt.1

/-- A call is recognized by the parenthesis behind its name, which must not be one that follows. -/
theorem atCall_replays {S : Reading → Reading → Prop} (h : s.Facing u r) (hS : S u r)
    (hend : u.cursor.current.kind ≠ .endOfInput) (hcall : ahead s.rest ≠ .symbol .leftParen) :
    Replays S Eq atCall atCall u r := by
  rcases h.current with ⟨-, hsame⟩ | ⟨heq, -⟩
  · refine .current ?_
    simp only [hsame.isName, hsame.isKeyword]
    split
    · exact peek_replays h hend fun t t' ht => .pure (ht.isSymbol hcall).symm hS
    · exact .pure rfl hS
  · exact absurd heq hend

/-- Signs are read alike as long as the text goes on behind them: a sign that follows the
text is not taken for one of its own. -/
theorem signs_replays (h : s.Facing u r) {a : Unit} {u' : Reading} (hsigns : Yields signs u a u')
    (hend : u'.cursor.current.kind ≠ .endOfInput) :
    Attains signs r fun b r' => a = b ∧ s.Facing u' r' := by
  refine Replays.repeating_live (fun u => u.cursor.current.kind ≠ .endOfInput)
    ?_ ?_ h hsigns hend
  · intro _ u round u' hu hround
    have hround := bind_current hround
    rw [not_not.1 hu] at hround
    obtain ⟨-, rfl⟩ := yields_pure.1 hround
    exact hu
  · intro _ u r hlive h
    rcases h.current with ⟨-, hsame⟩ | ⟨heq, -⟩
    · refine .current ?_
      rw [hsame.kind]
      split
      · exact (next_replays h hlive).bind fun _ _ _ _ _ h => .pure (.again rfl) h.facing
      · exact .pure (.stop rfl) h
    · exact absurd heq hlive

/-- What stops an operand is none of the signs that continue one. -/
theorem stopsOperand_ne {k : Kind} (h : k.stopsOperand = true) (mark : Symbol)
    (hmark : mark.isComposite = true) : k ≠ .symbol mark := by
  rintro rfl
  simp [Kind.stopsOperand, hmark] at h

/-- No operand starts at the end of the input. -/
theorem atCall_end {u u' : Reading} {b : Bool} (hend : u.cursor.current.kind = .endOfInput)
    (h : Yields atCall u b u') : b = false := by
  have h := bind_current h
  simp only [Token.isName, Token.isKeyword, hend] at h
  obtain ⟨rfl, -⟩ := yields_pure.1 h
  rfl

/-- An operand ends in front of what stops it, in both readings at the same token. -/
theorem operand_replays (hin : s.Hosts inner inner') (h : s.Facing u r)
    (hstop : (ahead s.rest).stopsOperand = true) :
    Replays s.Moved Eq (operand inner) (operand inner') u r := by
  have hdot := stopsOperand_ne hstop .dot rfl
  have hcall := stopsOperand_ne hstop .leftParen rfl
  have hparen : ∀ u r, s.Facing u r → Replays s.Moved Eq (do let _ ← parentheses inner)
      (do let _ ← parentheses inner') u r := fun u r h =>
    (parentheses_replays hin h hdot).bind fun _ _ _ _ _ h => .pure rfl h
  have hnext : ∀ u r, s.Facing u r → u.cursor.current.kind ≠ .endOfInput →
      Replays s.Moved Eq (do next; let _ ← parentheses inner)
        (do next; let _ ← parentheses inner') u r := fun u r h hend =>
    (next_replays h hend).bind fun _ _ _ _ _ h => hparen _ _ h.facing
  intro a u' hrun
  obtain ⟨_, u₁, hsigns, hrun⟩ := yields_bind.1 hrun
  by_cases hend : u₁.cursor.current.kind = .endOfInput
  · have hrun := bind_current hrun
    rw [hend] at hrun
    obtain ⟨call, u₂, hcallable, hrun⟩ := yields_bind.1 hrun
    obtain rfl := atCall_end hend hcallable
    exact (yields_failExpected.1 hrun).elim
  · refine (signs_replays h hsigns hend).bind ?_
    rintro _ r₁ ⟨_, h₁⟩
    rcases h₁.current with ⟨-, hsame⟩ | ⟨heq, -⟩
    · refine Replays.current (S := s.Moved) (Q := Eq) ?_ a u' hrun
      rw [hsame.kind]
      split
      · exact hparen _ _ h₁
      · exact caseBlock_replays hin h₁ hdot
      · exact hnext _ _ h₁ hend
      · refine (next_replays h₁ hend).bind fun _ _ u₂ r₂ _ h₂ => ?_
        refine (hin.operand h₂).bind fun _ _ u₃ r₃ _ h₃ => .current ?_
        rcases h₃.1.facing.current with ⟨-, hmeasure⟩ | ⟨heq, -⟩
        · rw [hmeasure.isName]
          split
          · exact (next_replays h₃.1.facing h₃.2).bind fun _ _ _ _ _ h =>
              recordPassage_replays h _ _ _
          · exact .pure rfl h₃.1
        · exact absurd heq h₃.2
      · refine (atCall_replays (S := fun u r => u = u₁ ∧ r = r₁) h₁ ⟨rfl, rfl⟩ hend hcall).bind ?_
        rintro call _ _ _ rfl ⟨rfl, rfl⟩
        split
        · exact hnext _ _ h₁ hend
        · split
          · exact consume_replays h₁ hend hdot
          · exact .fails fun _ _ => yields_failExpected.1
    · exact absurd heq hend

/-! ## Expressions -/

/-- Operators with their operands, members and arguments. -/
theorem continuation_replays (hin : s.Hosts inner inner') (h : s.Moved u r)
    (hstop : (ahead s.rest).stopsOperand = true) :
    Replays s.Moved Eq (continuation inner) (continuation inner') u r := by
  have hdot := stopsOperand_ne hstop .dot rfl
  refine .repeating (fun found u r h => ?_) h
  refine .current ?_
  rcases h.facing.current with ⟨hend, hsame⟩ | ⟨hend, hahead⟩
  · have hoperand : Replays s.Moved (Round.Alike Eq Eq)
        (do next; operand inner; return .again true : Reader (Round Bool Bool))
        (do next; operand inner'; return .again true) u r :=
      (next_replays h.facing hend).bind fun _ _ _ _ _ h =>
        (operand_replays hin h.facing hstop).bind fun _ _ _ _ _ h => .pure (.again rfl) h
    rw [hsame.kind]
    split
    · exact (parentheses_replays hin h.facing hdot).bind fun _ _ _ _ _ h => .pure (.again rfl) h
    · refine (next_replays h.facing hend).bind fun _ _ u₁ r₁ _ h₁ => .current ?_
      rcases h₁.facing.current with ⟨hend₁, hsame₁⟩ | ⟨hend₁, -⟩
      · rw [hsame₁.isName, hsame₁.isSymbol, hsame₁.isAnyKeyword]
        split
        · exact (consume_replays h₁.facing hend₁ hdot).bind fun _ _ _ _ _ h => .pure (.again rfl) h
        · exact .fails fun _ _ => yields_failExpected.1
      · simp only [Token.isName, Token.isSymbol, Token.isAnyKeyword, hend₁]
        exact .fails fun _ _ => yields_failExpected.1
    · split
      · exact hoperand
      · exact .pure (.stop rfl) h
    · exact hoperand
    · exact hoperand
    · exact .pure (.stop rfl) h
  · rw [hend, hahead]
    generalize ahead s.rest = k at hstop
    show Replays _ _ (pure (Round.stop found)) _ u r
    split
    · cases hstop
    · cases hstop
    · simp only [Kind.stopsOperand, Bool.not_eq_true'] at hstop
      rw [hstop]
      exact .pure (.stop rfl) h
    · cases hstop
    · cases hstop
    · exact .pure (.stop rfl) h

/-- A leaf that goes on is kept as text. The two texts are cut out at places that differ by the
shift, so they are equal. -/
theorem leafOr_replays (hin : s.Hosts inner inner') (h : s.Moved u r)
    (hstop : (ahead s.rest).stopsOperand = true) (start : Nat) {leaf leaf' : Expr}
    (hleaf : s.Copies leaf leaf') :
    Replays s.Moved s.Copies (leafOr s.alone inner start leaf)
      (leafOr s.env inner' (s.shift + start) leaf') u r := by
  refine (continuation_replays hin h hstop).bind ?_
  rintro found _ u₁ r₁ rfl h₁
  split
  · exact verbatimFrom_replays h₁ start
  · exact .pure hleaf h₁

/-- A member behind a name is one of the text, since no `.` follows it. -/
theorem namedExpression_replays (hin : s.Hosts inner inner') (h : s.Facing u r)
    (hend : u.cursor.current.kind ≠ .endOfInput) (hstop : (ahead s.rest).stopsOperand = true) :
    Replays s.Moved s.Copies (namedExpression s.alone inner)
      (namedExpression s.env inner') u r := by
  have hdot := stopsOperand_ne hstop .dot rfl
  rcases h.current with ⟨-, hsame⟩ | ⟨heq, -⟩
  · refine .current ((next_replays h hend).bind fun _ _ u₁ r₁ _ h₁ => ?_)
    refine (nameOf_replays h₁ hsame).bind ?_
    rintro owner _ u₂ r₂ rfl h₂
    rw [hsame.start]
    refine atSymbol_replays h₂.facing hdot (fun hmark => ?_)
      (leafOr_replays hin h₂ hstop _ ⟨rfl, hsame.start⟩)
    refine (noteOwner_replays (S := fun u r => s.Moved u r ∧ u.cursor = u₂.cursor) hsame
      fun _ _ => ⟨h₂.congr rfl rfl ⟨rfl, rfl⟩, rfl⟩).bind ?_
    rintro _ _ u₃ r₃ _ ⟨h₃, hcursor⟩
    have hend₃ : u₃.cursor.current.kind ≠ .endOfInput := by
      rw [hcursor, hmark]
      decide
    refine (next_replays h₃.facing hend₃).bind fun _ _ u₄ r₄ _ h₄ => .current ?_
    rcases h₄.facing.current with ⟨hend₄, hsame₄⟩ | ⟨hend₄, -⟩
    · have hmember : ∀ member : String, Replays s.Moved s.Copies
          (do
            next
            recordPassage .member u₄.cursor.current.span
            let stop ← lastEnd
            leafOr s.alone inner u.cursor.current.span.start
              (.member ⟨owner, u.cursor.current.span⟩ member
                ⟨u.cursor.current.span.start, stop⟩))
          (do
            next
            recordPassage .member r₄.cursor.current.span
            let stop ← lastEnd
            leafOr s.env inner' (s.shift + u.cursor.current.span.start)
              (.member ⟨owner, r.cursor.current.span⟩ member
                ⟨s.shift + u.cursor.current.span.start, stop⟩)) u₄ r₄ := by
        intro member
        refine (next_replays h₄.facing hend₄).bind fun _ _ u₅ r₅ _ h₅ => ?_
        refine (recordPassage_replays h₅ _ _ _).bind fun _ _ u₆ r₆ _ h₆ => .lastEnd ?_
        exact leafOr_replays hin h₆ hstop _ ⟨rfl, rfl⟩
      rw [hsame₄.isSymbol, hsame₄.isAnyKeyword, hsame₄.kind]
      split
      · exact hmember "*"
      · split
        · refine (nameOf_replays (S := fun u r => u = u₄ ∧ r = r₄) ⟨rfl, rfl⟩ hsame₄).bind ?_
          rintro member _ _ _ rfl ⟨rfl, rfl⟩
          exact hmember member
        · exact .fails fun _ _ hfail => bind_failExpected hfail
    · simp only [Token.isSymbol, Token.isAnyKeyword, hend₄]
      exact .fails fun _ _ hfail => bind_failExpected hfail
  · exact absurd heq hend

/-- An expression in its place is rendered like the one that was read alone. -/
theorem expression_replays (hin : s.Hosts inner inner') (h : s.Facing u r)
    (hend : u.cursor.current.kind ≠ .endOfInput) (hstop : (ahead s.rest).stopsOperand = true) :
    Replays s.Moved s.Copies (expression s.alone inner) (expression s.env inner') u r := by
  have hcall := stopsOperand_ne hstop .leftParen rfl
  rcases h.current with ⟨-, hsame⟩ | ⟨heq, -⟩
  · refine .current ?_
    rw [hsame.kind, hsame.start]
    split
    · refine (next_replays h hend).bind fun _ _ u₁ r₁ _ h₁ => ?_
      refine (nextParameter_replays fun _ _ => h₁.congr rfl rfl ⟨rfl, rfl⟩).bind
        fun _ _ u₂ r₂ _ h₂ => ?_
      exact leafOr_replays hin h₂ hstop _ ⟨rfl, hsame.start⟩
    iterate 2
      refine (next_replays h hend).bind fun _ _ u₁ r₁ _ h₁ => ?_
      rw [hsame.integer?]
      split
      · exact leafOr_replays hin h₁ hstop _ ⟨rfl, hsame.start⟩
      · exact .fails fun _ _ => yields_failAt.1
    · refine (next_replays h hend).bind fun _ _ u₁ r₁ _ h₁ => ?_
      rw [hsame.real?]
      split
      · exact leafOr_replays hin h₁ hstop _ ⟨rfl, hsame.start⟩
      · exact .fails fun _ _ => yields_failAt.1
    · refine (next_replays h hend).bind fun _ _ u₁ r₁ _ h₁ => ?_
      rw [s.dialect, hsame.chars?, hsame.isNational]
      exact leafOr_replays hin h₁ hstop _ ⟨rfl, hsame.start⟩
    · have hchoice : ∀ composite : Bool, Replays s.Moved s.Copies
          (if composite then do
            operand inner
            let _ ← continuation inner
            verbatimFrom s.alone u.cursor.current.span.start
          else namedExpression s.alone inner)
          (if composite then do
            operand inner'
            let _ ← continuation inner'
            verbatimFrom s.env (s.shift + u.cursor.current.span.start)
          else namedExpression s.env inner') u r := by
        intro composite
        split
        · refine (operand_replays hin h hstop).bind fun _ _ u₁ r₁ _ h₁ => ?_
          refine (continuation_replays hin h₁ hstop).bind fun _ _ u₂ r₂ _ h₂ => ?_
          exact verbatimFrom_replays h₂ _
        · exact namedExpression_replays hin h hend hstop
      rw [hsame.isName]
      split
      · refine (atCall_replays (S := fun u' r' => u' = u ∧ r' = r) h ⟨rfl, rfl⟩ hend hcall).bind ?_
        rintro composite _ _ _ rfl ⟨rfl, rfl⟩
        exact hchoice composite
      · exact hchoice true
  · exact absurd heq hend

end Stage

end SqlMarkers
