/-
SqlMarkers.Proofs.Trail.Operand — the trails of operands and expressions.

An operand ends with nothing loose: behind its last token it was looked for a
`.`, unless that token is no name. What continues an expression is read on
until no `.` follows (`continuation_yields`), so an expression is never
followed by one (`expression_yields`).

Operands put nothing in hand by themselves. A nested query in parentheses is put in hand and
attached to the scope in one step (`Inner.Tracked.attach`), since it is no part of the text
around it; a `?` is counted where it is consumed.
-/
import SqlMarkers.Proofs.Trail.Step

namespace SqlMarkers

variable {env : Setting} {inner : Inner} {s r r' : Reading} {h : List Part}

namespace Reader

/-! ## Operands -/

/-- Inside a block that is `depth` levels deep. When it is closed, the closing
mark was consumed last. -/
def Within (env : Setting) (s : Reading) (h : List Part) (depth : Nat) (r : Reading) : Prop :=
  Running env s h r ∧ (depth = 0 → Settled env s h r)

end Reader

theorem Settled.within (hr : Settled env s h r) {depth : Nat} : Reader.Within env s h depth r :=
  ⟨hr.running, fun _ => hr⟩

theorem Running.within (hr : Running env s h r) {depth : Nat} (hdepth : depth ≠ 0) :
    Reader.Within env s h depth r :=
  ⟨hr, fun hzero => absurd hzero hdepth⟩

namespace Reader

/-- A pair of parentheses ends with the closing one, so nothing is open behind it. Within it a
loose name may well stand in front of a `.`, which the loop then consumes. -/
theorem parentheses_yields (hi : inner.Tracked env) (hr : Reached env s h r) {span : Span}
    (hn : Yields (parentheses inner) r span r') : Settled env s h r' := by
  obtain ⟨opening, r₁, hopen, hn⟩ := yields_bind.1 hn
  refine repeatStep_yields (Within env s h) (fun _ => Settled env s h) ?_
    (hr.openParen hopen).within hn
  rintro depth r₂ round r₃ ⟨hr₂, hclosed⟩ hround
  rcases yields_ite.1 hround with ⟨hzero, hround⟩ | ⟨hzero, hround⟩
  · replace hround := bind_lastEnd hround
    obtain ⟨rfl, rfl⟩ := yields_pure.1 hround
    exact hclosed hzero
  · replace hround := bind_current hround
    split at hround
    · exact (yields_failAt.1 hround).elim
    · rename_i hkind
      obtain ⟨_, hnext, rfl⟩ := yields_map.1 (Counter.bind_up hround)
      exact (hr₂.reached.nextParen (.inl hkind) hnext).within
    · rename_i hkind
      obtain ⟨_, hnext, rfl⟩ := yields_map.1 (Counter.bind_down hround)
      exact (hr₂.reached.nextParen (.inr hkind) hnext).within
    · obtain ⟨q, r₄, hembed, hround⟩ := yields_bind.1 hround
      obtain ⟨_, hmod, rfl⟩ := yields_map.1 hround
      obtain rfl := yields_modifyDraft.1 hmod
      exact (hi.attach hr₂.reached hembed).within hzero
    · rename_i hend _ _ _
      obtain ⟨_, hconsume, rfl⟩ := yields_map.1 hround
      exact (hr₂.consume (Token.isEnd_eq_false.2 hend) hconsume).within hzero

/-- A `CASE` block ends with `END`, which is no name. -/
theorem caseBlock_yields (hi : inner.Tracked env) (hr : Reached env s h r) {u : Unit}
    (hn : Yields (caseBlock inner) r u r') : Settled env s h r' := by
  obtain ⟨opening, r₁, hopen, hn⟩ := yields_bind.1 hn
  obtain ⟨-, hcase, hnext⟩ := acceptKeyword_yields hopen
  refine repeatStep_yields (Within env s h) (fun _ => Settled env s h) ?_
    (hr.nextMarkOf hcase hnext rfl rfl).within hn
  rintro depth r₂ round r₃ ⟨hr₂, hclosed⟩ hround
  rcases yields_ite.1 hround with ⟨hzero, hround⟩ | ⟨hzero, hround⟩
  · obtain ⟨rfl, rfl⟩ := yields_pure.1 hround
    exact hclosed hzero
  · replace hround := bind_current hround
    split at hround
    · exact (yields_failAt.1 hround).elim
    · obtain ⟨_, hparens, rfl⟩ := yields_map.1 hround
      exact (parentheses_yields hi hr₂.reached hparens).within
    · rename_i hkind
      obtain ⟨_, hnext, rfl⟩ := yields_map.1 (Counter.bind_up hround)
      exact (hr₂.reached.nextMarkOf hkind hnext rfl rfl).within
    · rename_i hkind
      obtain ⟨_, hnext, rfl⟩ := yields_map.1 (Counter.bind_down hround)
      exact (hr₂.reached.nextMarkOf hkind hnext rfl rfl).within
    · rename_i hend _ _ _
      obtain ⟨_, hconsume, rfl⟩ := yields_map.1 hround
      exact (hr₂.consume (Token.isEnd_eq_false.2 hend) hconsume).within hzero

/-- A look at a call moves nothing; what is called is named by a plain token. -/
theorem atCall_yields {b : Bool} (hn : Yields atCall r b r') :
    r = r' ∧ (b = true → r.cursor.current.kind.isPlain = true) := by
  replace hn := bind_current hn
  rcases yields_ite.1 hn with ⟨hcall, hn⟩ | ⟨-, hn⟩
  · obtain ⟨t, hpeek, -⟩ := yields_map.1 hn
    refine ⟨(peek_yields hpeek).2, fun _ => ?_⟩
    simp only [Bool.or_eq_true, Token.isKeyword_iff] at hcall
    rcases hcall with ((((hname | hk) | hk) | hk) | hk) | hk
    · exact Token.isPlain_of_isName hname
    all_goals
      rw [hk]
      rfl
  · obtain ⟨rfl, rfl⟩ := yields_pure.1 hn
    exact ⟨rfl, fun hb => by cases hb⟩

/-- Signs are plain. -/
theorem signs_yields (hr : Reached env s h r) {u : Unit} (hn : Yields signs r u r') :
    Reached env s h r' := by
  refine repeatStep_yields (fun _ => Reached env s h) (fun _ => Reached env s h) ?_ hr hn
  intro _ r₁ round r₂ hr₁ hround
  replace hround := bind_current hround
  rcases yields_ite.1 hround with ⟨hsign, hround⟩ | ⟨-, hround⟩
  · obtain ⟨_, hnext, rfl⟩ := yields_map.1 hround
    refine (hr₁.next ?_ hnext).reached
    simp only [isSign, Bool.or_eq_true, beq_iff_eq] at hsign
    rcases hsign with (((hk | hk) | hk) | hk) | hk
    all_goals
      rw [hk]
      rfl
  · obtain ⟨rfl, rfl⟩ := yields_pure.1 hround
    exact hr₁

/-- An operand ends with a parenthesis, with `END`, with a unit that was passed, or with a token
behind which it was looked for a `.`. -/
theorem operand_yields (hi : inner.Tracked env) (hr : Reached env s h r) {u : Unit}
    (hn : Yields (operand inner) r u r') : Running env s h r' := by
  obtain ⟨_, r₁, hsigns, hn⟩ := yields_bind.1 hn
  have hr₁ := signs_yields hr hsigns
  replace hn := bind_current hn
  split at hn
  · obtain ⟨_, hparens, -⟩ := yields_map.1 hn
    exact (parentheses_yields hi hr₁ hparens).running
  · exact (caseBlock_yields hi hr₁ hn).running
  · rename_i hkind
    obtain ⟨_, r₂, hnext, hn⟩ := yields_bind.1 hn
    obtain ⟨_, hparens, -⟩ := yields_map.1 hn
    exact (parentheses_yields hi (hr₁.nextOf hkind hnext rfl).reached hparens).running
  · rename_i hkind
    obtain ⟨_, r₂, hnext, hn⟩ := yields_bind.1 hn
    obtain ⟨_, r₃, hoperand, hn⟩ := yields_bind.1 hn
    have hr₃ := hi.operand (hr₁.nextOf hkind hnext rfl).reached hoperand
    replace hn := bind_current hn
    rcases yields_ite.1 hn with ⟨hname, hn⟩ | ⟨-, hn⟩
    · obtain ⟨_, r₄, hnext, hn⟩ := yields_bind.1 hn
      obtain rfl := yields_recordPassage.1 hn
      exact (hr₃.reached.glance .unit (Token.isPlain_of_isName hname) hnext).running
    · obtain ⟨-, rfl⟩ := yields_pure.1 hn
      exact hr₃
  · obtain ⟨call, r₂, hcall, hn⟩ := yields_bind.1 hn
    obtain ⟨rfl, hplain⟩ := atCall_yields hcall
    rcases yields_ite.1 hn with ⟨htrue, hn⟩ | ⟨-, hn⟩
    · obtain ⟨_, r₃, hnext, hn⟩ := yields_bind.1 hn
      obtain ⟨_, hparens, -⟩ := yields_map.1 hn
      exact (parentheses_yields hi (hr₁.next (hplain htrue) hnext).reached hparens).running
    · rcases yields_ite.1 hn with ⟨hoperand, hn⟩ | ⟨-, hn⟩
      · have hdot : r₁.cursor.current.isSymbol .dot = false := by
          cases hk : r₁.cursor.current.kind <;> simp_all [Kind.isOperand, Token.isSymbol]
        have hend : r₁.cursor.current.isEnd = false := by
          cases hk : r₁.cursor.current.kind <;> simp_all [Kind.isOperand, Token.isEnd]
        exact (hr₁.settle hdot).1.running.consume hend hn
      · exact (yields_failExpected.1 hn).elim

/-- Behind what continues an expression no `.` follows. -/
theorem continuation_yields (hi : inner.Tracked env) (hr : Running env s h r) {found : Bool}
    (hn : Yields (continuation inner) r found r') : Ended env s h r' := by
  refine repeatStep_yields (fun _ => Running env s h) (fun _ => Ended env s h) ?_ hr hn
  intro found r₁ round r₂ hr₁ hround
  replace hround := bind_current hround
  split at hround
  · obtain ⟨_, hparens, rfl⟩ := yields_map.1 hround
    exact (parentheses_yields hi hr₁.reached hparens).running
  · rename_i hkind
    obtain ⟨_, r₃, hnext, hround⟩ := yields_bind.1 hround
    have hr₃ := hr₁.dot (Token.isSymbol_iff.2 hkind) hnext
    replace hround := bind_current hround
    rcases yields_ite.1 hround with ⟨hmember, hround⟩ | ⟨-, hround⟩
    · obtain ⟨_, hconsume, rfl⟩ := yields_map.1 hround
      have hend : r₃.cursor.current.isEnd = false := by
        simp only [Bool.or_eq_true] at hmember
        rcases hmember with (hname | hstar) | hkeyword
        · exact Token.isEnd_of_isName hname
        · exact Token.isEnd_of_isSymbol hstar
        · exact Token.isEnd_of_isPlain (Token.isPlain_of_isAnyKeyword hkeyword)
      exact hr₃.running.consume hend hconsume
    · exact (yields_failExpected.1 hround).elim
  · rename_i mark hnotParen hnotDot hkind
    rcases yields_ite.1 hround with ⟨hcomposite, hround⟩ | ⟨-, hround⟩
    · obtain ⟨_, r₃, hnext, hround⟩ := yields_bind.1 hround
      obtain ⟨_, hoperand, rfl⟩ := yields_map.1 hround
      have hplain : (Kind.symbol mark).isPlain = true := by
        cases mark <;> simp_all [Kind.isPlain, Symbol.isComposite]
      exact operand_yields hi (hr₁.reached.nextOf hkind hnext hplain).reached hoperand
    · obtain ⟨rfl, rfl⟩ := yields_pure.1 hround
      exact hr₁.reached.settle (by simpa [Token.isSymbol, hkind] using hnotDot)
  · rename_i hkind
    obtain ⟨_, r₃, hnext, hround⟩ := yields_bind.1 hround
    obtain ⟨_, hoperand, rfl⟩ := yields_map.1 hround
    exact operand_yields hi (hr₁.reached.nextOf hkind hnext rfl).reached hoperand
  · rename_i hkind
    obtain ⟨_, r₃, hnext, hround⟩ := yields_bind.1 hround
    obtain ⟨_, hoperand, rfl⟩ := yields_map.1 hround
    exact operand_yields hi (hr₁.reached.nextOf hkind hnext rfl).reached hoperand
  · rename_i hnotDot _ _ _
    obtain ⟨rfl, rfl⟩ := yields_pure.1 hround
    exact hr₁.reached.settle (by simpa [Token.isSymbol] using hnotDot)

/-! ## Expressions -/

/-- Either the leaf stays as it is, or it becomes part of a kept text. -/
theorem leafOr_yields (hi : inner.Tracked env) {leaf x : Expr} {start : Nat}
    (hr : Running env s (h ++ leaf.parts) r) (hn : Yields (leafOr env inner start leaf) r x r') :
    Ended env s (h ++ x.parts) r' := by
  obtain ⟨found, r₁, hcont, hn⟩ := yields_bind.1 hn
  have hr₁ := continuation_yields hi hr hcont
  rcases yields_ite.1 hn with ⟨-, hn⟩ | ⟨-, hn⟩
  · exact (hr₁.drop leaf).verbatimFrom hn
  · obtain ⟨rfl, rfl⟩ := yields_pure.1 hn
    exact hr₁

/-- A leaf that keeps nothing. -/
theorem emptyLeafOr_yields (hi : inner.Tracked env) {leaf x : Expr} {start : Nat}
    (hr : Running env s h r) (hn : Yields (leafOr env inner start leaf) r x r')
    (hleaf : leaf.parts = []) : Ended env s (h ++ x.parts) r' := by
  refine leafOr_yields hi ?_ hn
  rwa [hleaf, List.append_nil]

/-- The name behind a `.` is consumed without a look at what follows. -/
theorem member_yields (hi : inner.Tracked env) (hr : Reached env s h r)
    (hplain : r.cursor.current.kind.isPlain = true) {start : Nat} {owner : Ident}
    {member : String} {x : Expr}
    (hn : Yields (do
      next
      recordPassage .member r.cursor.current.span
      let stop ← lastEnd
      leafOr env inner start (.member owner member ⟨start, stop⟩)) r x r') :
    Ended env s (h ++ x.parts) r' := by
  obtain ⟨_, r₁, hnext, hn⟩ := yields_bind.1 hn
  obtain ⟨_, r₂, hpass, hn⟩ := yields_bind.1 hn
  obtain rfl := yields_recordPassage.1 hpass
  replace hn := bind_lastEnd hn
  exact emptyLeafOr_yields hi (hr.glance .member hplain hnext).running hn rfl

/-- A name, noted as an owner if a member follows. Anything that goes on behind it turns it into
kept text. -/
theorem namedExpression_yields (hi : inner.Tracked env) (hr : Reached env s h r)
    (hname : r.cursor.current.isName = true) {x : Expr}
    (hn : Yields (namedExpression env inner) r x r') : Ended env s (h ++ x.parts) r' := by
  replace hn := bind_current hn
  obtain ⟨_, r₁, hnext, hn⟩ := yields_bind.1 hn
  obtain ⟨name, r₂, hdecoded, hn⟩ := yields_bind.1 hn
  obtain ⟨-, rfl⟩ := yields_nameOf.1 hdecoded
  replace hn := bind_atSymbol hn
  rcases yields_ite.1 hn with ⟨hdot, hn⟩ | ⟨hdot, hn⟩
  · obtain ⟨_, r₂, hnote, hn⟩ := yields_bind.1 hn
    obtain ⟨_, hdecoded, rfl⟩ := yields_noteOwner.1 hnote
    obtain ⟨_, r₃, hnext₃, hn⟩ := yields_bind.1 hn
    have hr₃ := ((hr.owner hname hdecoded hnext hdot).dot hdot hnext₃).reached
    replace hn := bind_current hn
    rcases yields_ite.1 hn with ⟨hstar, hn⟩ | ⟨-, hn⟩
    · refine member_yields hi hr₃ ?_ (bind_pure hn)
      rw [Token.isSymbol_iff.1 hstar]
      rfl
    · rcases yields_ite.1 hn with ⟨hword, hn⟩ | ⟨-, hn⟩
      · obtain ⟨_, _, hdecoded, hn⟩ := yields_bind.1 hn
        obtain ⟨-, rfl⟩ := yields_nameOf.1 hdecoded
        refine member_yields hi hr₃ ?_ hn
        simp only [Bool.or_eq_true, decide_eq_true_eq] at hword
        rcases hword with hident | hkeyword
        · rw [hident]
          rfl
        · exact Token.isPlain_of_isAnyKeyword hkeyword
      · exact (bind_failExpected hn).elim
  · have hr₁ := hr.next (Token.isPlain_of_isName hname) hnext
    exact emptyLeafOr_yields hi (hr₁.reached.settle (Bool.eq_false_iff.2 hdot)).1.running hn rfl

/-- An operand with all that continues it is kept as text, which is its one part. -/
theorem composite_yields (hi : inner.Tracked env) (hr : Reached env s h r) {start : Nat} {x : Expr}
    (hn : Yields (do
      operand inner
      let _ ← continuation inner
      verbatimFrom env start) r x r') : Ended env s (h ++ x.parts) r' := by
  obtain ⟨_, r₁, hoperand, hn⟩ := yields_bind.1 hn
  obtain ⟨_, r₂, hcont, hn⟩ := yields_bind.1 hn
  have hr₂ := continuation_yields hi (operand_yields hi hr hoperand) hcont
  exact hr₂.verbatimFrom hn

/-- No `.` follows an expression. -/
theorem expression_yields (hi : inner.Tracked env) (hr : Reached env s h r) {x : Expr}
    (hn : Yields (expression env inner) r x r') : Ended env s (h ++ x.parts) r' := by
  replace hn := bind_current hn
  split at hn
  · rename_i hkind
    obtain ⟨_, r₁, hnext, hn⟩ := yields_bind.1 hn
    obtain ⟨index, r₂, hcount, hn⟩ := yields_bind.1 hn
    obtain ⟨rfl, rfl⟩ := yields_nextParameter hcount
    refine leafOr_yields hi ?_ hn
    obtain ⟨c, hc, rfl⟩ := yields_onCursor.1 hnext
    exact (hr.count (Token.isSymbol_iff.2 hkind) hnext).running
  · rename_i hkind
    obtain ⟨_, r₁, hnext, hn⟩ := yields_bind.1 hn
    have hr₁ := hr.nextMarkOf hkind hnext rfl rfl
    split at hn
    · exact emptyLeafOr_yields hi hr₁.running hn rfl
    · exact (yields_failAt.1 hn).elim
  · rename_i hkind
    obtain ⟨_, r₁, hnext, hn⟩ := yields_bind.1 hn
    have hr₁ := hr.nextMarkOf hkind hnext rfl rfl
    split at hn
    · exact emptyLeafOr_yields hi hr₁.running hn rfl
    · exact (yields_failAt.1 hn).elim
  · rename_i hkind
    obtain ⟨_, r₁, hnext, hn⟩ := yields_bind.1 hn
    have hr₁ := hr.nextMarkOf hkind hnext rfl rfl
    split at hn
    · exact emptyLeafOr_yields hi hr₁.running hn rfl
    · exact (yields_failAt.1 hn).elim
  · rename_i hkind
    obtain ⟨_, r₁, hnext, hn⟩ := yields_bind.1 hn
    exact emptyLeafOr_yields hi (hr.nextMarkOf hkind hnext rfl rfl).running hn rfl
  · rcases yields_ite.1 hn with ⟨hname, hn⟩ | ⟨-, hn⟩
    · obtain ⟨call, r₁, hcall, hn⟩ := yields_bind.1 hn
      obtain ⟨rfl, -⟩ := atCall_yields hcall
      rcases yields_ite.1 hn with ⟨-, hn⟩ | ⟨-, hn⟩
      · exact composite_yields hi hr hn
      · exact namedExpression_yields hi hr hname hn
    · exact composite_yields hi hr (bind_pure hn)

/-! ## Aliases -/

/-- Decoding an alias moves nothing. -/
theorem aliasOf_yields {t : Token} {name : String} (hn : Yields (aliasOf env t) r name r') :
    r = r' := by
  rcases yields_ite.1 hn with ⟨-, hn⟩ | ⟨-, hn⟩
  · exact (yields_pure.1 hn).2
  · exact (yields_nameOf.1 hn).2

/-- An alias is consumed without a look at what follows, so its name may be loose. The scope does
not change. -/
theorem optionalAlias_yields (hr : Rested env s h r) {name : Option String}
    (hn : Yields (optionalAlias env) r name r') : Rested env s h r' ∧ r'.draft = r.draft := by
  obtain ⟨marked, r₁, hskip, hn⟩ := yields_bind.1 hn
  have hr₁ := hr.skipKeyword hskip
  have htake : ∀ taken : Bool, (taken = true → r₁.cursor.current.kind.isPlain = true) →
      Yields (if taken then do
          next
          return some (← aliasOf env r₁.cursor.current)
        else return none) r₁ name r' → Rested env s h r' ∧ r'.draft = r.draft := by
    intro taken hplain hn
    rw [← skipKeyword_draft hskip]
    rcases yields_ite.1 hn with ⟨htaken, hn⟩ | ⟨-, hn⟩
    · obtain ⟨_, r₂, hnext, hn⟩ := yields_bind.1 hn
      obtain ⟨_, halias, -⟩ := yields_map.1 hn
      obtain rfl := aliasOf_yields halias
      exact ⟨hr₁.reached.next (hplain htaken) hnext, next_draft hnext⟩
    · obtain ⟨-, rfl⟩ := yields_pure.1 hn
      exact ⟨hr₁, rfl⟩
  replace hn := bind_current hn
  rcases yields_ite.1 hn with ⟨-, hn⟩ | ⟨-, hn⟩
  · split at hn
    · exact htake false (by simp) (bind_pure hn)
    · exact (bind_failExpected hn).elim
    · rename_i hsymbol hend
      refine htake true (fun _ => ?_) (bind_pure hn)
      cases hk : r₁.cursor.current.kind <;> simp_all [Kind.isPlain]
  · split at hn
    · rename_i hk
      exact htake true (fun _ => by rw [hk]; rfl) (bind_pure hn)
    · rename_i hk
      exact htake true (fun _ => by rw [hk]; rfl) (bind_pure hn)
    · rename_i k hk
      exact htake (aliasKeywords.contains k) (fun _ => by rw [hk]; rfl) (bind_pure hn)
    · exact htake false (by simp) (bind_pure hn)

end Reader

end SqlMarkers
