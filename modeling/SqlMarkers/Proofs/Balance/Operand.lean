/-
SqlMarkers.Proofs.Balance.Operand — operands, expressions and aliases keep parentheses
in pairs.

A step that moves over a token has to know that the token is no parenthesis (`Kind.isFlat`).
It does, since it was found to be a name, a keyword or a sign before; the `isFlat_of_...`
lemmas turn each of these answers into what the rules of `Shifts` ask for. Steps that only
look, and steps that only write to the scope, leave the cursor where it is.

The one exception is `CASE ... END`: a closing parenthesis in it that no opening one in
the block belongs to is consumed like any other token (`caseBlock_keeps`).
-/
import SqlMarkers.Proofs.Balance
import SqlMarkers.Proofs.Trail.Operand

namespace SqlMarkers

/-- The nested readers keep parentheses in pairs. -/
structure Inner.Pairing (inner : Inner) : Prop where
  query : Reader.Keeps inner.query
  operand : Reader.Keeps inner.operand
  predicate : Reader.Keeps inner.predicate
  group : Reader.Keeps inner.group
  sources : Reader.Keeps inner.sources

namespace Reader

variable {env : Setting} {inner : Inner}

/-- Entering and leaving a query changes the scope, not the cursor. -/
theorem embed_keeps (hi : inner.Pairing) : Keeps inner.embed := by
  intro i r loose s n q r' hs hn
  unfold Yields Inner.embed at hn
  split at hn
  · cases hn
  · rename_i r₁ hquery
    cases hn
    have hs₁ : Cursor.Opens loose s (n + i) r₁.cursor := hi.query i r.enter hs hquery
    exact hs₁

/-! ## Operands -/

/-- The depth that the loop counts is the number of parentheses that are open in it. It ends
where this comes back to zero, so the pair as a whole keeps the number. -/
theorem parentheses_keeps (hi : inner.Pairing) : Keeps (parentheses inner) := by
  intro i r loose s n span r' hs hn
  obtain ⟨opening, r₁, hopen, hn⟩ := yields_bind.1 hn
  refine repeatStep_yields (fun depth r => Cursor.Opens loose s (n + i + depth) r.cursor)
    (fun _ r => Cursor.Opens loose s (n + i) r.cursor) ?_ (openParen_shifts r hs hopen) hn
  intro depth r₂ round r₃ hs₂ hround
  rcases yields_ite.1 hround with ⟨hzero, hround⟩ | ⟨hzero, hround⟩
  · replace hround := bind_lastEnd hround
    obtain ⟨rfl, rfl⟩ := yields_pure.1 hround
    rwa [hzero] at hs₂
  · replace hround := bind_current hround
    obtain ⟨depth, rfl⟩ : ∃ k, depth = k + 1 := ⟨depth - 1, by omega⟩
    split at hround
    · exact (yields_failAt.1 hround).elim
    · rename_i hkind
      obtain ⟨_, hnext, rfl⟩ := yields_map.1 (Counter.bind_up hround)
      obtain ⟨c, hc, rfl⟩ := yields_onCursor.1 hnext
      exact hs₂.opening hkind hc
    · rename_i hkind
      obtain ⟨_, hnext, rfl⟩ := yields_map.1 (Counter.bind_down hround)
      obtain ⟨c, hc, rfl⟩ := yields_onCursor.1 hnext
      exact hs₂.closing hkind hc
    · obtain ⟨q, r₄, hembed, hround⟩ := yields_bind.1 hround
      obtain ⟨_, hmod, rfl⟩ := yields_map.1 hround
      exact modifyDraft_keeps _ _ _ (embed_keeps hi _ _ hs₂ hembed) hmod
    · rename_i hend hleft hright _
      obtain ⟨_, hconsume, rfl⟩ := yields_map.1 hround
      exact consume_shifts (Kind.isFlat_of hend hleft hright) hs₂ hconsume

/-- In a block that is `depth` levels deep; where it is closed, `END` was consumed last. -/
def InBlock (s : Cursor) (depth : Nat) (r : Reading) : Prop :=
  if depth = 0 then
    ∃ c, Cursor.Opens true s 0 c ∧ c.current.kind = .keyword .END ∧ Yields Cursor.next c () r.cursor
  else Cursor.Opens true s 0 r.cursor

/-- The block is passed from `CASE` to the `END` that belongs to it, and its tokens are paired by
themselves. A closing parenthesis without an opening one in the block is a stray there, and
closes none in front of the block. -/
theorem caseBlock_keeps (hi : inner.Pairing) : Keeps (caseBlock inner) := by
  intro i r loose s n u r' hs hn
  obtain ⟨opening, r₁, hopen, hn⟩ := yields_bind.1 hn
  obtain ⟨-, hcase, hnext⟩ := acceptKeyword_yields hopen
  obtain ⟨c₁, hc₁, rfl⟩ := yields_onCursor.1 hnext
  -- The block is a way of its own, from the token behind `CASE` on.
  have hblock : InBlock c₁ 0 r' := by
    refine repeatStep_yields (InBlock c₁) (fun _ => InBlock c₁ 0) ?_
      (show InBlock c₁ 1 (r.moved c₁) from Cursor.Opens.refl c₁) hn
    intro depth r₂ round r₃ hs₂ hround
    rcases yields_ite.1 hround with ⟨hzero, hround⟩ | ⟨hzero, hround⟩
    · obtain ⟨rfl, rfl⟩ := yields_pure.1 hround
      rwa [hzero] at hs₂
    · rw [InBlock, if_neg hzero] at hs₂
      have hwithin : ∀ {r : Reading} {depth : Nat}, depth ≠ 0 →
          Cursor.Opens true c₁ 0 r.cursor → InBlock c₁ depth r := by
        intro r depth hdepth hs
        rwa [InBlock, if_neg hdepth]
      replace hround := bind_current hround
      split at hround
      · exact (yields_failAt.1 hround).elim
      · obtain ⟨_, hparens, rfl⟩ := yields_map.1 hround
        exact hwithin hzero (parentheses_keeps hi 0 r₂ hs₂ hparens)
      · rename_i hkind
        obtain ⟨_, hnext, rfl⟩ := yields_map.1 (Counter.bind_up hround)
        obtain ⟨c, hc, rfl⟩ := yields_onCursor.1 hnext
        exact hwithin (Nat.succ_ne_zero depth) (hs₂.flat (by rw [hkind]; rfl) hc)
      · rename_i hkind
        obtain ⟨_, hnext, rfl⟩ := yields_map.1 (Counter.bind_down hround)
        obtain ⟨c, hc, rfl⟩ := yields_onCursor.1 hnext
        by_cases hlast : depth - 1 = 0
        · show InBlock c₁ (depth - 1) (r₂.moved c)
          rw [InBlock, if_pos hlast]
          exact ⟨r₂.cursor, hs₂, hkind, hc⟩
        · exact hwithin hlast (hs₂.flat (by rw [hkind]; rfl) hc)
      -- Any other token, which is where a stray may be consumed.
      · rename_i hend hleft _ _
        obtain ⟨_, hconsume, rfl⟩ := yields_map.1 hround
        obtain ⟨c, hc, hr₃⟩ := consume_yields_next hconsume
        refine hwithin hzero ?_
        rw [hr₃]
        by_cases hright : r₂.cursor.current.kind = .symbol .rightParen
        · exact hs₂.stray hright hc
        · exact hs₂.flat (Kind.isFlat_of hend hleft hright) hc
  obtain ⟨c, hinner, hend, hlast⟩ := hblock
  exact hs.block hcase hc₁ hinner hend hlast

theorem atCall_keeps : Keeps atCall := by
  refine keeps_of_stays fun hn => ?_
  rw [(atCall_yields hn).1]

/-- Signs are symbols or `NOT`. -/
theorem isFlat_of_isSign {k : Kind} (h : isSign k = true) : k.isFlat = true := by
  simp only [isSign, Bool.or_eq_true, beq_iff_eq] at h
  rcases h with (((h | h) | h) | h) | h <;> rw [h] <;> rfl

theorem signs_keeps : Keeps signs := by
  refine repeating_keeps (fun _ => keeps_current fun i r => ?_) ()
  split
  · rename_i hsign
    exact (next_shifts (isFlat_of_isSign hsign)).bind fun _ => keeps_pure _ i
  · exact keeps_pure _ i r

/-- A token that is an operand by itself is no parenthesis. -/
theorem isFlat_of_isOperand {k : Kind} (h : k.isOperand = true) : k.isFlat = true := by
  refine Kind.isFlat_of ?_ ?_ ?_ <;> rintro rfl <;> cases h

theorem isFlat_of_isName {k : Kind} (h : k.isName = true) : k.isFlat = true := by
  refine Kind.isFlat_of ?_ ?_ ?_ <;> rintro rfl <;> cases h

/-- The name in front of the arguments of a call. -/
theorem atCall_isFlat {r r' : Reading} (hn : Yields atCall r true r') :
    r.cursor.current.kind.isFlat = true ∧ r = r' := by
  refine ⟨?_, (atCall_yields hn).1⟩
  replace hn := bind_current hn
  rcases yields_ite.1 hn with ⟨hcall, -⟩ | ⟨-, hn⟩
  · simp only [Bool.or_eq_true, Token.isKeyword_iff] at hcall
    rcases hcall with ((((hname | hk) | hk) | hk) | hk) | hk
    · exact isFlat_of_isName hname
    all_goals
      rw [hk]
      rfl
  · cases (yields_pure.1 hn).1

/-- An operand opens no parenthesis that it does not close. -/
theorem operand_keeps (hi : inner.Pairing) : Keeps (operand inner) := by
  have hparens : Keeps (do let _ ← parentheses inner) :=
    (parentheses_keeps hi).bind fun _ => keeps_pure _
  refine signs_keeps.bind fun _ => keeps_current fun i r => ?_
  split
  · exact hparens i r
  · exact caseBlock_keeps hi i r
  · rename_i hk
    exact (next_shiftsOf hk rfl).bind fun _ => hparens i
  · rename_i hk
    refine (next_shiftsOf hk rfl).bind fun _ => (hi.operand i).bind fun _ => ?_
    refine shifts_current fun r => ?_
    split
    · rename_i hname
      exact (next_shifts (isFlat_of_isName hname)).bind fun _ => recordPassage_keeps _ _ i
    · exact keeps_pure _ i r
  · refine (atCall_keeps i r).bindAt fun call r₁ hcall => ?_
    cases call with
    | true =>
        obtain ⟨hflat, rfl⟩ := atCall_isFlat hcall
        exact (next_shifts hflat).bind fun _ => hparens i
    | false =>
        obtain ⟨rfl, -⟩ := atCall_yields hcall
        rw [if_neg Bool.false_ne_true]
        split
        · rename_i hoperand
          exact consume_shifts (isFlat_of_isOperand hoperand)
        · exact failExpected_keeps _ i r

/-- A member is a name, `*` or a keyword. -/
theorem isFlat_of_member {t : Token}
    (h : (t.isName || t.isSymbol .star || t.isAnyKeyword) = true) : t.kind.isFlat = true := by
  simp only [Bool.or_eq_true, Token.isSymbol_iff] at h
  rcases h with (h | h) | h
  · exact isFlat_of_isName h
  · rw [h]
    rfl
  · refine Kind.isFlat_of ?_ ?_ ?_ <;> intro hk <;> simp [Token.isAnyKeyword, hk] at h

/-- The opening parenthesis goes on an operand too, but is read by a rule of its own. -/
theorem isFlat_of_isComposite {s : Symbol} (h : s.isComposite = true) (hs : s ≠ .leftParen) :
    (Kind.symbol s).isFlat = true := by
  refine Kind.isFlat_of nofun ?_ ?_
  · rintro ⟨⟩
    exact hs rfl
  · rintro ⟨⟩
    cases h

theorem continuation_keeps (hi : inner.Pairing) : Keeps (continuation inner) := by
  refine repeating_keeps (fun found => keeps_current fun i r => ?_) false
  have hoperand : Keeps (do operand inner; return .again true : Reader (Round Bool Bool)) :=
    (operand_keeps hi).bind fun _ => keeps_pure _
  split
  · exact ((parentheses_keeps hi).bind fun _ => keeps_pure _) i r
  · rename_i hk
    refine (next_shiftsOf hk rfl).bind fun _ => shifts_current fun r => ?_
    split
    · rename_i hmember
      exact (consume_shifts (isFlat_of_member hmember)).bind fun _ => keeps_pure _ i
    · exact failExpected_keeps _ i r
  · rename_i s hleft _ hk
    split
    · rename_i hcomposite
      exact (next_shiftsOf hk (isFlat_of_isComposite hcomposite hleft)).bind fun _ => hoperand i
    · exact keeps_pure _ i r
  · rename_i hk
    exact (next_shiftsOf hk rfl).bind fun _ => hoperand i
  · rename_i hk
    exact (next_shiftsOf hk rfl).bind fun _ => hoperand i
  · exact keeps_pure _ i r

/-! ## Expressions -/

theorem leafOr_keeps (hi : inner.Pairing) (start : Nat) (leaf : Expr) :
    Keeps (leafOr env inner start leaf) := by
  refine (continuation_keeps hi).bind fun goesOn => ?_
  split
  · exact verbatimFrom_keeps env start
  · exact keeps_pure _

/-- A name, and a member behind a `.`. It is stated at a reading that stands at a name: only
there is its first step known to be no parenthesis. -/
theorem namedExpression_shifts (hi : inner.Pairing) {r : Reading} {i : Nat}
    (hname : r.cursor.current.isName = true) : ShiftsAt i i (namedExpression env inner) r := by
  refine shiftsAt_current ?_
  refine (next_shifts (isFlat_of_isName hname)).bind fun _ => (nameOf_keeps _ i).bind fun owner => ?_
  intro r₁
  refine (atSymbol_keeps _ i r₁).bindAt fun dot r₂ hdot => ?_
  obtain ⟨rfl, rfl⟩ := yields_atSymbol.1 hdot
  split
  · rename_i hdot
    refine (noteOwner_keeps _ i r₁).bindAt fun _ r₂ hnote => ?_
    obtain ⟨_, -, hr₂⟩ := yields_noteOwner.1 hnote
    have hkind : r₂.cursor.current.kind = .symbol .dot := by
      rw [← hr₂]
      exact Token.isSymbol_iff.1 hdot
    refine (next_shiftsOf hkind rfl).bind fun _ => ?_
    refine shifts_current fun r => ?_
    extract_lets rest
    have hrest : ∀ member, r.cursor.current.kind.isFlat = true → ShiftsAt i i (rest member) r := by
      intro member hflat
      exact (next_shifts hflat).bind fun _ => (recordPassage_keeps _ _ i).bind fun _ =>
        (lastEnd_keeps i).bind fun _ => leafOr_keeps hi _ _ i
    split
    · rename_i hstar
      exact hrest "*" (by rw [Token.isSymbol_iff.1 hstar]; rfl)
    · split
      · rename_i hword
        refine (nameOf_keeps _ i r).bindAt fun member r₁ hn => ?_
        obtain ⟨-, rfl⟩ := yields_nameOf.1 hn
        refine hrest member ?_
        simp only [Bool.or_eq_true, decide_eq_true_eq] at hword
        rcases hword with hk | hk
        · rw [hk]
          rfl
        · exact isFlat_of_member (by rw [hk, Bool.or_true])
      · exact failExpected_bind_shifts r
  · exact leafOr_keeps hi _ _ i r₁

theorem expression_keeps (hi : inner.Pairing) : Keeps (expression env inner) := by
  refine keeps_current fun i r => ?_
  split
  · rename_i hk
    exact (next_shiftsOf hk rfl).bind fun _ => (nextParameter_keeps i).bind fun _ =>
      leafOr_keeps hi _ _ i
  -- Integers, in both notations.
  iterate 2
    · rename_i hk
      refine (next_shiftsOf hk rfl).bind fun _ => ?_
      split
      · exact leafOr_keeps hi _ _ i
      · exact failAt_keeps _ _ i
  · rename_i hk
    refine (next_shiftsOf hk rfl).bind fun _ => ?_
    split
    · exact leafOr_keeps hi _ _ i
    · exact failAt_keeps _ _ i
  · rename_i hk
    exact (next_shiftsOf hk rfl).bind fun _ => leafOr_keeps hi _ _ i
  · have hcomposite : Keeps (do
        operand inner
        let _ ← continuation inner
        verbatimFrom env r.cursor.current.span.start) :=
      (operand_keeps hi).bind fun _ => (continuation_keeps hi).bind fun _ =>
        verbatimFrom_keeps env _
    split
    · rename_i hname
      refine (atCall_keeps i r).bindAt fun call r₁ hcall => ?_
      obtain ⟨rfl, -⟩ := atCall_yields hcall
      dsimp only
      split
      · exact hcomposite i r
      · exact namedExpression_shifts hi hname
    · exact hcomposite i r

/-! ## Aliases -/

/-- Whatever is taken as an alias is a name, a string or a keyword, hence no parenthesis. -/
theorem optionalAlias_keeps (env : Setting) : Keeps (optionalAlias env) := by
  refine (skipKeyword_keeps _).bind fun marked => keeps_current fun i r => ?_
  extract_lets rest
  have hrest : ∀ taken, (taken = true → r.cursor.current.kind.isFlat = true) →
      ShiftsAt i i (rest taken) r := by
    intro taken hflat
    simp only [rest]
    split
    · rename_i htaken
      refine (next_shifts (hflat htaken)).bind fun _ => ?_
      unfold aliasOf
      split
      · exact keeps_pure _ i
      · exact (nameOf_keeps _ i).bind fun _ => keeps_pure _ i
    · exact keeps_pure _ i r
  split
  · split
    · exact hrest false nofun
    · exact failExpected_bind_shifts r
    · rename_i hsymbol hend
      exact hrest true fun _ => Kind.isFlat_of hend (hsymbol _) (hsymbol _)
  · split
    · rename_i hk
      exact hrest true fun _ => by rw [hk]; rfl
    · rename_i hk
      exact hrest true fun _ => by rw [hk]; rfl
    · rename_i hk
      exact hrest _ fun _ => by rw [hk]; rfl
    · exact hrest false nofun

end Reader

end SqlMarkers
