/-
SqlMarkers.Proofs.Skipping — taking an expression apart, or only reading over it.

`Reader.expression` takes an expression apart as far as it is simple, and
`Reader.fullOperand` reads over it. Both end in the same place. They share the readers of
everything composite, so what is left to compare is how they set off: at a `?` they count
and move in another order, a number is looked at, a name is decoded, and behind `owner.`
one of them reads on itself where the other starts over with what continues an operand.

`Tallies D` is how the two compare on the way. A reading may also end at a name without
decoded form or with a count out of range, and one reader may come to such an end where the
other does not. `Alongside` leaves these ends out.
-/
import SqlMarkers.Proofs.Calls
import SqlMarkers.Proofs.Heedless.Query
import SqlMarkers.Proofs.Literals
import SqlMarkers.Proofs.Markers
import SqlMarkers.Proofs.Termination
import SqlMarkers.Proofs.Trail.Operand

namespace SqlMarkers

/-- Whether a reading that ends with this fault has an error to report. -/
def Fault.isReported : Fault → Bool
  | .undecodable | .overflow => false
  | _ => true

namespace Reader

variable {D : Draft → Draft → Prop} {α β : Type}

/-- Two outcomes that tally: results in readings that are apart by `D`, the same fault, or a
fault on one side that leaves no error to report. -/
inductive Tallying (D : Draft → Draft → Prop) :
    EStateM.Result Fault Reading α → EStateM.Result Fault Reading β → Prop
  | ok {a : α} {b : β} {s s' : Reading} (state : s.Apart D s') : Tallying D (.ok a s) (.ok b s')
  | fault {f : Fault} {s s' : Reading} : Tallying D (.error f s) (.error f s')
  | left {f : Fault} {s : Reading} {y : EStateM.Result Fault Reading β}
      (silent : f.isReported = false) : Tallying D (.error f s) y
  | right {f : Fault} {s' : Reading} {x : EStateM.Result Fault Reading α}
      (silent : f.isReported = false) : Tallying D x (.error f s')

/-- From the readings `r` and `r'` the two readers have outcomes that tally. -/
def Tallies (D : Draft → Draft → Prop) (m : Reader α) (m' : Reader β) (r r' : Reading) : Prop :=
  Tallying D (m r) (m' r')

namespace Tallies

variable {ε : Type} {m m₁ : Reader α} {m' m₁' : Reader β} {r r' : Reading}

theorem silent_right {e : Fault} {s : Reading} (h : m' r' = .error e s)
    (he : e.isReported = false) : Tallies D m m' r r' := by
  unfold Tallies
  rw [h]
  exact .right he

theorem error {e : Fault} {s s' : Reading} (h : m r = .error e s) (h' : m' r' = .error e s') :
    Tallies D m m' r r' := by
  unfold Tallies
  rw [h, h']
  exact .fault

theorem congr {s s' : Reading} (h : m r = m₁ s) (h' : m' r' = m₁' s')
    (hm : Tallies D m₁ m₁' s s') : Tallies D m m' r r' := by
  unfold Tallies
  rw [h, h']
  exact hm

/-- Behind the same step from the same reading. -/
theorem behind {n : Reader ε} {f : ε → Reader α} {f' : ε → Reader β}
    (h : ∀ a s, n r = .ok a s → Tallies D (f a) (f' a) s s) :
    Tallies D (n >>= f) (n >>= f') r r := by
  show Tallying D (EStateM.bind n f r) (EStateM.bind n f' r)
  unfold EStateM.bind
  cases hn : n r with
  | ok a s => exact h a s hn
  | error e s => exact .fault

/-- Behind steps that do the same from readings that are apart. -/
theorem along {n : Reader ε} {n' : Reader ε} {f : ε → Reader α} {f' : ε → Reader β}
    {R : ε → ε → Prop} (hn : SqlMarkers.Agree Eq (Reading.Apart D) R n n') (hr : r.Apart D r')
    (h : ∀ a a' s s', s.Apart D s' → Tallies D (f a) (f' a') s s') :
    Tallies D (n >>= f) (n' >>= f') r r' := by
  have hboth := hn r r' hr
  show Tallying D (EStateM.bind n f r) (EStateM.bind n' f' r')
  unfold EStateM.bind
  revert hboth
  generalize n r = x
  generalize n' r' = x'
  rintro (⟨-, hs⟩ | ⟨rfl, -⟩)
  · exact h _ _ _ _ hs
  · exact .fault

/-- Behind a look at the current token on one side. -/
theorem current_left {k : Token → Reader α} (h : Tallies D (k r.cursor.current) m' r r') :
    Tallies D (current >>= k) m' r r' := h

/-- Behind a name that one of the two decodes. -/
theorem name_left {t : Token} {k : String → Reader α} (h : ∀ name, Tallies D (k name) m' r r') :
    Tallies D (nameOf t >>= k) m' r r' := by
  unfold nameOf
  split
  · exact h _
  · exact .left rfl

end Tallies

end Reader

/-! ## Operands of one token -/

/-- Whether a token of this kind is read as a leaf, unless a call starts with it. -/
def Kind.isLeaf : Kind → Bool
  | .identifier | .integer | .float | .hex | .chars => true
  | .symbol s => s == .question
  | .keyword k => k.isNameLike
  | _ => false

theorem Kind.isOperand_of_isLeaf {k : Kind} (h : k.isLeaf = true) : k.isOperand = true := by
  cases k with
  | keyword w => exact Bool.or_eq_true_iff.2 (.inl h)
  | symbol s => exact h
  | sqlVariable => rfl
  | endOfInput => cases h
  | _ => rfl

theorem Kind.isLeaf_of_isName {k : Kind} (h : k.isName = true) : k.isLeaf = true := by
  cases k with
  | identifier => rfl
  | keyword w => exact h
  | _ => cases h

/-- A number or a string. -/
def Kind.isLiteral : Kind → Bool
  | .integer | .float | .hex | .chars => true
  | _ => false

theorem Token.of_isLiteral {t : Token} (h : t.kind.isLiteral = true) :
    t.kind.isLeaf = true ∧ t.isName = false ∧ t.isSymbol .question = false := by
  rw [Token.isName, Token.isSymbol]
  cases hk : t.kind <;> rw [hk] at h <;> cases h <;> exact ⟨rfl, rfl, rfl⟩

/-- What may stand behind a `.` is neither the end of the input nor a `?`. -/
theorem Token.of_member {t : Token}
    (h : (t.isName || t.isSymbol .star || t.isAnyKeyword) = true) :
    t.isEnd = false ∧ t.isSymbol .question = false := by
  constructor
  · by_contra hend
    rw [Bool.not_eq_false, Token.isEnd, beq_iff_eq] at hend
    simp [Token.isName, Token.isSymbol, Token.isAnyKeyword, hend, Kind.isName] at h
  · by_contra hquestion
    rw [Bool.not_eq_false, Token.isSymbol_iff] at hquestion
    simp [Token.isName, Token.isSymbol, Token.isAnyKeyword, hquestion, Kind.isName] at h

/-- Where one reader of members accepts a token the other does too. -/
theorem Token.member_iff {t : Token} : (t.isName || t.isSymbol .star || t.isAnyKeyword) = true ↔
    t.isSymbol .star = true ∨ (decide (t.kind = .identifier) || t.isAnyKeyword) = true := by
  rw [Token.isName, Token.isAnyKeyword]
  cases t.kind <;> simp [Kind.isName, or_comm]

namespace Reader

variable {env : Setting} {inner : Inner} {r : Reading}

theorem bind_ok {α β : Type} {m : Reader α} {k : α → Reader β} {a : α} {s : Reading}
    (h : m r = .ok a s) : (m >>= k) r = k a s := by
  show EStateM.bind m k r = _
  rw [EStateM.bind, h]

theorem bind_error {α β : Type} {m : Reader α} {k : α → Reader β} {f : Fault} {s : Reading}
    (h : m r = .error f s) : (m >>= k) r = .error f s := by
  show EStateM.bind m k r = _
  rw [EStateM.bind, h]

theorem bind_congr_at {α β : Type} {m m' : Reader α} {k : α → Reader β} {s : Reading}
    (h : m r = m' s) : (m >>= k) r = (m' >>= k) s := by
  show EStateM.bind m k r = EStateM.bind m' k s
  rw [EStateM.bind, h, EStateM.bind]

/-! ### Rounds of a repetition -/

section Rounds

variable {α β : Type} {step : β → Reader (Round β α)} {b b' : β} {a : α} {f : Fault} {r' : Reading}

theorem repeating_stop (h : step b r = .ok (.stop a) r') : repeating step b r = .ok a r' := by
  unfold repeating
  rw [repeatStep_eq]
  show EStateM.bind (step b) _ r = _
  unfold EStateM.bind
  rw [h]
  rfl

theorem repeating_error (h : step b r = .error f r') : repeating step b r = .error f r' := by
  unfold repeating
  rw [repeatStep_eq]
  show EStateM.bind (step b) _ r = _
  unfold EStateM.bind
  rw [h]

theorem repeating_again (h : step b r = .ok (.again b') r')
    (hless : r'.cursor.remaining < r.cursor.remaining) :
    repeating step b r = repeating step b' r' := by
  unfold repeating
  rw [repeatStep_eq]
  show EStateM.bind (step b) _ r = _
  unfold EStateM.bind
  rw [h]
  show (ite _ _ _ : Reader α) r' = _
  rw [if_pos hless]

end Rounds

/-- What starts an operand that is more than one token or a call. -/
def operandMarks : List Kind :=
  [.symbol .minus, .symbol .plus, .symbol .tilde, .symbol .bang, .keyword .NOT,
    .symbol .leftParen, .keyword .CASE, .keyword .EXISTS, .keyword .INTERVAL]

theorem mem_operandMarks_of_isSign {k : Kind} (h : isSign k = true) : k ∈ operandMarks := by
  simp only [isSign, Bool.or_eq_true, beq_iff_eq] at h
  rcases h with (((rfl | rfl) | rfl) | rfl) | rfl <;> decide

/-- No signs stand where something else does. -/
theorem signs_stop (h : isSign r.cursor.current.kind = false) : signs r = .ok () r := by
  refine repeating_stop ?_
  show (ite _ _ _ : Reader (Round Unit Unit)) r = _
  rw [h]
  rfl

theorem operand_plain (h : r.cursor.current.kind ∉ operandMarks) :
    operand inner r = (do
      if ← atCall then
        next
        let _ ← parentheses inner
      else if r.cursor.current.kind.isOperand then consume
      else failExpected "expression") r := by
  have hsign : isSign r.cursor.current.kind = false :=
    Bool.not_eq_true _ ▸ mt mem_operandMarks_of_isSign h
  refine (bind_ok (signs_stop hsign)).trans ((current_bind _).trans (congrFun ?_ r))
  generalize (if r.cursor.current.kind.isOperand = true then consume
    else failExpected "expression" : Reader Unit) = single
  split
  · rename_i hk
    exact absurd (by rw [hk]; decide) h
  · rename_i hk
    exact absurd (by rw [hk]; decide) h
  · rename_i hk
    exact absurd (by rw [hk]; decide) h
  · rename_i hk
    exact absurd (by rw [hk]; decide) h
  · rfl

/-- An operand that starts as a leaf is a call or the leaf. -/
theorem operand_leaf (h : r.cursor.current.kind.isLeaf = true) :
    operand inner r = (do
      if ← atCall then
        next
        let _ ← parentheses inner
      else consume) r := by
  have hmarks : ∀ k ∈ operandMarks, k.isLeaf = false := by decide
  have hplain : r.cursor.current.kind ∉ operandMarks := fun hk => by
    cases h.symm.trans (hmarks _ hk)
  rw [operand_plain hplain, if_pos (Kind.isOperand_of_isLeaf h)]

/-! ### Consuming a leaf -/

/-- Where a token is consumed: a `?` is counted, and a name is noted if a `.` comes behind it. -/
theorem consume_eq : consume r = (do
    if r.cursor.current.isSymbol .question then
      let _ ← nextParameter
    next
    if r.cursor.current.isName && (← atSymbol .dot) then noteOwner r.cursor.current) r := rfl

/-- A token without a name is only moved over. -/
theorem consume_unnamed (hname : r.cursor.current.isName = false)
    (hquestion : r.cursor.current.isSymbol .question = false) : consume r = next r := by
  rw [consume_eq, hname, hquestion]
  show EStateM.bind next (fun _ => EStateM.bind (atSymbol .dot) fun _ => pure ()) r = _
  unfold EStateM.bind
  cases next r <;> rfl

/-- A name is noted if a `.` comes behind it. -/
theorem consume_named (hquestion : r.cursor.current.isSymbol .question = false) :
    consume r = (do
      next
      if r.cursor.current.isName && (← atSymbol .dot) then noteOwner r.cursor.current) r := by
  rw [consume_eq, hquestion]
  rfl

theorem next_ok {u : Unit} {c : Cursor} (h : Cursor.next r.cursor = .ok u c) :
    next r = .ok u (r.moved c) := by
  rw [next, onCursor, h]
  rfl

theorem next_error {f : Fault} {c : Cursor} (h : Cursor.next r.cursor = .error f c) :
    next r = .error f (r.moved c) := by
  rw [next, onCursor, h]
  rfl

theorem nextParameter_ok (h : r.draft.parameters < Counter.limit) :
    nextParameter r = .ok r.draft.parameters r.counted := by
  have hup : (Counter.up r.draft.parameters : Reader Nat) r = .ok (r.draft.parameters + 1) r := by
    rw [Counter.up, if_pos h]
    rfl
  exact bind_ok hup

theorem nextParameter_overflow (h : ¬r.draft.parameters < Counter.limit) :
    nextParameter r = .error .overflow r := by
  have hup : (Counter.up r.draft.parameters : Reader Nat) r = .error .overflow r := by
    rw [Counter.up, if_neg h]
    rfl
  have hget : nextParameter r = (Counter.up r.draft.parameters >>= _ : Reader Nat) r := bind_ok rfl
  exact hget.trans (bind_error hup)

/-- A `?` is counted and moved over. -/
theorem consume_question (hquestion : r.cursor.current.kind = .symbol .question) :
    consume r = (do let _ ← nextParameter; next) r := by
  have hname : r.cursor.current.isName = false := by
    rw [Token.isName, hquestion]
    rfl
  rw [consume_eq, hname, Token.isSymbol_iff.2 hquestion]
  show EStateM.bind nextParameter
    (fun _ => EStateM.bind next (fun _ => EStateM.bind (atSymbol .dot) fun _ => pure ())) r =
      EStateM.bind nextParameter (fun _ => next) r
  unfold EStateM.bind
  cases nextParameter r with
  | error f s => rfl
  | ok index s =>
      dsimp only
      cases next s <;> rfl

/-! ## What continues an operand -/

variable {D : Draft → Draft → Prop}

/-- The rounds of `continuation` go on alike whether something was found before or not, and
behind a `.` a round moves over a member. -/
theorem exists_continuation_round (hin : inner.Heedless) (hD : Draft.Link D) :
    ∃ step : Bool → Reader (Round Bool Bool), continuation inner = repeating step false ∧
      SqlMarkers.Agree Eq (Reading.Apart D) (fun _ _ => True) (continuation inner)
        (repeating step true) ∧
      ∀ found r, r.cursor.current.kind = .symbol .dot → step found r = (do
        next
        let t ← current
        if t.isName || t.isSymbol .star || t.isAnyKeyword then
          consume
          return .again true
        else failExpected "column name" : Reader (Round Bool Bool)) r := by
  refine ⟨_, rfl, Agree.repeatStep (B := fun _ _ => True) (fun _ _ hr => by rw [hr.cursor]) rfl
    (fun found found' _ => ?_) trivial, fun found r hdot => ?_⟩
  · have again {m : Reader Unit} (hm : Heedless D m) : SqlMarkers.Agree Eq (Reading.Apart D)
        (Round.Alike (fun _ _ => True) fun _ _ => True)
        (do m; return .again true : Reader (Round Bool Bool)) (do m; return .again true) :=
      Agree.bind hm fun _ _ _ => .pure (.again trivial)
    have hstop : SqlMarkers.Agree Eq (Reading.Apart D)
        (Round.Alike (fun _ _ => True) fun _ _ => True)
        (return .stop found : Reader (Round Bool Bool)) (return .stop found') :=
      .pure (.stop trivial)
    have hoperand : SqlMarkers.Agree Eq (Reading.Apart D)
        (Round.Alike (fun _ _ => True) fun _ _ => True)
        (do next; operand inner; return .again true : Reader (Round Bool Bool))
        (do next; operand inner; return .again true) :=
      Agree.bind next_heedless fun _ _ _ => again (operand_heedless hin hD)
    refine Agree.bind current_heedless ?_
    rintro t _ rfl
    split
    · exact Agree.bind (parentheses_heedless hin hD) fun _ _ _ => .pure (.again trivial)
    · refine Agree.bind next_heedless fun _ _ _ => Agree.bind current_heedless ?_
      rintro t _ rfl
      split
      · exact again (consume_heedless hD)
      · exact fun r r' hr => .error (by rw [hr.cursor]) ⟨hr.cursor, hr.nesting, hr.draft⟩
    · split
      · exact hoperand
      · exact hstop
    · exact hoperand
    · exact hoperand
    · exact hstop
  · refine (current_bind _).trans (congrFun ?_ r)
    rw [hdot]

/-- Behind a leaf: what continues it decides whether it is kept. -/
theorem leafOr_tallies {r' : Reading} {m : Reader Bool} {R : Bool → Bool → Prop}
    (hm : SqlMarkers.Agree Eq (Reading.Apart D) R (continuation inner) m) (start : Nat)
    (leaf : Expr) (hr : r.Apart D r') :
    Tallies D (leafOr env inner start leaf) (do let _ ← m) r r' := by
  refine .along hm hr fun goesOn _ s s' hs => ?_
  split
  · exact .ok hs
  · exact .ok hs

theorem atCall_unnamed (hleaf : r.cursor.current.kind.isLeaf = true)
    (hname : r.cursor.current.isName = false) : atCall r = .ok false r := by
  have hword : ∀ k : Keyword, r.cursor.current.isKeyword k = false := by
    intro k
    by_contra hk
    rw [Bool.not_eq_false, Token.isKeyword_iff] at hk
    rw [hk] at hleaf
    rw [Token.isName, hk] at hname
    cases hleaf.symm.trans hname
  show (ite _ _ _ : Reader Bool) r = _
  rw [hname]
  simp only [hword]
  rfl

theorem fullOperand_leaf (hleaf : r.cursor.current.kind.isLeaf = true)
    (hcall : atCall r = .ok false r) :
    fullOperand inner r = (do consume; let _ ← continuation inner) r := by
  refine bind_congr_at ?_
  rw [operand_leaf hleaf]
  show EStateM.bind atCall _ r = _
  rw [EStateM.bind, hcall]
  rfl

/-- Behind a literal. -/
theorem literal_tallies (hin : inner.Heedless) (h : r.cursor.current.kind.isLiteral = true)
    (start : Nat) (leaf : Expr) :
    Tallies Draft.Abreast (do next; leafOr env inner start leaf) (fullOperand inner) r r := by
  obtain ⟨hleaf, hname, hquestion⟩ := Token.of_isLiteral h
  refine .congr rfl ((fullOperand_leaf hleaf (atCall_unnamed hleaf hname)).trans
    (bind_congr_at (consume_unnamed hname hquestion))) ?_
  exact .behind fun _ _ _ => leafOr_tallies (continuation_heedless hin Draft.link_abreast) start
    leaf ⟨rfl, rfl, rfl, rfl⟩

/-- Behind a `?`, which one reader counts before it moves on and the other behind that. -/
theorem placeholder_tallies (hin : inner.Heedless)
    (hkind : r.cursor.current.kind = .symbol .question) (start : Nat) (span : Span) :
    Tallies Draft.Abreast (do
      next
      let index ← nextParameter
      leafOr env inner start (.placeholder index span)) (fullOperand inner) r r := by
  have hleaf : r.cursor.current.kind.isLeaf = true := by
    rw [hkind]
    rfl
  have hname : r.cursor.current.isName = false := by
    rw [Token.isName, hkind]
    rfl
  have hright : fullOperand inner r = (do
      let _ ← nextParameter
      next
      let _ ← continuation inner) r := by
    refine (fullOperand_leaf hleaf (atCall_unnamed hleaf hname)).trans
      ((bind_congr_at (consume_question hkind)).trans ?_)
    rw [bind_assoc]
  refine .congr rfl hright ?_
  by_cases hlimit : r.draft.parameters < Counter.limit
  · have hcount : nextParameter r = .ok r.draft.parameters r.counted := nextParameter_ok hlimit
    cases hmove : Cursor.next r.cursor with
    | error e c =>
        exact .error (bind_error (next_error hmove))
          ((bind_ok hcount).trans (bind_error (next_error (r := r.counted) hmove)))
    | ok u c =>
        have hbehind : nextParameter (r.moved c) = .ok r.draft.parameters (r.moved c).counted :=
          nextParameter_ok hlimit
        refine .congr ((bind_ok (next_ok hmove)).trans (bind_ok hbehind))
          ((bind_ok hcount).trans (bind_ok (next_ok (r := r.counted) hmove))) ?_
        exact leafOr_tallies (continuation_heedless hin Draft.link_abreast) start _
          ⟨rfl, rfl, rfl, rfl⟩
  · exact .silent_right (bind_error (nextParameter_overflow hlimit)) rfl

/-- An owner is noted, if its name has a decoded form. -/
theorem note_outcome (r : Reading) (t : Token) :
    (do if t.isName && (← atSymbol .dot) then noteOwner t : Reader Unit) r = .error .undecodable r ∨
      ∃ r', (do if t.isName && (← atSymbol .dot) then noteOwner t : Reader Unit) r = .ok () r' ∧
        r'.cursor = r.cursor ∧ r.Apart Draft.Abreast r' := by
  show (ite _ _ _ : Reader Unit) r = _ ∨ ∃ r', (ite _ _ _ : Reader Unit) r = _ ∧ _
  split
  · unfold noteOwner nameOf
    split
    · exact .inr ⟨_, rfl, rfl, rfl, rfl, rfl, rfl⟩
    · exact .inl rfl
  · exact .inr ⟨r, rfl, rfl, rfl, rfl, rfl, rfl⟩

variable {stream : TokenStream} {k : Nat}

/-- A name behind an owner. One reader moves over it by itself, for the other it is the first
round of what continues the owner. -/
theorem member_tallies (hin : inner.Heedless) (hstands : Cursor.Stands stream k r.cursor)
    (hends : stream.Ends) (hdot : r.cursor.current.kind = .symbol .dot) (start : Nat)
    (leaf : String → Span → Expr) :
    Tallies Draft.Abreast (do
      next
      let t ← current
      let member ←
        if t.isSymbol .star then pure "*"
        else if t.kind = .identifier || t.isAnyKeyword then nameOf t
        else failExpected "column name"
      next
      recordPassage .member t.span
      let stop ← lastEnd
      leafOr env inner start (leaf member ⟨start, stop⟩))
      (do let _ ← continuation inner) r r := by
  obtain ⟨step, hcontinuation, hfound, hround⟩ := exists_continuation_round hin Draft.link_abreast
  rw [hcontinuation]
  cases hmove : Cursor.next r.cursor with
  | error e c =>
      have hstep : step false r = .error e (r.moved c) :=
        (hround false r hdot).trans (bind_error (next_error hmove))
      exact .error (bind_error (next_error hmove)) (bind_error (repeating_error hstep))
  | ok u c =>
      obtain ⟨hstands, hrest⟩ := hstands.step hends (Token.isEnd_of_kind hdot nofun) hmove
      have hstep := (hround false r hdot).trans (bind_ok (next_ok hmove))
      refine .congr (bind_ok (next_ok hmove)) rfl (.current_left ?_)
      extract_lets behind
      have hbehind :
          (c.current.isName || c.current.isSymbol .star || c.current.isAnyKeyword) = true →
            ∀ member, Tallies Draft.Abreast (behind member)
              (do let _ ← repeating step false : Reader Unit) (r.moved c) r := by
        intro hmember member
        obtain ⟨hend, hquestion⟩ := Token.of_member hmember
        have hstep : step false r = (do consume; return .again true : Reader _) (r.moved c) := by
          rw [hstep, current_bind]
          exact congrFun (if_pos hmember) _
        cases hmove₂ : Cursor.next c with
        | error e c₂ =>
            have hconsume := (consume_named (r := r.moved c) hquestion).trans
              (bind_error (next_error hmove₂))
            exact .error (bind_error (next_error hmove₂))
              (bind_error (repeating_error (hstep.trans (bind_error hconsume))))
        | ok u c₂ =>
            obtain ⟨-, hrest₂⟩ := hstands.step hends hend hmove₂
            have hconsume := (consume_named (r := r.moved c) hquestion).trans
              (bind_ok (next_ok hmove₂))
            rcases note_outcome ((r.moved c).moved c₂) c.current with
              hnote | ⟨s, hnote, hcursor, hs⟩
            · exact .silent_right (bind_error (repeating_error
                (hstep.trans (bind_error (hconsume.trans hnote))))) rfl
            · have hless : s.cursor.remaining < r.cursor.remaining := by
                have hlength := congrArg List.length hrest
                have hlength₂ := congrArg List.length hrest₂
                simp only [Cursor.rest, List.length_cons] at hlength hlength₂
                rw [hcursor, Cursor.remaining, Cursor.remaining]
                exact show c₂.ahead.length < _ by omega
              refine .congr (bind_ok (next_ok hmove₂)) (bind_congr_at (repeating_again
                (hstep.trans (bind_ok (hconsume.trans hnote))) hless)) ?_
              exact leafOr_tallies hfound start _ ⟨hs.cursor, hs.nesting, hs.draft⟩
      split
      · rename_i hstar
        exact hbehind (Token.member_iff.2 (.inl hstar)) "*"
      · split
        · rename_i hword
          exact .name_left (hbehind (Token.member_iff.2 (.inr hword)))
        · rename_i hstar hword
          have hmember := mt (Token.member_iff (t := c.current)).1 (not_or.2 ⟨hstar, hword⟩)
          have hfail : step false r = .error (c.unexpected "column name") (r.moved c) := by
            rw [hstep, current_bind]
            exact congrFun (if_neg hmember) _
          exact .error (bind_error rfl) (bind_error (repeating_error hfail))

/-- A name that no call starts with. -/
theorem namedExpression_tallies (hin : inner.Heedless) (hstands : Cursor.Stands stream k r.cursor)
    (hends : stream.Ends) (hname : r.cursor.current.isName = true)
    (hcall : atCall r = .ok false r) :
    Tallies Draft.Abreast (namedExpression env inner) (fullOperand inner) r r := by
  have hmember : (r.cursor.current.isName || r.cursor.current.isSymbol .star ||
      r.cursor.current.isAnyKeyword) = true := by
    rw [hname]
    rfl
  obtain ⟨hend, hquestion⟩ := Token.of_member hmember
  have hright : fullOperand inner r = (do
      next
      if ← atSymbol .dot then
        noteOwner r.cursor.current
        let _ ← continuation inner
      else
        let _ ← continuation inner) r := by
    refine (fullOperand_leaf (Kind.isLeaf_of_isName hname) hcall).trans
      ((bind_congr_at (consume_named hquestion)).trans ?_)
    rw [hname, bind_assoc]
    refine congrFun (congrArg (next >>= ·) (funext fun _ => ?_)) r
    rw [bind_assoc]
    refine congrArg (atSymbol .dot >>= ·) (funext fun dot => ?_)
    cases dot <;> rfl
  refine .congr rfl hright (.current_left (.behind fun _ s hnext => .name_left fun name => ?_))
  refine .behind fun dot s' hlook => ?_
  obtain ⟨hdot, rfl⟩ := EStateM.Result.ok.inj hlook
  cases dot with
  | false =>
      exact leafOr_tallies (continuation_heedless hin Draft.link_abreast) _ _
        ⟨rfl, rfl, Draft.link_abreast.refl _⟩
  | true =>
      refine .behind fun _ s' hnote => ?_
      obtain ⟨c, hmove, rfl⟩ := yields_onCursor.1 hnext
      have hcursor : s'.cursor = c := by
        obtain ⟨_, -, rfl⟩ := yields_noteOwner.1 hnote
        rfl
      have hstands' : Cursor.Stands stream (k + 1) s'.cursor :=
        hcursor ▸ (hstands.step hends hend hmove).1
      exact member_tallies hin hstands' hends (hcursor ▸ Token.isSymbol_iff.1 hdot) _
        (Expr.member ⟨name, r.cursor.current.span⟩)

/-- What is not taken apart is read over by both readers, and the rest is a name. -/
theorem composite_tallies (hin : inner.Heedless) (hstands : Cursor.Stands stream k r.cursor)
    (hends : stream.Ends) (start : Nat) :
    Tallies Draft.Abreast (do
      let composite ← if r.cursor.current.isName then atCall else pure true
      if composite then
        operand inner
        let _ ← continuation inner
        verbatimFrom env start
      else namedExpression env inner) (fullOperand inner) r r := by
  have hcomposite : Tallies Draft.Abreast (do
      operand inner
      let _ ← continuation inner
      verbatimFrom env start) (fullOperand inner) r r :=
    .behind fun _ _ _ => .behind fun _ s _ => .ok ⟨rfl, rfl, Draft.link_abreast.refl s.draft⟩
  cases hname : r.cursor.current.isName with
  | false => exact hcomposite
  | true =>
      have hleaf := Kind.isLeaf_of_isName hname
      cases hcall : atCall r with
      | ok call s =>
          obtain ⟨rfl, -⟩ := atCall_yields hcall
          cases call with
          | true =>
              exact .congr (bind_ok hcall) rfl hcomposite
          | false =>
              exact .congr (bind_ok hcall) rfl
                (namedExpression_tallies hin hstands hends hname hcall)
      | error f s =>
          have hoperand : operand inner r = .error f s :=
            (operand_leaf hleaf).trans (bind_error hcall)
          exact .error (bind_error hcall) (bind_error hoperand)

theorem expression_tallies (hin : inner.Heedless) (hstands : Cursor.Stands stream k r.cursor)
    (hends : stream.Ends) (hvalued : r.cursor.current.Valued) :
    Tallies Draft.Abreast (expression env inner) (fullOperand inner) r r := by
  refine .current_left ?_
  cases hkind : r.cursor.current.kind with
  | symbol s =>
      by_cases hs : s = .question
      · subst hs
        exact placeholder_tallies hin hkind _ _
      · cases s <;> first | exact absurd rfl hs | exact composite_tallies hin hstands hends _
  | integer =>
      obtain ⟨v, hv⟩ := Option.isSome_iff_exists.1 (hvalued.integer (.inl hkind))
      simp only [hv]
      exact literal_tallies hin (by rw [hkind]; rfl) _ _
  | hex =>
      obtain ⟨v, hv⟩ := Option.isSome_iff_exists.1 (hvalued.integer (.inr hkind))
      simp only [hv]
      exact literal_tallies hin (by rw [hkind]; rfl) _ _
  | float =>
      obtain ⟨v, hv⟩ := Option.isSome_iff_exists.1 (hvalued.real hkind)
      simp only [hv]
      exact literal_tallies hin (by rw [hkind]; rfl) _ _
  | chars => exact literal_tallies hin (by rw [hkind]; rfl) _ _
  | identifier => exact composite_tallies hin hstands hends _
  | keyword w => exact composite_tallies hin hstands hends _
  | sqlVariable => exact composite_tallies hin hstands hends _
  | endOfInput => exact composite_tallies hin hstands hends _

/-! ## The two readers -/

/-- One reader took an expression apart, the other read over it: both succeeded or none did,
they stand at the same token on the same level, have counted the same `?` and found the same
queries, or they report the same fault. -/
structure Alongside (x : EStateM.Result Fault Reading Expr)
    (y : EStateM.Result Fault Reading Unit) : Prop where
  succeeds : (∃ e s, x = .ok e s) ↔ ∃ s, y = .ok () s
  leaves : ∀ e s s', x = .ok e s → y = .ok () s' →
    s.cursor = s'.cursor ∧ s.nesting = s'.nesting ∧
      s.draft.parameters = s'.draft.parameters ∧ s.draft.subqueries = s'.draft.subqueries
  fails : ∀ f f' s s', x = .error f s → y = .error f' s' → f = f'

theorem Tallying.alongside {x : EStateM.Result Fault Reading Expr}
    {y : EStateM.Result Fault Reading Unit} (h : Tallying Draft.Abreast x y)
    (hx : ∀ f s, x = .error f s → f.isReported = true)
    (hy : ∀ f s, y = .error f s → f.isReported = true) : Alongside x y := by
  cases h with
  | @ok e _ s s' hs =>
      constructor
      · exact ⟨fun _ => ⟨s', rfl⟩, fun _ => ⟨e, s, rfl⟩⟩
      · intro _ _ _ hok hok'
        cases hok
        cases hok'
        exact ⟨hs.cursor, hs.nesting, hs.draft.parameters, hs.draft.subqueries⟩
      · intro _ _ _ _ herror
        cases herror
  | fault =>
      constructor
      · constructor
        · rintro ⟨_, _, hok⟩
          cases hok
        · rintro ⟨_, hok⟩
          cases hok
      · intro _ _ _ hok
        cases hok
      · intro _ _ _ _ herror herror'
        cases herror
        cases herror'
        rfl
  | left hsilent => cases hsilent.symm.trans (hx _ _ rfl)
  | right hsilent => cases hsilent.symm.trans (hy _ _ rfl)

/-- Wherever a reading stands in its statement, and whatever it gathered so far, taking the
expression there apart and reading over it come to the same, unless one of them ends without
an error to report. -/
theorem alongside_expression (env : Setting) (n : Nat) (r : Reading) (k : Nat) (tried : Bool)
    (hstands : Cursor.Stands ((TokenStream.ofText env.dialect env.source).retried tried) k r.cursor)
    (hexpression : ∀ f s, expression env (Inner.upTo env n) r = .error f s → f.isReported = true)
    (hoperand : ∀ f s, fullOperand (Inner.upTo env n) r = .error f s → f.isReported = true) :
    Alongside (expression env (Inner.upTo env n) r) (fullOperand (Inner.upTo env n) r) := by
  have hmem : r.cursor.current ∈ (TokenStream.ofText env.dialect env.source).tokens := by
    have hcurrent := hstands.current
    rw [TokenStream.tokens_retried] at hcurrent
    exact List.mem_of_getElem? hcurrent
  have hends := (TokenStream.ends_ofText env.dialect env.source).retried tried
  have hvalued : r.cursor.current.Valued := TokenStream.valued_ofText hmem
  have htallies : Tallies Draft.Abreast (expression env (Inner.upTo env n))
      (fullOperand (Inner.upTo env n)) r r :=
    expression_tallies (Inner.heedless_upTo env n) hstands hends hvalued
  exact htallies.alongside hexpression hoperand

/-- The number of `?` counted, if a reader succeeds. -/
def countedBy? {α : Type} (x : EStateM.Result Fault Reading α) : Option Nat :=
  match x with
  | .ok _ s => some s.draft.parameters
  | .error _ _ => none

theorem isReported_of_counted {α : Type} {x : EStateM.Result Fault Reading α} {n : Nat}
    (h : countedBy? x = some n) (f : Fault) (s : Reading) (herror : x = .error f s) :
    f.isReported = true := by
  subst herror
  cases h

/-- Members of members, a call, a query in it and a number. -/
theorem alongside_members : ∃ c,
    Cursor.ofText .mysql "t.a.b + f(?, (SELECT c FROM u)) - 2.5".toList = .ok c ∧
      let env : Setting := ⟨"t.a.b + f(?, (SELECT c FROM u)) - 2.5".toList, .mysql,
        Catalogue.everyName, 4⟩
      countedBy? (expression env (Inner.upTo env 4) (Reading.start c)) = some 1 ∧
        Alongside (expression env (Inner.upTo env 4) (Reading.start c))
          (fullOperand (Inner.upTo env 4) (Reading.start c)) := by
  have hcursor : ∃ c, Cursor.ofText .mysql "t.a.b + f(?, (SELECT c FROM u)) - 2.5".toList = .ok c ∧
      let env : Setting := ⟨"t.a.b + f(?, (SELECT c FROM u)) - 2.5".toList, .mysql,
        Catalogue.everyName, 4⟩
      countedBy? (expression env (Inner.upTo env 4) (Reading.start c)) = some 1 ∧
        countedBy? (fullOperand (Inner.upTo env 4) (Reading.start c)) = some 1 :=
    exists_of_any (by decide +kernel)
  obtain ⟨c, h, hexpression, hoperand⟩ := hcursor
  exact ⟨c, h, hexpression, alongside_expression _ 4 (Reading.start c) 0 false
    (Cursor.Stands.of_ofText h) (isReported_of_counted hexpression)
    (isReported_of_counted hoperand)⟩

end Reader

end SqlMarkers
