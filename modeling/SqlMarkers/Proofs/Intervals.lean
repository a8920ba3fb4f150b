/-
SqlMarkers.Proofs.Intervals — how far the operand of an `INTERVAL` goes.

`INTERVAL amount unit` is one operand. Its amount is read one level deeper by
`Reader.operand`, which reads one piece and leaves the members behind a `.` to
`Reader.continuation`. But the unit is looked for right behind the piece. So an amount of
one piece (a name, a literal, a `?`, a call, a term in parentheses) is followed by its
unit, and the whole of it is one expression. Behind `owner.member` the operand ends in
front of the `.`: the member is read as what continues the interval, and the unit is left
over (`readsWhole_iff`).
-/
import SqlMarkers.Proofs.Skipping

namespace SqlMarkers

/-! ## Amounts -/

/-- The forms of an amount of one piece, and `owner.member`. -/
inductive Amount where
  | name
  | member
  /-- A number or a string. -/
  | literal
  | placeholder
  /-- The name of a function and its arguments in parentheses. -/
  | call
  /-- Something in parentheses. -/
  | term
deriving DecidableEq, Repr

/-- The form of an expression that was taken apart. -/
def Expr.amount? : Expr → Option Amount
  | .name _ => some .name
  | .member .. => some .member
  | .placeholder .. => some .placeholder
  | .number .. | .text .. => some .literal
  | .verbatim .. => none

/-- From the reading `r` the step `m` gives a result, and `P` holds of it and of the reading
behind it. -/
def Reader.Gives {α : Type} (m : Reader α) (r : Reading) (P : α → Reading → Prop) : Prop :=
  ∃ a s, Yields m r a s ∧ P a s

section Gives

variable {α : Type} {m : Reader α} {r s : Reading} {P : α → Reading → Prop} {a : α} {f : Fault}

theorem Reader.gives_ok (h : m r = .ok a s) : m.Gives r P ↔ P a s := by
  constructor
  · rintro ⟨a', s', hm, hP⟩
    cases h.symm.trans hm
    exact hP
  · exact fun hP => ⟨a, s, h, hP⟩

theorem Reader.not_gives_error (h : m r = .error f s) : ¬m.Gives r P := by
  rintro ⟨a', s', hm, -⟩
  cases h.symm.trans hm

instance Reader.decidableGives (m : Reader α) (r : Reading) (P : α → Reading → Prop)
    [∀ a s, Decidable (P a s)] : Decidable (m.Gives r P) :=
  match h : m r with
  | .ok _ _ => decidable_of_iff _ (Reader.gives_ok h).symm
  | .error _ _ => isFalse (Reader.not_gives_error h)

end Gives

/-- The expression `e`, which was read from `r` up to the cursor `c`, has this form. Of the
expressions that are kept as text, those count that end with the parenthesis that belongs to
their first one. -/
def Amount.Fits (inner : Inner) (r : Reading) (e : Expr) (c : Cursor) : Amount → Prop
  | .call => (Reader.atCall.Gives r fun call _ => call = true) ∧
      Reader.Gives (do Reader.next; Reader.parentheses inner) r fun _ s => s.cursor = c
  | .term => r.cursor.current.kind = .symbol .leftParen ∧
      (Reader.parentheses inner).Gives r fun _ s => s.cursor = c
  | amount => e.amount? = some amount

instance Amount.decidableFits (inner : Inner) (r : Reading) (e : Expr) (c : Cursor) :
    (amount : Amount) → Decidable (amount.Fits inner r e c)
  | .call => inferInstanceAs (Decidable ((Reader.atCall.Gives r fun call _ => call = true) ∧
      Reader.Gives (do Reader.next; Reader.parentheses inner) r fun _ s => s.cursor = c))
  | .term => inferInstanceAs (Decidable (r.cursor.current.kind = .symbol .leftParen ∧
      (Reader.parentheses inner).Gives r fun _ s => s.cursor = c))
  | .name | .member | .literal | .placeholder => inferInstanceAs (Decidable (e.amount? = some _))

/-- A cursor that moved and is not at its last token yet moved over one token. -/
theorem Cursor.ahead_of_next {c c' : Cursor} (h : Yields Cursor.next c () c')
    (hmore : c'.ahead ≠ []) : c.ahead = c'.current :: c'.ahead := by
  unfold Yields Cursor.next at h
  dsimp only at h
  split at h
  · rename_i hahead
    cases h
    exact hahead
  · cases h
  · rename_i hahead _
    cases h
    exact absurd hahead hmore

/-- Between the cursors stand a `.` and a name that may be a member. -/
def Cursor.MemberUpTo (c c' : Cursor) : Prop :=
  c.current.isSymbol .dot = true ∧ ∃ c₁, Yields Cursor.next c () c₁ ∧
    (c₁.current.isName || c₁.current.isSymbol .star || c₁.current.isAnyKeyword) = true ∧
    Yields Cursor.next c₁ () c'

/-- An expression whose first piece ends at `c` ends at `c'`. -/
def Expr.EndsBehind (c c' : Cursor) : Expr → Prop
  | .member .. => c.MemberUpTo c'
  | _ => c = c'

/-- Whether a call may start with a token of this kind. -/
def Kind.isCallable : Kind → Bool
  | .keyword k => k.isNameLike || [.LEFT, .RIGHT, .VALUES, .INSERT, .IF].contains k
  | k => k.isName

theorem Kind.isCallable_of_isName {k : Kind} (h : k.isName = true) : k.isCallable = true := by
  cases k with
  | keyword w => exact Bool.or_eq_true_iff.2 (.inl h)
  | _ => exact h

namespace Reader

variable {env : Setting} {inner : Inner} {n : Nat} {r s : Reading}

/-- At `r` stands `INTERVAL`, behind it, read one level deeper, an expression of the form
`amount` that ends in front of `unit`, a plain name, and behind that only the end of the
text. -/
structure Interval (env : Setting) (n : Nat) (r : Reading) (amount : Amount) (unit : Token) :
    Prop where
  keyword : r.cursor.current.kind = .keyword .INTERVAL
  room : r.nesting.depth < env.limit
  reads : next.Gives r fun _ r₁ =>
    (expression env (Inner.upTo env n)).Gives r₁.deeper fun e s =>
      amount.Fits (Inner.upTo env n) r₁.deeper e s.cursor ∧ s.cursor.current = unit ∧
        s.cursor.ahead ≠ [] ∧ ∀ t ∈ s.cursor.ahead, t.isEnd = true
  unit : unit.kind = .identifier

instance (env : Setting) (n : Nat) (r : Reading) (amount : Amount) (unit : Token) :
    Decidable (Interval env n r amount unit) :=
  decidable_of_iff (_ ∧ _ ∧ _ ∧ _)
    ⟨fun ⟨h₁, h₂, h₃, h₄⟩ => ⟨h₁, h₂, h₃, h₄⟩, fun ⟨h₁, h₂, h₃, h₄⟩ => ⟨h₁, h₂, h₃, h₄⟩⟩

/-- The expression at `r` is kept as text up to the end of `unit`, and nothing is left. -/
def ReadsWhole (env : Setting) (n : Nat) (r : Reading) (unit : Token) : Prop :=
  (expression env (Inner.upTo env n)).Gives r fun e s =>
    e = .verbatim (sourceText env r.cursor.current.span.start unit.span.stop)
      ⟨r.cursor.current.span.start, unit.span.stop⟩ ∧ s.cursor.current.isEnd = true

instance (env : Setting) (n : Nat) (r : Reading) (unit : Token) :
    Decidable (ReadsWhole env n r unit) :=
  inferInstanceAs (Decidable (Gives ..))

/-! ## What continues an operand -/

theorem continuation_stop
    (h : r.cursor.current.kind = .identifier ∨ r.cursor.current.kind = .endOfInput) :
    Yields (continuation inner) r false r := by
  refine repeating_stop ((current_bind _).trans ?_)
  rcases h with h | h <;> rw [h] <;> rfl

/-- Where nothing was found, nothing was consumed. -/
theorem eq_of_continuation (h : Yields (continuation inner) r false s) : r = s := by
  refine repeatStep_yields (fun found r' => found = false → r = r')
    (fun found r' => found = false → r = r') ?_ (fun _ => rfl) h rfl
  intro found r₁ round r₂ hr₁ hround
  replace hround := bind_current hround
  split at hround
  · obtain ⟨_, -, rfl⟩ := yields_map.1 hround
    exact nofun
  · obtain ⟨_, r₃, -, hround⟩ := yields_bind.1 hround
    replace hround := bind_current hround
    rcases yields_ite.1 hround with ⟨-, hround⟩ | ⟨-, hround⟩
    · obtain ⟨_, -, rfl⟩ := yields_map.1 hround
      exact nofun
    · exact (yields_failExpected.1 hround).elim
  · rcases yields_ite.1 hround with ⟨-, hround⟩ | ⟨-, hround⟩
    · obtain ⟨_, r₃, -, hround⟩ := yields_bind.1 hround
      obtain ⟨_, -, rfl⟩ := yields_map.1 hround
      exact nofun
    · obtain ⟨rfl, rfl⟩ := yields_pure.1 hround
      exact hr₁
  · obtain ⟨_, r₃, -, hround⟩ := yields_bind.1 hround
    obtain ⟨_, -, rfl⟩ := yields_map.1 hround
    exact nofun
  · obtain ⟨_, r₃, -, hround⟩ := yields_bind.1 hround
    obtain ⟨_, -, rfl⟩ := yields_map.1 hround
    exact nofun
  · obtain ⟨rfl, rfl⟩ := yields_pure.1 hround
    exact hr₁

/-- A leaf that stays a leaf is all that was consumed. -/
theorem eq_of_leafOr {start : Nat} {leaf e : Expr} (h : Yields (leafOr env inner start leaf) r e s)
    (he : e.isVerbatim = false) : e = leaf ∧ r = s := by
  obtain ⟨found, r₁, hcont, h⟩ := yields_bind.1 h
  rcases yields_ite.1 h with ⟨-, h⟩ | ⟨hfound, h⟩
  · replace h := bind_lastEnd h
    obtain ⟨rfl, -⟩ := yields_pure.1 h
    cases he
  · obtain ⟨rfl, rfl⟩ := yields_pure.1 h
    rw [Bool.not_eq_true] at hfound
    subst hfound
    exact ⟨rfl, eq_of_continuation hcont⟩

/-! ## Amounts of one piece -/

theorem operand_consume (inner : Inner) (hleaf : r.cursor.current.kind.isLeaf = true)
    (hcall : Yields atCall r false r) : operand inner r = consume r := by
  rw [operand_leaf hleaf]
  exact bind_ok hcall

theorem operand_literal {c : Cursor} (h : r.cursor.current.kind.isLiteral = true)
    (hnext : Yields Cursor.next r.cursor () c) : Yields (operand inner) r () (r.moved c) := by
  obtain ⟨hleaf, hname, hquestion⟩ := Token.of_isLiteral h
  have hconsume := operand_consume inner hleaf (atCall_unnamed hleaf hname)
  exact hconsume.trans ((consume_unnamed hname hquestion).trans (next_ok hnext))

theorem operand_placeholder {c : Cursor} (h : r.cursor.current.kind = .symbol .question)
    (hnext : Yields Cursor.next r.cursor () c) (hlimit : r.draft.parameters < Counter.limit) :
    Yields (operand inner) r () (r.counted.moved c) := by
  have hleaf : r.cursor.current.kind.isLeaf = true := by
    rw [h]
    rfl
  have hname : r.cursor.current.isName = false := by
    rw [Token.isName, h]
    rfl
  have hconsume := operand_consume inner hleaf (atCall_unnamed hleaf hname)
  have hmove : Yields next r.counted () (r.counted.moved c) := next_ok (r := r.counted) hnext
  exact hconsume.trans ((consume_question h).trans
    ((bind_ok (nextParameter_ok hlimit)).trans hmove))

/-- A name is consumed, and noted if a `.` follows. -/
theorem operand_name (inner : Inner) {c : Cursor} (hname : r.cursor.current.isName = true)
    (hcall : Yields atCall r false r) (hnext : Yields Cursor.next r.cursor () c) :
    operand inner r =
      (if c.current.isSymbol .dot then noteOwner r.cursor.current else pure ()) (r.moved c) := by
  have hmember : (r.cursor.current.isName || r.cursor.current.isSymbol .star ||
      r.cursor.current.isAnyKeyword) = true := by
    rw [hname]
    rfl
  obtain ⟨-, hquestion⟩ := Token.of_member hmember
  have hconsume := operand_consume inner (Kind.isLeaf_of_isName hname) hcall
  rw [hconsume, consume_named hquestion, bind_ok (next_ok hnext), hname]
  rfl

theorem isCallable_of_atCall (h : Yields atCall r true r) :
    r.cursor.current.kind.isCallable = true := by
  rcases yields_ite.1 (bind_current h) with ⟨hcallable, -⟩ | ⟨-, hnone⟩
  · simp only [Bool.or_eq_true, Token.isKeyword_iff] at hcallable
    rcases hcallable with ((((hname | hk) | hk) | hk) | hk) | hk
    · exact Kind.isCallable_of_isName hname
    all_goals
      rw [hk]
      rfl
  · cases (yields_pure.1 hnone).1

theorem operand_call (hcall : Yields atCall r true r) :
    operand inner r = (do next; let _ ← parentheses inner) r := by
  have hmarks : ∀ k ∈ operandMarks, k.isCallable = false := by decide
  have hplain : r.cursor.current.kind ∉ operandMarks := fun hk => by
    cases (isCallable_of_atCall hcall).symm.trans (hmarks _ hk)
  exact (operand_plain hplain).trans (bind_ok hcall)

theorem operand_term (h : r.cursor.current.kind = .symbol .leftParen) :
    operand inner r = (do let _ ← parentheses inner) r := by
  have hsigns : Yields signs r () r := signs_stop (by rw [h]; rfl)
  refine (bind_ok hsigns).trans ((current_bind _).trans ?_)
  rw [h]

/-! ## Expressions taken apart -/

theorem operand_of_literal {start : Nat} {leaf e : Expr}
    (hkind : r.cursor.current.kind.isLiteral = true)
    (h : Yields (do next; leafOr env inner start leaf) r e s) (he : e.isVerbatim = false) :
    e = leaf ∧ ∃ s₁, Yields (operand inner) r () s₁ ∧ s₁.cursor = s.cursor := by
  obtain ⟨_, r₁, hstep, h⟩ := yields_bind.1 h
  obtain ⟨c, hnext, rfl⟩ := yields_onCursor.1 hstep
  obtain ⟨rfl, rfl⟩ := eq_of_leafOr h he
  exact ⟨rfl, _, operand_literal hkind hnext, rfl⟩

theorem operand_of_placeholder {start : Nat} {e : Expr}
    (hkind : r.cursor.current.kind = .symbol .question)
    (h : Yields (do
      next
      let index ← nextParameter
      leafOr env inner start (.placeholder index r.cursor.current.span)) r e s)
    (he : e.isVerbatim = false) : (∃ index span, e = .placeholder index span) ∧
      ∃ s₁, Yields (operand inner) r () s₁ ∧ s₁.cursor = s.cursor := by
  obtain ⟨_, r₁, hstep, h⟩ := yields_bind.1 h
  obtain ⟨c, hnext, rfl⟩ := yields_onCursor.1 hstep
  obtain ⟨index, r₂, hcount, h⟩ := yields_bind.1 h
  obtain ⟨rfl, rfl⟩ := eq_of_leafOr h he
  have hlimit : r.draft.parameters < Counter.limit := by
    by_contra hlimit
    cases (nextParameter_overflow (r := r.moved c) hlimit).symm.trans hcount
  obtain ⟨-, rfl⟩ := yields_nextParameter hcount
  exact ⟨⟨_, _, rfl⟩, _, operand_placeholder hkind hnext hlimit, rfl⟩

/-- Behind the `.` of an owner that stays apart, all that was consumed is the member. -/
theorem endsBehind_of_member {start : Nat} {owner : Ident} {member : String} {e : Expr}
    {c : Cursor} (hdot : c.current.isSymbol .dot = true)
    (hnext : Yields Cursor.next c () r.cursor)
    (hmember : (r.cursor.current.isName || r.cursor.current.isSymbol .star ||
      r.cursor.current.isAnyKeyword) = true)
    (h : Yields (do
      next
      recordPassage .member r.cursor.current.span
      let stop ← lastEnd
      leafOr env inner start (.member owner member ⟨start, stop⟩)) r e s)
    (he : e.isVerbatim = false) : e.EndsBehind c s.cursor := by
  obtain ⟨_, r₁, hstep, h⟩ := yields_bind.1 h
  obtain ⟨c₁, hnext₁, rfl⟩ := yields_onCursor.1 hstep
  obtain ⟨_, r₂, hpass, h⟩ := yields_bind.1 h
  obtain rfl := yields_recordPassage.1 hpass
  replace h := bind_lastEnd h
  obtain ⟨rfl, rfl⟩ := eq_of_leafOr h he
  exact ⟨hdot, _, hnext, hmember, hnext₁⟩

theorem operand_of_named {e : Expr} (hname : r.cursor.current.isName = true)
    (hcall : Yields atCall r false r) (h : Yields (namedExpression env inner) r e s)
    (he : e.isVerbatim = false) :
    ∃ s₁, Yields (operand inner) r () s₁ ∧ e.EndsBehind s₁.cursor s.cursor := by
  replace h := bind_current h
  obtain ⟨_, r₁, hstep, h⟩ := yields_bind.1 h
  obtain ⟨c, hnext, rfl⟩ := yields_onCursor.1 hstep
  obtain ⟨name, r₂, hdecoded, h⟩ := yields_bind.1 h
  obtain ⟨-, rfl⟩ := yields_nameOf.1 hdecoded
  replace h := bind_atSymbol h
  have hoperand := operand_name inner hname hcall hnext
  rcases yields_ite.1 h with ⟨hdot, h⟩ | ⟨hdot, h⟩
  · obtain ⟨_, r₂, hnote, h⟩ := yields_bind.1 h
    change c.current.isSymbol .dot = true at hdot
    rw [hdot] at hoperand
    refine ⟨r₂, hoperand.trans hnote, ?_⟩
    obtain ⟨_, -, rfl⟩ := yields_noteOwner.1 hnote
    obtain ⟨_, r₃, hstep₃, h⟩ := yields_bind.1 h
    obtain ⟨c₁, hnext₁, rfl⟩ := yields_onCursor.1 hstep₃
    replace h := bind_current h
    rcases yields_ite.1 h with ⟨hstar, h⟩ | ⟨-, h⟩
    · have hmember := Token.member_iff.2 (.inl hstar)
      exact endsBehind_of_member hdot hnext₁ hmember (bind_pure h) he
    · rcases yields_ite.1 h with ⟨hword, h⟩ | ⟨-, h⟩
      · obtain ⟨_, _, hdecoded, h⟩ := yields_bind.1 h
        obtain ⟨-, rfl⟩ := yields_nameOf.1 hdecoded
        have hmember := Token.member_iff.2 (.inr hword)
        exact endsBehind_of_member hdot hnext₁ hmember h he
      · exact (bind_failExpected h).elim
  · obtain ⟨rfl, rfl⟩ := eq_of_leafOr h he
    change ¬c.current.isSymbol .dot = true at hdot
    rw [if_neg hdot] at hoperand
    exact ⟨_, hoperand, rfl⟩

/-- An expression that was taken apart starts with one piece, and behind it there may be a
member. -/
theorem operand_of_expression {e : Expr} (h : Yields (expression env inner) r e s)
    (he : e.isVerbatim = false) :
    ∃ s₁, Yields (operand inner) r () s₁ ∧ e.EndsBehind s₁.cursor s.cursor := by
  have hliteral : ∀ {start : Nat} {leaf : Expr}, r.cursor.current.kind.isLiteral = true →
      Yields (do next; leafOr env inner start leaf) r e s → leaf.EndsBehind s.cursor s.cursor →
      ∃ s₁, Yields (operand inner) r () s₁ ∧ e.EndsBehind s₁.cursor s.cursor := by
    intro start leaf hkind h hends
    obtain ⟨rfl, s₁, hoperand, hs⟩ := operand_of_literal hkind h he
    exact ⟨s₁, hoperand, hs ▸ hends⟩
  have hcomposite : ∀ {start : Nat}, ¬Yields (do
      operand inner
      let _ ← continuation inner
      verbatimFrom env start) r e s := by
    intro start hn
    obtain ⟨_, r₁, -, hn⟩ := yields_bind.1 hn
    obtain ⟨_, r₂, -, hn⟩ := yields_bind.1 hn
    replace hn := bind_lastEnd hn
    obtain ⟨rfl, -⟩ := yields_pure.1 hn
    cases he
  replace h := bind_current h
  split at h
  · rename_i hkind
    obtain ⟨⟨index, span, rfl⟩, s₁, hoperand, hs⟩ := operand_of_placeholder hkind h he
    exact ⟨s₁, hoperand, hs⟩
  · rename_i hkind
    split at h
    · exact hliteral (by rw [hkind]; rfl) h rfl
    · obtain ⟨_, _, -, h⟩ := yields_bind.1 h
      exact (yields_failAt.1 h).elim
  · rename_i hkind
    split at h
    · exact hliteral (by rw [hkind]; rfl) h rfl
    · obtain ⟨_, _, -, h⟩ := yields_bind.1 h
      exact (yields_failAt.1 h).elim
  · rename_i hkind
    split at h
    · exact hliteral (by rw [hkind]; rfl) h rfl
    · obtain ⟨_, _, -, h⟩ := yields_bind.1 h
      exact (yields_failAt.1 h).elim
  · rename_i hkind
    exact hliteral (by rw [hkind]; rfl) h rfl
  · rcases yields_ite.1 h with ⟨hname, h⟩ | ⟨-, h⟩
    · obtain ⟨call, r₁, hcall, h⟩ := yields_bind.1 h
      obtain ⟨rfl, -⟩ := atCall_yields hcall
      rcases yields_ite.1 h with ⟨-, h⟩ | ⟨hsingle, h⟩
      · exact absurd h hcomposite
      · rw [Bool.not_eq_true] at hsingle
        subst hsingle
        exact operand_of_named hname hcall h he
    · exact absurd (bind_pure h) hcomposite

/-- The first piece of an amount is the amount, or what stands in front of its member. -/
theorem operand_of_fits {amount : Amount} {e : Expr} (h : Yields (expression env inner) r e s)
    (hfits : amount.Fits inner r e s.cursor) : ∃ s₁, Yields (operand inner) r () s₁ ∧
      if amount = .member then s₁.cursor.MemberUpTo s.cursor else s₁.cursor = s.cursor := by
  have hapart : e.amount? = some amount → ∃ s₁, Yields (operand inner) r () s₁ ∧
      if amount = .member then s₁.cursor.MemberUpTo s.cursor else s₁.cursor = s.cursor := by
    intro hamount
    cases e with
    | verbatim text span => cases hamount
    | _ =>
        obtain rfl := Option.some.inj hamount
        exact operand_of_expression h rfl
  cases amount with
  | call =>
      obtain ⟨⟨call, r', hcall, rfl⟩, span, s₁, hparens, hs⟩ := hfits
      obtain ⟨rfl, -⟩ := atCall_yields hcall
      obtain ⟨_, r₁, hnext, hparens⟩ := yields_bind.1 hparens
      refine ⟨s₁, (operand_call hcall).trans ?_, hs⟩
      exact yields_bind.2 ⟨_, r₁, hnext, yields_map.2 ⟨span, hparens, rfl⟩⟩
  | term =>
      obtain ⟨hkind, span, s₁, hparens, hs⟩ := hfits
      exact ⟨s₁, (operand_term hkind).trans (yields_map.2 ⟨span, hparens, rfl⟩), hs⟩
  | name => exact hapart hfits
  | member => exact hapart hfits
  | literal => exact hapart hfits
  | placeholder => exact hapart hfits

/-! ## Intervals -/

theorem expression_interval (h : r.cursor.current.kind = .keyword .INTERVAL) :
    expression env inner r = (do
      operand inner
      let _ ← continuation inner
      verbatimFrom env r.cursor.current.span.start) r := by
  have hname : r.cursor.current.isName = false := by
    rw [Token.isName, h]
    rfl
  refine (current_bind _).trans ?_
  rw [h, hname]
  rfl

theorem nested_ok {α : Type} {body : Reader α} {a : α} (hroom : r.nesting.depth < env.limit)
    (h : Yields body r.deeper a s) : Yields (nested env body) r a s.shallower := by
  unfold Yields nested
  split
  · rename_i hlimit
    exact absurd hroom (Nat.not_lt.2 hlimit)
  · rw [show body r.deeper = _ from h]

/-- Behind the first piece of its amount, an `INTERVAL` takes a name. -/
theorem operand_interval {c : Cursor} {s₁ : Reading}
    (hkind : r.cursor.current.kind = .keyword .INTERVAL) (hroom : r.nesting.depth < env.limit)
    (hnext : Yields Cursor.next r.cursor () c)
    (hpiece : Yields (operand (Inner.upTo env n)) (r.moved c).deeper () s₁) :
    operand (Inner.upTo env (n + 1)) r = (do
      if s₁.cursor.current.isName then
        next
        recordPassage .unit s₁.cursor.current.span) s₁.shallower := by
  have hsigns : Yields signs r () r := signs_stop (by rw [hkind]; rfl)
  have hinner : Yields (Inner.upTo env (n + 1)).operand (r.moved c) () s₁.shallower :=
    nested_ok hroom hpiece
  refine (bind_ok hsigns).trans ((current_bind _).trans ?_)
  rw [hkind]
  exact (bind_ok (next_ok hnext)).trans (bind_ok hinner)

theorem consume_single {c : Cursor} (hquestion : r.cursor.current.isSymbol .question = false)
    (hnext : Yields Cursor.next r.cursor () c) (hdot : c.current.isSymbol .dot = false) :
    Yields consume r () (r.moved c) := by
  refine (consume_named hquestion).trans ((bind_ok (next_ok hnext)).trans ?_)
  show (ite _ _ _ : Reader Unit) _ = _
  rw [if_neg]
  · rfl
  · show ¬(r.cursor.current.isName && c.current.isSymbol .dot) = true
    rw [hdot, Bool.and_false]
    exact Bool.false_ne_true

/-- A member is moved over as what continues an operand. -/
theorem continuation_member {c : Cursor} (h : r.cursor.MemberUpTo c)
    (hunit : c.current.kind = .identifier) (hmore : c.ahead ≠ []) :
    Yields (continuation inner) r true (r.moved c) := by
  obtain ⟨hdot, c₁, hnext, hmember, hnext₁⟩ := h
  have hahead₁ := Cursor.ahead_of_next hnext₁ hmore
  have hahead := Cursor.ahead_of_next hnext (hahead₁ ▸ List.cons_ne_nil _ _)
  have hless : c.remaining < r.cursor.remaining := by
    rw [Cursor.remaining, Cursor.remaining, hahead, hahead₁, List.length_cons, List.length_cons]
    omega
  have hunitDot : c.current.isSymbol .dot = false := by
    rw [Token.isSymbol, hunit]
    rfl
  obtain ⟨-, hquestion⟩ := Token.of_member hmember
  have hconsume : Yields consume (r.moved c₁) () (r.moved c) :=
    consume_single (r := r.moved c₁) hquestion hnext₁ hunitDot
  calc continuation inner r
    _ = repeating _ true (r.moved c) := by
        refine repeating_again ((current_bind _).trans ?_) hless
        rw [Token.isSymbol_iff.1 hdot]
        refine (bind_ok (next_ok hnext)).trans ((current_bind _).trans ?_)
        exact (congrFun (if_pos hmember) _).trans (bind_ok hconsume)
    _ = .ok true (r.moved c) := by
        refine repeating_stop ((current_bind _).trans ?_)
        rw [show (r.moved c).cursor.current.kind = _ from hunit]
        rfl

variable {c : Cursor} {s₁ : Reading}

/-- Where the piece is followed by a plain name at the end of the text, all of it is one
expression. -/
theorem readsWhole_of_piece (hkind : r.cursor.current.kind = .keyword .INTERVAL)
    (hroom : r.nesting.depth < env.limit) (hnext : Yields Cursor.next r.cursor () c)
    (hpiece : Yields (operand (Inner.upTo env n)) (r.moved c).deeper () s₁)
    (hunit : s₁.cursor.current.kind = .identifier) (hmore : s₁.cursor.ahead ≠ [])
    (hlast : ∀ t ∈ s₁.cursor.ahead, t.isEnd = true) :
    ReadsWhole env (n + 1) r s₁.cursor.current := by
  obtain ⟨t, ts, hahead⟩ := List.exists_cons_of_ne_nil hmore
  have hend : t.isEnd = true := hlast t (hahead ▸ List.mem_cons_self)
  have hname : s₁.cursor.current.isName = true := by
    rw [Token.isName, hunit]
    rfl
  have hmove : Yields Cursor.next s₁.cursor ()
      ⟨t, ts, s₁.cursor.failure, s₁.cursor.current.span.stop⟩ := by
    unfold Yields Cursor.next
    rw [hahead]
  have hoperand : Yields (operand (Inner.upTo env (n + 1))) r ()
      ((s₁.shallower.moved ⟨t, ts, s₁.cursor.failure, s₁.cursor.current.span.stop⟩).passing .unit
        s₁.cursor.current.span) := by
    rw [Yields, operand_interval hkind hroom hnext hpiece, if_pos hname]
    exact bind_ok (next_ok (r := s₁.shallower) hmove)
  refine ⟨_, _, (expression_interval hkind).trans ((bind_ok hoperand).trans
    (bind_ok (continuation_stop (.inr ?_)))), rfl, hend⟩
  exact Token.isEnd_iff.1 hend

/-- Behind an owner the unit is left over. -/
theorem expression_of_member (hkind : r.cursor.current.kind = .keyword .INTERVAL)
    (hroom : r.nesting.depth < env.limit) (hnext : Yields Cursor.next r.cursor () c)
    (hpiece : Yields (operand (Inner.upTo env n)) (r.moved c).deeper () s₁)
    (hmember : s₁.cursor.MemberUpTo s.cursor) (hunit : s.cursor.current.kind = .identifier)
    (hmore : s.cursor.ahead ≠ []) :
    Yields (expression env (Inner.upTo env (n + 1))) r
      (.verbatim (sourceText env r.cursor.current.span.start s.cursor.lastEnd)
        ⟨r.cursor.current.span.start, s.cursor.lastEnd⟩) (s₁.shallower.moved s.cursor) := by
  have hname : ¬s₁.cursor.current.isName = true := by
    rw [Token.isName, Token.isSymbol_iff.1 hmember.1]
    exact Bool.false_ne_true
  have hoperand : Yields (operand (Inner.upTo env (n + 1))) r () s₁.shallower := by
    rw [Yields, operand_interval hkind hroom hnext hpiece, if_neg hname]
    rfl
  have hcontinuation : Yields (continuation (Inner.upTo env (n + 1))) s₁.shallower true
      (s₁.shallower.moved s.cursor) := continuation_member hmember hunit hmore
  exact (expression_interval hkind).trans ((bind_ok hoperand).trans (bind_ok hcontinuation))

/-- An `INTERVAL` with an amount of one piece and a unit is one expression, and with
`owner.member` it is not: the unit is left over. -/
theorem readsWhole_iff {amount : Amount} {unit : Token} (h : Interval env n r amount unit) :
    ReadsWhole env (n + 1) r unit ↔ amount ≠ .member := by
  obtain ⟨hkind, hroom, ⟨_, r₁, hstep, e, s, hread, hfits, rfl, hmore, hlast⟩, hunit⟩ := h
  obtain ⟨c, hnext, rfl⟩ := yields_onCursor.1 hstep
  obtain ⟨s₁, hpiece, hpast⟩ := operand_of_fits hread hfits
  by_cases hmember : amount = .member
  · rw [if_pos hmember] at hpast
    have hleft := expression_of_member hkind hroom hnext hpiece hpast hunit hmore
    refine iff_of_false ?_ (not_not.2 hmember)
    rintro ⟨e', s', hwhole, -, hend⟩
    obtain ⟨-, rfl⟩ := EStateM.Result.ok.inj (hleft.symm.trans hwhole)
    rw [show (s₁.shallower.moved s.cursor).cursor.current = s.cursor.current from rfl,
      Token.isEnd, hunit] at hend
    cases hend
  · rw [if_neg hmember] at hpast
    rw [← hpast] at hunit hmore hlast ⊢
    exact iff_of_true (readsWhole_of_piece hkind hroom hnext hpiece hunit hmore hlast) hmember

/-- A call and its unit. -/
theorem readsWhole_call :
    ∃ c, Cursor.ofText .mysql "INTERVAL f((SELECT 1), ?) DAY".toList = .ok c ∧
      let env : Setting := ⟨"INTERVAL f((SELECT 1), ?) DAY".toList, .mysql, Catalogue.everyName, 4⟩
      Interval env 3 (Reading.start c) .call ⟨.identifier, "DAY", ⟨26, 29⟩⟩ ∧
        ReadsWhole env 4 (Reading.start c) ⟨.identifier, "DAY", ⟨26, 29⟩⟩ := by
  have hcursor : ∃ c, Cursor.ofText .mysql "INTERVAL f((SELECT 1), ?) DAY".toList = .ok c ∧
      Interval ⟨"INTERVAL f((SELECT 1), ?) DAY".toList, .mysql, Catalogue.everyName, 4⟩ 3
        (Reading.start c) .call ⟨.identifier, "DAY", ⟨26, 29⟩⟩ :=
    exists_of_any (by decide +kernel)
  obtain ⟨c, hc, h⟩ := hcursor
  exact ⟨c, hc, h, (readsWhole_iff h).2 nofun⟩

/-- The unit is left over behind `t.c`. -/
theorem not_readsWhole_member :
    ∃ c, Cursor.ofText .standard "INTERVAL t.c DAY".toList = .ok c ∧
      let env : Setting := ⟨"INTERVAL t.c DAY".toList, .standard, Catalogue.everyName, 4⟩
      Interval env 3 (Reading.start c) .member ⟨.identifier, "DAY", ⟨13, 16⟩⟩ ∧
        ¬ReadsWhole env 4 (Reading.start c) ⟨.identifier, "DAY", ⟨13, 16⟩⟩ :=
  exists_of_any (by decide +kernel)

end Reader

end SqlMarkers
