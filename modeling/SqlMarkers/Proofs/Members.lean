/-
SqlMarkers.Proofs.Members — the word behind a dot.

Behind `owner.` the readers of expressions take any name and any keyword for the name of a
member. `Token.Renames` relates two lists of tokens in which members are spelled in
different words, and `Reading.Renames` two readings that stand in such lists and have
gathered the same. From there every reader of operands and expressions ends alike, with
results in both readings or with faults in both: what a member is called has no part in
how an expression is read (`expression_renames`; where no query is nested,
`expression_renames_upTo` needs no assumption on what is nested).

Three words are left out, `SELECT`, `CASE` and `END`. The readers of parentheses and of
`CASE ... END` look at each token by itself and not at the `.` in front of it, so there
these three are never names of members: a member renamed to one of them starts a nested
query, opens a block or closes one. `unread_select` and `unread_block` are texts that
are no longer read for this reason.

All of this is about tokens. Which tokens a text has can change with a member as well:
behind a name that ends an operand a `-` is an operator, and behind a keyword that does
not it may be the sign of a number.
-/
import SqlMarkers.Proofs.Calls
import SqlMarkers.Proofs.Readback
import SqlMarkers.Proofs.Skipping

namespace SqlMarkers

/-! ## Renamed members -/

/-- Whether a token of this kind is read as a member wherever it stands behind a dot. -/
def Kind.isMember : Kind → Bool
  | .identifier => true
  | .keyword k => k != .SELECT && k != .CASE && k != .END
  | _ => false

/-- Two lists of tokens that differ in where they stand and in the names of members.
`behind` says whether the first token stands behind a dot, and `p` holds of the kinds of
all tokens that the lists share. A member with a dot of its own is an owner too, and keeps
its name. -/
inductive Token.Renames (p : Kind → Prop) : Bool → List Token → List Token → Prop
  | nil {behind : Bool} : Renames p behind [] []
  | same {behind : Bool} {t t' : Token} {ts ts' : List Token} (kind : t.kind = t'.kind)
      (text : t.text = t'.text) (shared : p t.kind) (rest : Renames p (t.isSymbol .dot) ts ts') :
      Renames p behind (t :: ts) (t' :: ts')
  | member {t t' u u' : Token} {ts ts' : List Token} (left : t.kind.isMember = true)
      (right : t'.kind.isMember = true) (name : t.name?.isSome = true)
      (name' : t'.name?.isSome = true) (follows : u.isSymbol .dot = false)
      (rest : Renames p false (u :: ts) (u' :: ts')) :
      Renames p true (t :: u :: ts) (t' :: u' :: ts')

/-- Two scopes that have counted the same `?`, noted the same names of owners and found as
many queries. -/
structure Draft.Renames (d d' : Draft) : Prop where
  parameters : d.parameters = d'.parameters
  owners : d.owners.map (fun o => (o.literal, o.name)) =
    d'.owners.map (fun o => (o.literal, o.name))
  subqueries : d.subqueries.length = d'.subqueries.length

/-- Two readings that stand in lists of tokens with renamed members and have gathered the
same so far. -/
structure Reading.Renames (p : Kind → Prop) (behind : Bool) (r r' : Reading) : Prop where
  tokens : Token.Renames p behind (r.cursor.current :: r.cursor.ahead)
    (r'.cursor.current :: r'.cursor.ahead)
  failure : r.cursor.failure.isSome = r'.cursor.failure.isSome
  draft : r.draft.Renames r'.draft
  nesting : r.nesting = r'.nesting

/-- What is not true of a dot tells that a token is none. -/
theorem Token.isSymbol_dot_of {t : Token} {p : Kind → Bool} (hp : p (.symbol .dot) = false)
    (h : p t.kind = true) : t.isSymbol .dot = false := by
  rw [Token.isSymbol, beq_eq_false_iff_ne]
  intro hdot
  rw [hdot, hp] at h
  cases h

/-- A member is no symbol. -/
theorem Token.isSymbol_of_isMember {t : Token} (h : t.kind.isMember = true) (s : Symbol) :
    t.isSymbol s = false := by
  rw [Token.isSymbol]
  cases hk : t.kind <;> rw [hk] at h <;> first | rfl | cases h

/-- A member is a name or a keyword. -/
theorem Token.takesMember {t : Token} (h : t.kind.isMember = true) :
    (t.isName || t.isSymbol .star || t.isAnyKeyword) = true ∧
      (t.kind = .identifier || t.isAnyKeyword) = true := by
  rw [Token.isName, Token.isAnyKeyword]
  cases hk : t.kind <;> rw [hk] at h <;> first | (cases h; done) | simp [Kind.isName]

/-- What is taken for a member is no dot. -/
theorem Token.isSymbol_dot_of_member {t : Token}
    (h : (t.isName || t.isSymbol .star || t.isAnyKeyword) = true) : t.isSymbol .dot = false := by
  rw [Token.isSymbol, beq_eq_false_iff_ne]
  intro hdot
  simp [Token.isName, Token.isSymbol, Token.isAnyKeyword, hdot, Kind.isName] at h

namespace Token.Renames

variable {p : Kind → Prop} {behind : Bool} {t t' : Token} {ts ts' : List Token}

/-- Renaming neither adds nor drops tokens. -/
theorem length_eq (h : Token.Renames p behind ts ts') : ts.length = ts'.length := by
  induction h with
  | nil => rfl
  | same _ _ _ _ ih => simp [ih]
  | member _ _ _ _ _ _ ih => simpa using ih

/-- The two heads are the same symbol or none at all. -/
theorem isSymbol (h : Token.Renames p behind (t :: ts) (t' :: ts')) (s : Symbol) :
    t.isSymbol s = t'.isSymbol s := by
  cases h with
  | same kind _ _ _ => rw [Token.isSymbol, kind, Token.isSymbol]
  | member left right _ _ _ _ =>
      rw [isSymbol_of_isMember left, isSymbol_of_isMember right]

/-- So are the tokens behind the heads. -/
theorem isSymbol_behind {u u' : Token} (h : Token.Renames p behind (t :: u :: ts) (t' :: u' :: ts'))
    (s : Symbol) : u.isSymbol s = u'.isSymbol s := by
  cases h with
  | same _ _ _ rest => exact rest.isSymbol s
  | member _ _ _ _ _ rest => exact rest.isSymbol s

/-- The two heads are of this kind or none of them is. -/
theorem kind_iff (h : Token.Renames p behind (t :: ts) (t' :: ts')) {kind : Kind}
    (hkind : kind.isMember = false) : t.kind = kind ↔ t'.kind = kind := by
  cases h with
  | same hkinds _ _ _ => rw [hkinds]
  | member left right _ _ _ _ =>
      constructor
      · rintro rfl
        simp [hkind] at left
      · rintro rfl
        simp [hkind] at right

/-- Only behind a dot do the heads differ. -/
theorem head (h : Token.Renames p false (t :: ts) (t' :: ts')) :
    t.kind = t'.kind ∧ t.text = t'.text := by
  cases h with
  | same kind text _ _ => exact ⟨kind, text⟩

end Token.Renames

namespace Reading.Renames

variable {p : Kind → Prop} {behind : Bool} {r r' : Reading}

theorem remaining (h : r.Renames p behind r') : r.cursor.remaining = r'.cursor.remaining :=
  Nat.succ.inj h.tokens.length_eq

/-- The two current tokens are of the same kind, or both are members. -/
theorem heads (h : r.Renames p behind r') : r.cursor.current.kind = r'.cursor.current.kind ∨
    (r.cursor.current.kind.isMember = true ∧ r'.cursor.current.kind.isMember = true) := by
  obtain ⟨⟨t, ts, _, _⟩, _, _, _⟩ := r
  obtain ⟨⟨t', ts', _, _⟩, _, _, _⟩ := r'
  cases h.tokens with
  | same kind _ _ _ => exact .inl kind
  | member left right _ _ _ _ => exact .inr ⟨left, right⟩

/-- Both current tokens are taken for a member, or none of them is. -/
theorem isMember (h : r.Renames p behind r') :
    (r.cursor.current.isName || r.cursor.current.isSymbol .star ||
      r.cursor.current.isAnyKeyword) =
    (r'.cursor.current.isName || r'.cursor.current.isSymbol .star ||
      r'.cursor.current.isAnyKeyword) := by
  rcases h.heads with hkind | ⟨hleft, hright⟩
  · simp only [Token.isName, Token.isSymbol, Token.isAnyKeyword, hkind]
  · rw [(Token.takesMember hleft).1, (Token.takesMember hright).1]

/-- Both current tokens are words that `namedExpression` takes for a member, or none is. -/
theorem isWord (h : r.Renames p behind r') :
    (r.cursor.current.kind = .identifier || r.cursor.current.isAnyKeyword) =
      (r'.cursor.current.kind = .identifier || r'.cursor.current.isAnyKeyword) := by
  rcases h.heads with hkind | ⟨hleft, hright⟩
  · simp only [Token.isAnyKeyword, hkind]
  · rw [(Token.takesMember hleft).2, (Token.takesMember hright).2]

/-- The two current tokens have the same text, or both have a decoded name. -/
theorem texts (h : r.Renames p behind r') : r.cursor.current.text = r'.cursor.current.text ∨
    (r.cursor.current.name?.isSome = true ∧ r'.cursor.current.name?.isSome = true) := by
  obtain ⟨⟨t, ts, _, _⟩, _, _, _⟩ := r
  obtain ⟨⟨t', ts', _, _⟩, _, _, _⟩ := r'
  cases h.tokens with
  | same _ text _ _ => exact .inl text
  | member _ _ name name' _ _ => exact .inr ⟨name, name'⟩

/-- What is no member is the same word on both sides, one that `p` admits. -/
theorem shared (h : r.Renames p behind r') (hhead : r.cursor.current.kind.isMember = false) :
    p r.cursor.current.kind := by
  obtain ⟨⟨t, ts, _, _⟩, _, _, _⟩ := r
  obtain ⟨⟨t', ts', _, _⟩, _, _, _⟩ := r'
  cases h.tokens with
  | same _ _ shared _ => exact shared
  | member left _ _ _ _ _ => simp [hhead] at left

/-- Where no dot stands in front, the two current tokens are the same word. -/
theorem kind (h : r.Renames p false r') : r.cursor.current.kind = r'.cursor.current.kind :=
  h.tokens.head.1

theorem text (h : r.Renames p false r') : r.cursor.current.text = r'.cursor.current.text :=
  h.tokens.head.2

theorem isName (h : r.Renames p false r') : r.cursor.current.isName = r'.cursor.current.isName := by
  rw [Token.isName, h.kind, Token.isName]

theorem isKeyword (h : r.Renames p false r') (k : Keyword) :
    r.cursor.current.isKeyword k = r'.cursor.current.isKeyword k := by
  rw [Token.isKeyword, h.kind, Token.isKeyword]

/-- A reading that stands at no member may as well stand behind another token. -/
theorem settle (h : r.Renames p behind r') (hhead : r.cursor.current.kind.isMember = false) :
    r.Renames p false r' := by
  obtain ⟨⟨t, ts, _, _⟩, _, _, _⟩ := r
  obtain ⟨⟨t', ts', _, _⟩, _, _, _⟩ := r'
  refine ⟨?_, h.failure, h.draft, h.nesting⟩
  cases h.tokens with
  | same kind text shared rest => exact .same kind text shared rest
  | member left _ _ _ _ _ => simp [hhead] at left

end Reading.Renames

/-! ## Two runs that end alike -/

/-- Both runs give results, which `Q` relates, or both fail. -/
inductive Reader.Ending {α : Type} (Q : α → α → Reading → Reading → Prop) :
    EStateM.Result Fault Reading α → EStateM.Result Fault Reading α → Prop
  | ok {a a' : α} {s s' : Reading} (result : Q a a' s s') : Ending Q (.ok a s) (.ok a' s')
  | error {f f' : Fault} {s s' : Reading} : Ending Q (.error f s) (.error f' s')

/-- From the readings `r` and `r'` both readers end alike. -/
def Reader.Together {α : Type} (Q : α → α → Reading → Reading → Prop) (m m' : Reader α)
    (r r' : Reading) : Prop := Reader.Ending Q (m r) (m' r')

/-- Two rounds of a repetition that both go on, in readings that `I` relates, or both stop,
with results that `Q` relates. -/
inductive Reader.Going {α β : Type} (I : β → β → Reading → Reading → Prop)
    (Q : α → α → Reading → Reading → Prop) : Round β α → Round β α → Reading → Reading → Prop
  | again {b b' : β} {s s' : Reading} (next : I b b' s s') : Going I Q (.again b) (.again b') s s'
  | stop {a a' : α} {s s' : Reading} (result : Q a a' s s') : Going I Q (.stop a) (.stop a') s s'

/-- The same result, in readings that still differ in nothing but members. -/
def Reading.Still {α : Type} (p : Kind → Prop) (behind : Bool) (a a' : α) (s s' : Reading) : Prop :=
  a = a' ∧ s.Renames p behind s'

namespace Reader

variable {α β : Type} {p : Kind → Prop} {behind : Bool} {r r' : Reading} {m m' : Reader α}
  {Q : α → α → Reading → Reading → Prop} {P : β → β → Reading → Reading → Prop}

namespace Together

theorem pure {a a' : α} (h : Q a a' r r') : Together Q (Pure.pure a) (Pure.pure a') r r' := .ok h

theorem throw {f f' : Fault} :
    Together Q (MonadExcept.throw f : Reader α) (MonadExcept.throw f') r r' := .error

theorem bind {k k' : α → Reader β} (h : Together Q m m' r r')
    (hk : ∀ a a' s s', Q a a' s s' → Together P (k a) (k' a') s s') :
    Together P (m >>= k) (m' >>= k') r r' := by
  change Ending P (EStateM.bind m k r) (EStateM.bind m' k' r')
  have hm : Ending Q (m r) (m' r') := h
  unfold EStateM.bind
  revert hm
  generalize m r = x
  generalize m' r' = x'
  rintro (hresult | _)
  · exact hk _ _ _ _ hresult
  · exact .error

theorem mono {Q' : α → α → Reading → Reading → Prop} (h : Together Q m m' r r')
    (hQ : ∀ a a' s s', Q a a' s s' → Q' a a' s s') : Together Q' m m' r r' := by
  have hm : Ending Q (m r) (m' r') := h
  unfold Together
  revert hm
  generalize m r = x
  generalize m' r' = x'
  rintro (hresult | _)
  · exact .ok (hQ _ _ _ _ hresult)
  · exact .error

theorem again {I : β → β → Reading → Reading → Prop} {b b' : β} (h : I b b' r r') :
    Together (Going I Q) (Pure.pure (.again b)) (Pure.pure (.again b')) r r' := .ok (.again h)

theorem stop {I : β → β → Reading → Reading → Prop} {a a' : α} (h : Q a a' r r') :
    Together (Going I Q) (Pure.pure (.stop a)) (Pure.pure (.stop a')) r r' := .ok (.stop h)

/-- A repetition ends alike if `I` holds at its start and each round keeps it or stops. -/
theorem repeating {step step' : β → Reader (Round β α)} {I : β → β → Reading → Reading → Prop}
    (hsize : ∀ b b' s s', I b b' s s' → s.cursor.remaining = s'.cursor.remaining)
    (hstep : ∀ b b' s s', I b b' s s' → Together (Going I Q) (step b) (step' b') s s')
    {b b' : β} (h : I b b' r r') :
    Together Q (repeating step b) (repeating step' b') r r' := by
  have hrun : ∀ fuel b b' s s', I b b' s s' →
      Together Q (Round.run (fun r => r.cursor.remaining) .stalled step fuel b)
        (Round.run (fun r => r.cursor.remaining) .stalled step' fuel b') s s' := by
    intro fuel
    induction fuel with
    | zero => exact fun _ _ _ _ _ => .throw
    | succ fuel ih =>
        intro b b' s s' hI
        refine bind (Q := fun x x' t t' => x = s ∧ x' = s' ∧ t = s ∧ t' = s')
          (.ok ⟨rfl, rfl, rfl, rfl⟩) ?_
        rintro _ _ _ _ ⟨rfl, rfl, rfl, rfl⟩
        refine (hstep b b' _ _ hI).bind ?_
        rintro _ _ t t' (hnext | hresult)
        · refine bind (Q := fun x x' u u' => x = t ∧ x' = t' ∧ u = t ∧ u' = t')
            (.ok ⟨rfl, rfl, rfl, rfl⟩) ?_
          rintro _ _ _ _ ⟨rfl, rfl, rfl, rfl⟩
          simp only [hsize _ _ _ _ hI, hsize _ _ _ _ hnext]
          split
          · exact ih _ _ _ _ hnext
          · exact .throw
        · exact .pure hresult
  change Ending Q (Round.run _ _ step (r.cursor.remaining + 1) b r)
    (Round.run _ _ step' (r'.cursor.remaining + 1) b' r')
  rw [hsize _ _ _ _ h]
  exact hrun _ b b' r r' h

end Together

/-! ## Steps of every reader -/

variable {t t' : Token} {env env' : Setting}

/-- A look at the current tokens. -/
theorem current_together {k k' : Token → Reader α}
    (h : Together Q (k r.cursor.current) (k' r'.cursor.current) r r') :
    Together Q (current >>= k) (current >>= k') r r' := h

theorem failExpected_together (what : String) :
    Together Q (failExpected what) (failExpected what) r r' := .error

theorem failAt_together {offset offset' : Nat} {cause cause' : GrammarCause} :
    Together Q (failAt offset cause) (failAt offset' cause') r r' := .error

/-- A step behind which the readings are as they were, its result being known. -/
theorem still_pure {a a' : α} (h : a = a') (hr : r.Renames p behind r') :
    Together (Reading.Still p behind) (Pure.pure a) (Pure.pure a') r r' := .ok ⟨h, hr⟩

theorem lastEnd_together (hr : r.Renames p behind r') :
    Together (fun _ _ s s' => s.Renames p behind s') lastEnd lastEnd r r' := .ok hr

/-- The token that is moved over is the same on both sides, or it is a member and no dot
stands behind it. -/
theorem next_heads (hr : r.Renames p behind r') :
    Together (fun _ _ s s' => s.Renames p (r.cursor.current.isSymbol .dot) s' ∧
      ((r.cursor.current.kind = r'.cursor.current.kind ∧
        r.cursor.current.text = r'.cursor.current.text) ∨
        s.cursor.current.isSymbol .dot = false)) next next r r' := by
  obtain ⟨⟨t, ts, failure, lastEnd⟩, draft, nesting, passages⟩ := r
  obtain ⟨⟨t', ts', failure', lastEnd'⟩, draft', nesting', passages'⟩ := r'
  obtain ⟨htokens, hfailure, hdraft, hnesting⟩ := hr
  cases htokens with
  | member left right name name' follows rest =>
      refine .ok ⟨⟨?_, hfailure, hdraft, hnesting⟩, .inr follows⟩
      rw [Token.isSymbol_of_isMember left]
      exact rest
  | same kind text shared rest =>
      have hlength := rest.length_eq
      cases ts with
      | cons u us =>
          obtain ⟨u', us', rfl⟩ := List.exists_cons_of_length_eq_add_one hlength.symm
          exact .ok ⟨⟨rest, hfailure, hdraft, hnesting⟩, .inl ⟨kind, text⟩⟩
      | nil =>
          obtain rfl := List.length_eq_zero_iff.1 hlength.symm
          cases failure with
          | none =>
              obtain rfl := Option.isNone_iff_eq_none.1 (Option.isSome_eq_false_iff.1 hfailure.symm)
              exact .ok ⟨⟨.same kind text shared .nil, rfl, hdraft, hnesting⟩, .inl ⟨kind, text⟩⟩
          | some f =>
              obtain ⟨f', rfl⟩ := Option.isSome_iff_exists.1 hfailure.symm
              exact .error

theorem next_together (hr : r.Renames p behind r') :
    Together (Reading.Still p (r.cursor.current.isSymbol .dot)) next next r r' :=
  (next_heads hr).mono fun _ _ _ _ h => ⟨rfl, h.1⟩

/-- Steps over a token that is no dot. -/
theorem next_plain (hr : r.Renames p behind r') (h : r.cursor.current.isSymbol .dot = false) :
    Together (Reading.Still p false) next next r r' := h ▸ next_together hr

theorem atSymbol_together (hr : r.Renames p behind r') (s : Symbol) :
    Together (Reading.Still p behind) (atSymbol s) (atSymbol s) r r' :=
  .ok ⟨hr.tokens.isSymbol s, hr⟩

/-- A token that has to come and is neither a word nor a dot. -/
theorem accept_together {kind : Kind} (hkind : kind.isMember = false) (hdot : kind ≠ .symbol .dot)
    (hr : r.Renames p behind r') :
    Together (fun _ _ s s' => s.Renames p false s') (onCursor (Cursor.accept kind))
      (onCursor (Cursor.accept kind)) r r' := by
  have hsame := hr.tokens.kind_iff hkind
  unfold Together
  rw [onCursor_accept, onCursor_accept]
  split
  · rename_i h
    rw [if_pos (hsame.1 h)]
    have hplain : r.cursor.current.isSymbol .dot = false := by
      rw [Token.isSymbol, h, beq_eq_false_iff_ne]
      exact hdot
    refine (next_plain hr hplain).bind ?_
    rintro _ _ s s' ⟨-, hs⟩
    exact .ok hs
  · rename_i h
    rw [if_neg (mt hsame.2 h)]
    exact .error

theorem recordPassage_together {span span' : Span} (kind : Passage.Kind)
    (hr : r.Renames p behind r') :
    Together (Reading.Still p behind) (recordPassage kind span) (recordPassage kind span') r r' :=
  .ok ⟨rfl, ⟨hr.tokens, hr.failure, hr.draft, hr.nesting⟩⟩

/-- A change of the scope that keeps what is compared. -/
theorem modifyDraft_together {f f' : Draft → Draft} (hr : r.Renames p behind r')
    (hf : (f r.draft).Renames (f' r'.draft)) :
    Together (Reading.Still p behind) (modifyDraft f) (modifyDraft f') r r' :=
  .ok ⟨rfl, ⟨hr.tokens, hr.failure, hf, hr.nesting⟩⟩

theorem up_together (n : Nat) :
    Together (fun m m' s s' => m = m' ∧ s = r ∧ s' = r') (Counter.up n) (Counter.up n) r r' := by
  unfold Counter.up
  split
  · exact .pure ⟨rfl, rfl, rfl⟩
  · exact .throw

theorem down_together (n : Nat) :
    Together (fun m m' s s' => m = m' ∧ s = r ∧ s' = r') (Counter.down n) (Counter.down n)
      r r' := by
  unfold Counter.down
  split
  · exact .pure ⟨rfl, rfl, rfl⟩
  · exact .throw

/-- Both readings count a `?`, and none of them moves. -/
theorem nextParameter_together (hr : r.Renames p behind r') :
    Together (fun n n' s s' => n = n' ∧ s.Renames p behind s' ∧ s.cursor = r.cursor)
      nextParameter nextParameter r r' := by
  have hcount := hr.draft.parameters
  unfold Together
  by_cases h : r.draft.parameters < Counter.limit
  · rw [nextParameter_ok h, nextParameter_ok (hcount ▸ h)]
    have hdraft : r.counted.draft.Renames r'.counted.draft :=
      ⟨congrArg (· + 1) hcount, hr.draft.owners, hr.draft.subqueries⟩
    exact .ok ⟨hcount, ⟨hr.tokens, hr.failure, hdraft, hr.nesting⟩, rfl⟩
  · rw [nextParameter_overflow h, nextParameter_overflow (hcount ▸ h)]
    exact .error

theorem nameOf_together (htext : t.text = t'.text) (hr : r.Renames p behind r') :
    Together (Reading.Still p behind) (nameOf t) (nameOf t') r r' := by
  have hname : t.name? = t'.name? := by rw [Token.name?, htext, Token.name?]
  unfold nameOf
  rw [hname]
  split
  · exact still_pure rfl hr
  · exact .throw

/-- The name of a member may be another one. -/
theorem currentName_together (hr : r.Renames p behind r') :
    Together (fun _ _ s s' => s.Renames p behind s' ∧ s.cursor = r.cursor) (nameOf r.cursor.current)
      (nameOf r'.cursor.current) r r' := by
  unfold nameOf
  rcases hr.texts with htext | ⟨hname, hname'⟩
  · have hname : r.cursor.current.name? = r'.cursor.current.name? := by
      rw [Token.name?, htext, Token.name?]
    rw [hname]
    split
    · exact .pure ⟨hr, rfl⟩
    · exact .throw
  · obtain ⟨name, hname⟩ := Option.isSome_iff_exists.1 hname
    obtain ⟨name', hname'⟩ := Option.isSome_iff_exists.1 hname'
    rw [hname, hname']
    exact .pure ⟨hr, rfl⟩

theorem noteOwner_together (htext : t.text = t'.text) (hr : r.Renames p behind r') :
    Together (Reading.Still p behind) (noteOwner t) (noteOwner t') r r' := by
  refine (nameOf_together htext hr).bind ?_
  rintro name _ s s' ⟨rfl, hs⟩
  refine modifyDraft_together hs ⟨hs.draft.parameters, ?_, hs.draft.subqueries⟩
  simp only [List.map_append, hs.draft.owners, List.map_singleton, htext]

/-- A name with a dot behind it is noted. -/
theorem noteIfDot_together {s s' : Reading} (hs : s.Renames p behind s')
    (h : (t.kind = t'.kind ∧ t.text = t'.text) ∨ s.cursor.current.isSymbol .dot = false) :
    Together (Reading.Still p behind) (do if t.isName && (← atSymbol .dot) then noteOwner t)
      (do if t'.isName && (← atSymbol .dot) then noteOwner t') s s' := by
  have hdot := hs.tokens.isSymbol .dot
  show Together _ (if t.isName && s.cursor.current.isSymbol .dot then noteOwner t else pure ())
    (if t'.isName && s'.cursor.current.isSymbol .dot then noteOwner t' else pure ()) s s'
  rw [← hdot]
  rcases h with ⟨hkind, htext⟩ | hplain
  · rw [Token.isName, hkind, ← Token.isName]
    split
    · exact noteOwner_together htext hs
    · exact still_pure rfl hs
  · rw [hplain, Bool.and_false, Bool.and_false]
    exact still_pure rfl hs

/-- What is consumed is a `?`, which is counted, or a token that is moved over. -/
theorem consume_together (hr : r.Renames p behind r') :
    Together (Reading.Still p (r.cursor.current.isSymbol .dot)) consume consume r r' := by
  have hquestion := hr.tokens.isSymbol .question
  unfold Together
  cases h : r.cursor.current.isSymbol .question with
  | true =>
      rw [consume_question (Token.isSymbol_iff.1 h),
        consume_question (Token.isSymbol_iff.1 (hquestion ▸ h))]
      refine (nextParameter_together hr).bind ?_
      rintro _ _ s s' ⟨-, hs, hcursor⟩
      exact hcursor ▸ next_together hs
  | false =>
      rw [consume_named h, consume_named (hquestion ▸ h)]
      refine (next_heads hr).bind ?_
      rintro _ _ s s' ⟨hs, hheads⟩
      exact noteIfDot_together hs hheads

theorem consume_plain (hr : r.Renames p behind r') (h : r.cursor.current.isSymbol .dot = false) :
    Together (Reading.Still p false) consume consume r r' := h ▸ consume_together hr

end Reader

/-! ## Operands -/

/-- Two towers of readers whose nested queries and operands of `INTERVAL` end alike. -/
structure Inner.Renames (p : Kind → Prop) (inner inner' : Inner) : Prop where
  embed {r r' : Reading} : r.Renames p false r' →
    r.cursor.current.kind = .keyword .SELECT →
    Reader.Together (fun _ _ s s' => s.Renames p false s') inner.embed inner'.embed r r'
  operand {r r' : Reading} : r.Renames p false r' →
    Reader.Together (Reading.Still p false) inner.operand inner'.operand r r'

namespace Reader

variable {p : Kind → Prop} {behind : Bool} {r r' : Reading} {inner inner' : Inner}
  {env env' : Setting}

/-- A count of what is open, the same on both sides. As long as something is open the
readings may stand behind a dot. -/
def StillOpen (p : Kind → Prop) (depth depth' : Nat) (s s' : Reading) : Prop :=
  depth = depth' ∧ ∃ behind, s.Renames p behind s' ∧ (depth = 0 → behind = false)

theorem StillOpen.of_renames {depth : Nat} (hr : r.Renames p false r') :
    StillOpen p depth depth r r' := ⟨rfl, false, hr, fun _ => rfl⟩

/-- The loop over what stands in parentheses takes a renamed member for a plain token: it is
neither a parenthesis nor `SELECT`. -/
theorem parentheses_together (hin : inner.Renames p inner') (hr : r.Renames p behind r') :
    Together (fun _ _ s s' => s.Renames p false s') (parentheses inner) (parentheses inner')
      r r' := by
  refine (accept_together rfl (by decide) hr).bind fun opening opening' s s' hs => ?_
  refine Together.repeating (I := StillOpen p) ?_ ?_ (.of_renames hs)
  · rintro _ _ s s' ⟨-, _, hs, -⟩
    exact hs.remaining
  rintro depth _ s s' ⟨rfl, behind, hs, hzero⟩
  split
  · rename_i hdepth
    obtain rfl := hzero hdepth
    exact (lastEnd_together hs).bind fun _ _ _ _ hs => .stop hs
  · rename_i hopen
    have hconsume : Together (Going (StillOpen p) fun _ _ s s' => s.Renames p false s')
        (do consume; return .again depth : Reader (Round Nat Span))
        (do consume; return .again depth) s s' :=
      (consume_together hs).bind fun _ _ _ _ hs => .again ⟨rfl, _, hs.2, fun h => absurd h hopen⟩
    refine current_together ?_
    rcases hs.heads with hkind | ⟨hleft, hright⟩
    · rw [← hkind]
      split
      · exact .throw
      · rename_i hk
        refine (up_together _).bind ?_
        rintro depth' _ _ _ ⟨rfl, rfl, rfl⟩
        exact (next_plain hs (by rw [Token.isSymbol, hk]; rfl)).bind fun _ _ _ _ hs =>
          .again (.of_renames hs.2)
      · rename_i hk
        refine (down_together _).bind ?_
        rintro depth' _ _ _ ⟨rfl, rfl, rfl⟩
        exact (next_plain hs (by rw [Token.isSymbol, hk]; rfl)).bind fun _ _ _ _ hs =>
          .again (.of_renames hs.2)
      · rename_i hk
        refine (hin.embed (hs.settle (by rw [hk]; rfl)) hk).bind fun q q' s s' hs => ?_
        have hdraft : Draft.Renames { s.draft with subqueries := s.draft.subqueries ++ [q] }
            { s'.draft with subqueries := s'.draft.subqueries ++ [q'] } :=
          ⟨hs.draft.parameters, hs.draft.owners, by simp [hs.draft.subqueries]⟩
        exact (modifyDraft_together hs hdraft).bind fun _ _ _ _ hs => .again (.of_renames hs.2)
      · exact hconsume
    -- Two members are both passed over.
    · split
      iterate 4
        · rename_i hk
          simp [hk, Kind.isMember] at hleft
      · split
        iterate 4
          · rename_i hk
            simp [hk, Kind.isMember] at hright
        · exact hconsume

/-- In a block a renamed member is neither `CASE` nor `END`, so the count of open blocks is
the same. -/
theorem caseBlock_together (hin : inner.Renames p inner') (hr : r.Renames p behind r') :
    Together (Reading.Still p false) (caseBlock inner) (caseBlock inner') r r' := by
  refine (accept_together rfl (by decide) hr).bind fun opening opening' s s' hs => ?_
  refine Together.repeating (I := StillOpen p) ?_ ?_ (.of_renames hs)
  · rintro _ _ s s' ⟨-, _, hs, -⟩
    exact hs.remaining
  rintro depth _ s s' ⟨rfl, behind, hs, hzero⟩
  split
  · rename_i hdepth
    obtain rfl := hzero hdepth
    exact .stop ⟨rfl, hs⟩
  · rename_i hopen
    have hconsume : Together (Going (StillOpen p) (Reading.Still p false))
        (do consume; return .again depth : Reader (Round Nat Unit))
        (do consume; return .again depth) s s' :=
      (consume_together hs).bind fun _ _ _ _ hs => .again ⟨rfl, _, hs.2, fun h => absurd h hopen⟩
    refine current_together ?_
    rcases hs.heads with hkind | ⟨hleft, hright⟩
    · rw [← hkind]
      split
      · exact .throw
      · exact (parentheses_together hin hs).bind fun _ _ _ _ hs => .again (.of_renames hs)
      · rename_i hk
        refine (up_together _).bind ?_
        rintro depth' _ _ _ ⟨rfl, rfl, rfl⟩
        exact (next_plain hs (by rw [Token.isSymbol, hk]; rfl)).bind fun _ _ _ _ hs =>
          .again (.of_renames hs.2)
      · rename_i hk
        refine (down_together _).bind ?_
        rintro depth' _ _ _ ⟨rfl, rfl, rfl⟩
        exact (next_plain hs (by rw [Token.isSymbol, hk]; rfl)).bind fun _ _ _ _ hs =>
          .again (.of_renames hs.2)
      · exact hconsume
    · split
      iterate 4
        · rename_i hk
          simp [hk, Kind.isMember] at hleft
      · split
        iterate 4
          · rename_i hk
            simp [hk, Kind.isMember] at hright
        · exact hconsume

/-- The tokens behind the current ones are the same symbol or none at all. -/
theorem peek_together (hr : r.Renames p behind r') (s : Symbol) :
    Together (fun u u' t t' => u.isSymbol s = u'.isSymbol s ∧ t.Renames p behind t' ∧
      t.cursor = r.cursor) peek peek r r' := by
  obtain ⟨⟨t, ts, failure, lastEnd⟩, draft, nesting, passages⟩ := r
  obtain ⟨⟨t', ts', failure', lastEnd'⟩, draft', nesting', passages'⟩ := r'
  have hlength := hr.remaining
  have hfailure := hr.failure
  change ts.length = ts'.length at hlength
  change failure.isSome = failure'.isSome at hfailure
  cases ts with
  | cons u us =>
      obtain ⟨u', us', rfl⟩ := List.exists_cons_of_length_eq_add_one hlength.symm
      exact .ok ⟨hr.tokens.isSymbol_behind s, hr, rfl⟩
  | nil =>
      obtain rfl := List.length_eq_zero_iff.1 hlength.symm
      cases failure with
      | none =>
          obtain rfl := Option.isNone_iff_eq_none.1 (Option.isSome_eq_false_iff.1 hfailure.symm)
          exact .ok ⟨hr.tokens.isSymbol s, hr, rfl⟩
      | some f =>
          obtain ⟨f', rfl⟩ := Option.isSome_iff_exists.1 hfailure.symm
          exact .error

theorem atCall_together (hr : r.Renames p false r') :
    Together (fun b b' s s' => b = b' ∧ s.Renames p false s' ∧ s.cursor = r.cursor) atCall atCall
      r r' := by
  refine current_together ?_
  simp only [hr.isName, hr.isKeyword]
  split
  · refine (peek_together hr .leftParen).bind ?_
    rintro u u' s s' ⟨hu, hs⟩
    exact .pure ⟨hu, hs⟩
  · exact .pure ⟨rfl, hr, rfl⟩

theorem signs_together (hr : r.Renames p false r') :
    Together (Reading.Still p false) signs signs r r' := by
  refine Together.repeating (I := fun _ _ s s' => s.Renames p false s')
    (fun _ _ _ _ hs => hs.remaining) (fun _ _ s s' hs => ?_) hr
  refine current_together ?_
  rw [← hs.kind]
  split
  · rename_i hsign
    exact (next_plain hs (Token.isSymbol_dot_of rfl hsign)).bind fun _ _ _ _ hs => .again hs.2
  · exact .stop ⟨rfl, hs⟩

/-- An operand starts at a token that both readings share, so its kind decides alike. -/
theorem operand_together (hin : inner.Renames p inner') (hr : r.Renames p false r') :
    Together (Reading.Still p false) (operand inner) (operand inner') r r' := by
  have hparen : ∀ {b : Bool} {s s' : Reading}, s.Renames p b s' →
      Together (Reading.Still p false) (do let _ ← parentheses inner)
        (do let _ ← parentheses inner') s s' :=
    fun hs => (parentheses_together hin hs).bind fun _ _ _ _ hs => still_pure rfl hs
  refine (signs_together hr).bind ?_
  rintro _ _ s s' ⟨-, hs⟩
  refine current_together ?_
  rw [← hs.kind]
  split
  · exact hparen hs
  · exact caseBlock_together hin hs
  · exact (next_together hs).bind fun _ _ _ _ hs => hparen hs.2
  · rename_i hk
    refine (next_plain hs (by rw [Token.isSymbol, hk]; rfl)).bind ?_
    rintro _ _ s s' ⟨-, hs⟩
    refine (hin.operand hs).bind ?_
    rintro _ _ s s' ⟨-, hs⟩
    refine current_together ?_
    rw [← hs.isName]
    split
    · rename_i hname
      exact (next_plain hs (Token.isSymbol_dot_of rfl hname)).bind fun _ _ _ _ hs =>
        recordPassage_together _ hs.2
    · exact still_pure rfl hs
  · refine (atCall_together hs).bind ?_
    rintro call _ s₁ s₁' ⟨rfl, hs₁, hcursor⟩
    split
    · exact (next_together hs₁).bind fun _ _ _ _ hs => hparen hs.2
    · split
      · rename_i hoperand
        refine consume_plain hs₁ ?_
        rw [hcursor]
        exact Token.isSymbol_dot_of rfl hoperand
      · exact failExpected_together _

/-- Behind a `.` a member follows, whichever word it is. -/
theorem continuation_together (hin : inner.Renames p inner') (hr : r.Renames p false r') :
    Together (Reading.Still p false) (continuation inner) (continuation inner') r r' := by
  refine Together.repeating (I := Reading.Still p false) (fun _ _ _ _ hs => hs.2.remaining) ?_
    ⟨rfl, hr⟩
  rintro found _ s s' ⟨rfl, hs⟩
  have hoperand : ∀ {b : Bool} {s s' : Reading}, s.Renames p b s' →
      s.cursor.current.isSymbol .dot = false →
      Together (Going (Reading.Still p false) (Reading.Still p false))
        (do next; operand inner; return .again true : Reader (Round Bool Bool))
        (do next; operand inner'; return .again true) s s' := by
    intro b s s' hs hplain
    refine (next_plain hs hplain).bind fun _ _ _ _ hs => (operand_together hin hs.2).bind ?_
    exact fun _ _ _ _ hs => .again ⟨rfl, hs.2⟩
  refine current_together ?_
  rw [← hs.kind]
  split
  · exact (parentheses_together hin hs).bind fun _ _ _ _ hs => .again ⟨rfl, hs⟩
  · rename_i hk
    refine (next_together hs).bind ?_
    rintro _ _ s₁ s₁' ⟨-, hs₁⟩
    refine current_together ?_
    rw [← hs₁.isMember]
    split
    · rename_i hmember
      exact (consume_plain hs₁ (Token.isSymbol_dot_of_member hmember)).bind fun _ _ _ _ hs =>
        .again ⟨rfl, hs.2⟩
    · exact failExpected_together _
  · rename_i hnodot hk
    split
    · refine hoperand hs ?_
      rw [Token.isSymbol, hk, beq_eq_false_iff_ne]
      rintro ⟨⟩
      exact hnodot rfl
    · exact .stop ⟨rfl, hs⟩
  · rename_i hk
    exact hoperand hs (by rw [Token.isSymbol, hk]; rfl)
  · rename_i hk
    exact hoperand hs (by rw [Token.isSymbol, hk]; rfl)
  · exact .stop ⟨rfl, hs⟩

/-! ## Expressions -/

theorem verbatimFrom_together (hr : r.Renames p behind r') (start start' : Nat) :
    Together (fun _ _ s s' => s.Renames p behind s') (verbatimFrom env start)
      (verbatimFrom env' start') r r' := .ok hr

theorem leafOr_together (hin : inner.Renames p inner') (hr : r.Renames p false r')
    (start start' : Nat) (leaf leaf' : Expr) :
    Together (fun _ _ s s' => s.Renames p false s') (leafOr env inner start leaf)
      (leafOr env' inner' start' leaf') r r' := by
  refine (continuation_together hin hr).bind ?_
  rintro goesOn _ s s' ⟨rfl, hs⟩
  split
  · exact verbatimFrom_together hs _ _
  · exact .pure hs

/-- The member of `owner.member` goes into the tree, and nothing else depends on it. -/
theorem namedExpression_together (hin : inner.Renames p inner') (hr : r.Renames p false r')
    (hname : r.cursor.current.isName = true) :
    Together (fun _ _ s s' => s.Renames p false s') (namedExpression env inner)
      (namedExpression env' inner') r r' := by
  refine current_together ?_
  refine (next_plain hr (Token.isSymbol_dot_of rfl hname)).bind ?_
  rintro _ _ s s' ⟨-, hs⟩
  refine (nameOf_together hr.text hs).bind ?_
  rintro owner _ s s' ⟨rfl, hs⟩
  refine (atSymbol_together hs _).bind ?_
  rintro dot _ s s' ⟨rfl, hs⟩
  split
  · refine (noteOwner_together hr.text hs).bind ?_
    rintro _ _ s s' ⟨-, hs⟩
    refine (next_together hs).bind ?_
    rintro _ _ s s' ⟨-, hs⟩
    refine current_together ?_
    extract_lets rest rest'
    have hrest : ∀ {b : Bool} {t t' : Reading} (member member' : String),
        s.cursor.current.isSymbol .dot = false → t.Renames p b t' → t.cursor = s.cursor →
        Together (fun _ _ s s' => s.Renames p false s') (rest member) (rest' member') t t' := by
      intro b t t' member member' hplain ht hcursor
      refine (next_plain ht (hcursor ▸ hplain)).bind ?_
      rintro _ _ u u' ⟨-, hu⟩
      refine (recordPassage_together _ hu).bind ?_
      rintro _ _ u u' ⟨-, hu⟩
      refine (lastEnd_together hu).bind fun _ _ _ _ hu => ?_
      exact leafOr_together hin hu _ _ _ _
    rw [← hs.tokens.isSymbol, ← hs.isWord]
    split
    · rename_i hstar
      exact hrest _ _ (Token.isSymbol_dot_of_member (Token.member_iff.2 (.inl hstar))) hs rfl
    · split
      · rename_i hword
        exact (currentName_together hs).bind fun _ _ _ _ ht =>
          hrest _ _ (Token.isSymbol_dot_of_member (Token.member_iff.2 (.inr hword))) ht.1 ht.2
      · exact .throw
  · exact leafOr_together hin hs _ _ _ _

/-- What a member behind a dot is called has no part in how an expression is read: from
readings that differ in nothing but members both readings end alike, with an expression
each, or both fail. Behind the expressions the readings have counted the same `?`, noted
the same names of owners in the same order, and found as many queries. -/
theorem expression_renames (hin : inner.Renames p inner') (hr : r.Renames p false r') :
    Together (fun _ _ s s' => s.Renames p false s') (expression env inner) (expression env' inner')
      r r' := by
  have hleaf : ∀ {e e' : Expr} {start start' : Nat} {s s' : Reading},
      s.Renames p false s' → Together (fun _ _ s s' => s.Renames p false s')
        (leafOr env inner start e) (leafOr env' inner' start' e') s s' :=
    fun hs => leafOr_together hin hs _ _ _ _
  refine current_together ?_
  rw [← hr.kind]
  split
  · rename_i hk
    refine (next_plain hr (by rw [Token.isSymbol, hk]; rfl)).bind ?_
    rintro _ _ s s' ⟨-, hs⟩
    exact (nextParameter_together hs).bind fun _ _ _ _ hs => hleaf hs.2.1
  -- Integers, in both notations.
  iterate 2
    · rename_i hk
      refine (next_plain hr (by rw [Token.isSymbol, hk]; rfl)).bind ?_
      rintro _ _ s s' ⟨-, hs⟩
      rw [Token.integer?, Token.integer?, hr.kind, hr.text]
      split
      · exact hleaf hs
      · exact failAt_together
  · rename_i hk
    refine (next_plain hr (by rw [Token.isSymbol, hk]; rfl)).bind ?_
    rintro _ _ s s' ⟨-, hs⟩
    rw [Token.real?, Token.real?, hr.kind, hr.text]
    split
    · exact hleaf hs
    · exact failAt_together
  · rename_i hk
    refine (next_plain hr (by rw [Token.isSymbol, hk]; rfl)).bind ?_
    rintro _ _ s s' ⟨-, hs⟩
    exact hleaf hs
  · extract_lets start rest start' rest'
    have hcomposite : ∀ {s s' : Reading}, s.Renames p false s' →
        Together (fun _ _ s s' => s.Renames p false s') (rest true) (rest' true) s s' := by
      intro s s' hs
      refine (operand_together hin hs).bind fun _ _ _ _ hs => ?_
      refine (continuation_together hin hs.2).bind fun _ _ _ _ hs => ?_
      exact verbatimFrom_together hs.2 _ _
    rw [← hr.isName]
    split
    · rename_i hname
      refine (atCall_together hr).bind ?_
      rintro call _ s s' ⟨rfl, hs, hcursor⟩
      cases call with
      | true => exact hcomposite hs
      | false => exact namedExpression_together hin hs (hcursor ▸ hname)
    · exact hcomposite hr

/-- What is nested one level deeper ends alike if the level allows it in both readings. -/
theorem nested_together {m m' : Reader Unit} (hlimit : env.limit = env'.limit)
    (hr : r.Renames p false r')
    (hm : ∀ {s s' : Reading}, s.Renames p false s' → Together (Reading.Still p false) m m' s s') :
    Together (Reading.Still p false) (nested env m) (nested env' m') r r' := by
  have hbody : Ending (Reading.Still p false) (m r.deeper) (m' r'.deeper) :=
    hm ⟨hr.tokens, hr.failure, hr.draft, congrArg (fun n => { n with depth := n.depth + 1 })
      hr.nesting⟩
  unfold Together nested
  rw [hlimit, hr.nesting]
  split
  · exact .error
  · revert hbody
    generalize m r.deeper = x
    generalize m' r'.deeper = x'
    rintro (⟨hresult, hs⟩ | _)
    · exact .ok ⟨hresult, hs.tokens, hs.failure, hs.draft,
        congrArg (fun n => { n with depth := n.depth - 1 }) hs.nesting⟩
    · exact .error

end Reader

/-- Where no word is `SELECT`, all levels of nesting end alike. -/
theorem Inner.upTo_renames {env env' : Setting} (hlimit : env.limit = env'.limit) (n : Nat) :
    Inner.Renames (· ≠ .keyword .SELECT) (Inner.upTo env n) (Inner.upTo env' n) := by
  induction n with
  | zero => exact ⟨fun _ _ => .error, fun _ => .error⟩
  | succ n ih =>
      refine ⟨fun hr hselect => absurd hselect (hr.shared (by rw [hselect]; rfl)), fun hr => ?_⟩
      exact Reader.nested_together hlimit hr fun hs => Reader.operand_together ih hs

/-- In a statement without a nested query every expression is read alike, however deep the
operands of `INTERVAL` are nested in it. -/
theorem Reader.expression_renames_upTo {env env' : Setting} {r r' : Reading}
    (hlimit : env.limit = env'.limit) (n : Nat) (hr : r.Renames (· ≠ .keyword .SELECT) false r') :
    Together (fun _ _ s s' => s.Renames (· ≠ .keyword .SELECT) false s')
      (expression env (Inner.upTo env n)) (expression env' (Inner.upTo env' n)) r r' :=
  expression_renames (Inner.upTo_renames hlimit n) hr

/-! ## Members that are read as something else -/

/-- `SELECT` behind a dot is a member like any other at the start of an item, but in
parentheses it starts a query. -/
theorem unread_select :
    (∃ p, parse {} Catalogue.everyName "SELECT f(t.x) FROM t" = .ok p ∧
      p.markers = [⟨9, "t", "t"⟩, ⟨19, "t", "t"⟩]) ∧
    (∃ p, parse {} Catalogue.everyName "SELECT t.select FROM t" = .ok p ∧
      p.markers = [⟨7, "t", "t"⟩, ⟨21, "t", "t"⟩]) ∧
    parse {} Catalogue.everyName "SELECT f(t.select) FROM t" =
      .error (.error ⟨.grammar, 17, "expected expression, found ')'", ") FROM t"⟩) := by
  refine ⟨exists_of_any (by decide +kernel), exists_of_any (by decide +kernel), ?_⟩
  exact error_of_run (by decide +kernel)

/-- `CASE` behind a dot opens a block inside a block, and `END` closes one. -/
theorem unread_block :
    (∃ p, parse {} Catalogue.everyName "SELECT CASE WHEN t.x THEN 1 END FROM t" = .ok p ∧
      p.markers = [⟨17, "t", "t"⟩, ⟨37, "t", "t"⟩]) ∧
    parse {} Catalogue.everyName "SELECT CASE WHEN t.case THEN 1 END FROM t" =
      .error (.error ⟨.grammar, 7, "CASE without matching END", "CASE WHEN t.case THEN 1 "⟩) ∧
    parse {} Catalogue.everyName "SELECT CASE WHEN t.end THEN 1 END FROM t" =
      .error (.error ⟨.grammar, 23, "expected end of statement, found 'THEN'",
        "THEN 1 END FROM t"⟩) := by
  refine ⟨exists_of_any (by decide +kernel), error_of_run (by decide +kernel), ?_⟩
  exact error_of_run (by decide +kernel)

end SqlMarkers
