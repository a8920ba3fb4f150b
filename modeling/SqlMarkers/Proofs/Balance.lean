/-
SqlMarkers.Proofs.Balance — the parentheses of a statement that is read.

`Paired loose n ts strays` says that `n` of the opening parentheses among the tokens
`ts` are still open, and that every closing one belongs to an opening one in front of it
or is a stray. Strays are only found between `CASE` and `END`, or, where `loose` allows
it, outside of all parentheses. Without strays, and with nothing open, the tokens are
balanced (`Paired.balanced_iff`).

`Reader.Shifts i j m` says that the step `m` turns `i` open parentheses into `j` when it
succeeds. Steps that open, close or skip parentheses have rules of their own; every
other step keeps the number, because it moves over no parenthesis.
-/
import SqlMarkers.Proofs.Trail.Step

namespace SqlMarkers

/-! ## Parentheses among tokens -/

/-- Neither a parenthesis nor the end of the input. -/
def Kind.isFlat : Kind → Bool
  | .endOfInput | .symbol .leftParen | .symbol .rightParen => false
  | _ => true

/-- Whether the token is a parenthesis. -/
def Token.isParenthesis (t : Token) : Bool := t.isSymbol .leftParen || t.isSymbol .rightParen

/-- The number of opening parentheses. -/
def openings (ts : List Token) : Nat := ts.countP (·.isSymbol .leftParen)

/-- The number of closing parentheses. -/
def closings (ts : List Token) : Nat := ts.countP (·.isSymbol .rightParen)

/-- No closing parenthesis comes too early, and there are as many as opening ones. -/
def Balanced (ts : List Token) : Prop :=
  (∀ us, us <+: ts → closings us ≤ openings us) ∧ openings ts = closings ts

/-- Behind the tokens `ts` there are `n` open parentheses. The closing parentheses
`strays` close none; where `loose` is set they may stand outside of all parentheses. -/
inductive Paired : Bool → Nat → List Token → List Token → Prop
  | nil {loose : Bool} : Paired loose 0 [] []
  | flat {loose : Bool} {n : Nat} {ts strays : List Token} {t : Token} :
      Paired loose n ts strays → t.isParenthesis = false → Paired loose n (ts ++ [t]) strays
  | opening {loose : Bool} {n : Nat} {ts strays : List Token} {t : Token} :
      Paired loose n ts strays → t.kind = .symbol .leftParen →
      Paired loose (n + 1) (ts ++ [t]) strays
  | closing {loose : Bool} {n : Nat} {ts strays : List Token} {t : Token} :
      Paired loose (n + 1) ts strays → t.kind = .symbol .rightParen →
      Paired loose n (ts ++ [t]) strays
  | stray {ts strays : List Token} {t : Token} :
      Paired true 0 ts strays → t.kind = .symbol .rightParen →
      Paired true 0 (ts ++ [t]) (strays ++ [t])
  | block {loose : Bool} {n : Nat} {ts us strays strays' : List Token} {first last : Token} :
      Paired loose n ts strays → first.kind = .keyword .CASE → Paired true 0 us strays' →
      last.kind = .keyword .END →
      Paired loose n (ts ++ first :: us ++ [last]) (strays ++ strays')

theorem Kind.isFlat_of {k : Kind} (hend : k = .endOfInput → False)
    (hleft : k = .symbol .leftParen → False) (hright : k = .symbol .rightParen → False) :
    k.isFlat = true := by
  unfold Kind.isFlat
  split
  · exact (hend rfl).elim
  · exact (hleft rfl).elim
  · exact (hright rfl).elim
  · rfl

theorem Token.isParenthesis_of_isFlat {t : Token} (h : t.kind.isFlat = true) :
    t.isParenthesis = false := by
  rw [Bool.eq_false_iff]
  intro hparen
  simp only [Token.isParenthesis, Bool.or_eq_true, Token.isSymbol_iff] at hparen
  rcases hparen with hk | hk <;> rw [hk] at h <;> cases h

theorem openings_append (ts us : List Token) : openings (ts ++ us) = openings ts + openings us :=
  List.countP_append

theorem closings_append (ts us : List Token) : closings (ts ++ us) = closings ts + closings us :=
  List.countP_append

/-- A token that is no parenthesis counts for nothing. -/
theorem count_flat {t : Token} (h : t.isParenthesis = false) :
    openings [t] = 0 ∧ closings [t] = 0 := by
  obtain ⟨hleft, hright⟩ := Bool.or_eq_false_iff.1 h
  simp [openings, closings, hleft, hright]

theorem Token.isParenthesis_of_kind {t : Token} {k : Keyword} (h : t.kind = .keyword k) :
    t.isParenthesis = false :=
  Token.isParenthesis_of_isFlat (by rw [h]; rfl)

theorem count_opening {t : Token} (h : t.kind = .symbol .leftParen) :
    openings [t] = 1 ∧ closings [t] = 0 := by
  simp [openings, closings, Token.isSymbol, h]

theorem count_closing {t : Token} (h : t.kind = .symbol .rightParen) :
    openings [t] = 0 ∧ closings [t] = 1 := by
  simp [openings, closings, Token.isSymbol, h]

theorem count_block {first last : Token} (us : List Token) (hfirst : first.kind = .keyword .CASE)
    (hlast : last.kind = .keyword .END) :
    openings (first :: us ++ [last]) = openings us ∧
      closings (first :: us ++ [last]) = closings us := by
  obtain ⟨hopen, hclose⟩ := count_flat (Token.isParenthesis_of_kind hfirst)
  obtain ⟨hopen', hclose'⟩ := count_flat (Token.isParenthesis_of_kind hlast)
  have hsplit : first :: us ++ [last] = [first] ++ us ++ [last] := rfl
  simp only [hsplit, openings_append, closings_append]
  omega

namespace Paired

variable {loose : Bool} {n : Nat} {ts strays : List Token}

/-- What is opened is closed, is still open, or is made up for by a stray. -/
theorem count (h : Paired loose n ts strays) :
    openings ts + strays.length = closings ts + n := by
  induction h with
  | nil => rfl
  | flat _ ht ih =>
      rw [openings_append, closings_append, (count_flat ht).1, (count_flat ht).2]
      exact ih
  | opening _ ht ih =>
      rw [openings_append, closings_append, (count_opening ht).1, (count_opening ht).2]
      omega
  | closing _ ht ih =>
      rw [openings_append, closings_append, (count_closing ht).1, (count_closing ht).2]
      omega
  | stray _ ht ih =>
      rw [openings_append, closings_append, (count_closing ht).1, (count_closing ht).2,
        List.length_append, List.length_singleton]
      omega
  | block _ hfirst _ hlast ih ih' =>
      obtain ⟨hopen, hclose⟩ := count_block _ hfirst hlast
      rw [List.append_assoc, openings_append, closings_append, hopen, hclose, List.length_append]
      omega

theorem closings_le_openings (h : Paired loose n ts []) : closings ts ≤ openings ts := by
  have := h.count
  simp only [List.length_nil] at this
  omega

/-- Without strays no closing parenthesis comes too early. -/
theorem closings_le (h : Paired loose n ts strays) (hstrays : strays = []) {us : List Token}
    (hus : us <+: ts) : closings us ≤ openings us := by
  induction h generalizing us with
  | nil =>
      obtain rfl := List.prefix_nil.1 hus
      exact Nat.le_refl _
  | flat h ht ih =>
      subst hstrays
      rcases List.prefix_concat_iff.1 hus with rfl | hus
      · exact (h.flat ht).closings_le_openings
      · exact ih rfl hus
  | opening h ht ih =>
      subst hstrays
      rcases List.prefix_concat_iff.1 hus with rfl | hus
      · exact (h.opening ht).closings_le_openings
      · exact ih rfl hus
  | closing h ht ih =>
      subst hstrays
      rcases List.prefix_concat_iff.1 hus with rfl | hus
      · exact (h.closing ht).closings_le_openings
      · exact ih rfl hus
  | stray => simp at hstrays
  | block h hfirst hinner hlast ih ih' =>
      rename_i ts vs _ _ first last
      obtain ⟨rfl, rfl⟩ := List.append_eq_nil_iff.1 hstrays
      rcases List.prefix_concat_iff.1 hus with rfl | hus
      · exact (h.block hfirst hinner hlast).closings_le_openings
      · -- A place inside the block: what is in front of it, and a part of the block.
        rcases List.prefix_or_prefix_of_prefix hus (List.prefix_append ts _) with hus | ⟨ws, rfl⟩
        · exact ih rfl hus
        · obtain ⟨hopen, hclose⟩ := count_flat (Token.isParenthesis_of_kind hfirst)
          have hws : ws <+: first :: vs := (List.prefix_append_right_inj ts).1 hus
          have hfront := ih rfl (List.prefix_refl ts)
          have hwithin : closings ws ≤ openings ws := by
            rcases List.prefix_cons_iff.1 hws with rfl | ⟨xs, rfl, hxs⟩
            · exact Nat.le_refl _
            · have := ih' rfl hxs
              have hsplit : first :: xs = [first] ++ xs := rfl
              rw [hsplit, openings_append, closings_append]
              omega
          rw [openings_append, closings_append]
          omega

/-- One more token, which opens no more than it may. -/
theorem openings_le_concat {n' : Nat} {t : Token}
    (h : ∀ us, us <:+ ts → openings us ≤ closings us + n)
    (ht : openings [t] + n ≤ closings [t] + n') {us : List Token} (hus : us <:+ ts ++ [t]) :
    openings us ≤ closings us + n' := by
  rcases List.suffix_concat_iff.1 hus with rfl | ⟨vs, rfl, hvs⟩
  · exact Nat.zero_le _
  · have := h vs hvs
    rw [openings_append, closings_append]
    omega

/-- Behind every place there are as many closing parentheses as opening ones, but for
those that are still open. -/
theorem openings_le (h : Paired loose n ts strays) :
    ∀ us, us <:+ ts → openings us ≤ closings us + n := by
  induction h with
  | nil =>
      intro us hus
      rw [List.suffix_nil.1 hus]
      exact Nat.zero_le _
  | flat _ ht ih =>
      obtain ⟨hopen, hclose⟩ := count_flat ht
      exact fun us => openings_le_concat ih (by omega)
  | opening _ ht ih =>
      obtain ⟨hopen, hclose⟩ := count_opening ht
      exact fun us => openings_le_concat ih (by omega)
  | closing _ ht ih =>
      obtain ⟨hopen, hclose⟩ := count_closing ht
      exact fun us => openings_le_concat ih (by omega)
  | stray _ ht ih =>
      obtain ⟨hopen, hclose⟩ := count_closing ht
      exact fun us => openings_le_concat ih (by omega)
  | block h hfirst hinner hlast ih ih' =>
      rename_i n ts xs _ _ first last
      obtain ⟨hopen, hclose⟩ := count_flat (Token.isParenthesis_of_kind hfirst)
      have hinside : ∀ us, us <:+ first :: xs → openings us ≤ closings us := by
        intro us hus
        rcases List.suffix_cons_iff.1 hus with rfl | hus
        · have := ih' xs (List.suffix_refl xs)
          have hsplit : first :: xs = [first] ++ xs := rfl
          rw [hsplit, openings_append, closings_append]
          omega
        · exact ih' us hus
      obtain ⟨hopen', hclose'⟩ := count_flat (Token.isParenthesis_of_kind hlast)
      have hfront : ∀ us, us <:+ ts ++ first :: xs → openings us ≤ closings us + n := by
        intro us hus
        -- A place inside the block, or one in front of it.
        rcases List.suffix_or_suffix_of_suffix hus (List.suffix_append ts _) with hus | ⟨vs, rfl⟩
        · exact Nat.le_add_right_of_le (hinside us hus)
        · obtain ⟨ws, hws⟩ := hus
          have hvs : vs <:+ ts :=
            ⟨ws, List.append_cancel_right (by rw [List.append_assoc]; exact hws)⟩
          have hbefore := ih vs hvs
          have hblock := hinside _ (List.suffix_refl _)
          rw [openings_append, closings_append]
          omega
      exact fun us => openings_le_concat hfront (by omega)

/-- Where strays are not allowed outside of parentheses they only stand behind `CASE`. -/
theorem exists_case (h : Paired loose n ts strays) (hloose : loose = false)
    (hstrays : strays ≠ []) : ∃ t ∈ ts, t.kind = .keyword .CASE := by
  induction h with
  | nil => exact absurd rfl hstrays
  | flat _ _ ih | opening _ _ ih | closing _ _ ih =>
      obtain ⟨t, ht, hcase⟩ := ih hloose hstrays
      exact ⟨t, List.mem_append_left _ ht, hcase⟩
  | stray => cases hloose
  | block _ hfirst _ _ _ _ => exact ⟨_, by simp, hfirst⟩

/-- Tokens without strays, and nothing open, are balanced; strays unbalance them. -/
theorem balanced_iff (h : Paired loose 0 ts strays) : Balanced ts ↔ strays = [] := by
  have hcount := h.count
  constructor
  · rintro ⟨-, hequal⟩
    exact List.eq_nil_of_length_eq_zero (by omega)
  · intro hstrays
    refine ⟨fun us hus => h.closings_le hstrays hus, ?_⟩
    rw [hstrays, List.length_nil] at hcount
    exact hcount

end Paired

/-! ## Open parentheses of a reading -/

/-- From `s` the cursor came to `c` over tokens that leave `n` parentheses open. -/
def Cursor.Opens (loose : Bool) (s : Cursor) (n : Nat) (c : Cursor) : Prop :=
  ∃ ts strays, Steps s ts c ∧ Paired loose n ts strays

namespace Cursor.Opens

variable {loose : Bool} {s c c' : Cursor} {n : Nat}

theorem refl (c : Cursor) : Cursor.Opens loose c 0 c := ⟨[], [], .refl c, .nil⟩

theorem flat (h : Opens loose s n c) (hflat : c.current.kind.isFlat = true)
    (hn : Yields next c () c') : Opens loose s n c' := by
  obtain ⟨ts, strays, hsteps, hpaired⟩ := h
  have hend : c.current.isEnd = false := by
    rw [Token.isEnd_eq_false]
    intro hend
    rw [hend] at hflat
    cases hflat
  exact ⟨_, _, hsteps.snoc hend hn, hpaired.flat (Token.isParenthesis_of_isFlat hflat)⟩

theorem opening (h : Opens loose s n c) (hkind : c.current.kind = .symbol .leftParen)
    (hn : Yields next c () c') : Opens loose s (n + 1) c' := by
  obtain ⟨ts, strays, hsteps, hpaired⟩ := h
  exact ⟨_, _, hsteps.snoc (by rw [Token.isEnd, hkind]; rfl) hn, hpaired.opening hkind⟩

theorem closing (h : Opens loose s (n + 1) c) (hkind : c.current.kind = .symbol .rightParen)
    (hn : Yields next c () c') : Opens loose s n c' := by
  obtain ⟨ts, strays, hsteps, hpaired⟩ := h
  exact ⟨_, _, hsteps.snoc (by rw [Token.isEnd, hkind]; rfl) hn, hpaired.closing hkind⟩

theorem stray (h : Opens true s 0 c) (hkind : c.current.kind = .symbol .rightParen)
    (hn : Yields next c () c') : Opens true s 0 c' := by
  obtain ⟨ts, strays, hsteps, hpaired⟩ := h
  exact ⟨_, _, hsteps.snoc (by rw [Token.isEnd, hkind]; rfl) hn, hpaired.stray hkind⟩

/-- A block from `CASE` at `c` over `c₁` to `END` at `c₂`. -/
theorem block {c₁ c₂ : Cursor} (h : Opens loose s n c) (hcase : c.current.kind = .keyword .CASE)
    (hn : Yields next c () c₁) (hinner : Opens true c₁ 0 c₂)
    (hend : c₂.current.kind = .keyword .END) (hn' : Yields next c₂ () c') :
    Opens loose s n c' := by
  obtain ⟨ts, strays, hsteps, hpaired⟩ := h
  obtain ⟨us, strays', hsteps', hpaired'⟩ := hinner
  have hfirst := hsteps.snoc (by rw [Token.isEnd, hcase]; rfl) hn
  have hlast := (hfirst.trans hsteps').snoc (by rw [Token.isEnd, hend]; rfl) hn'
  refine ⟨_, _, ?_, hpaired.block hcase hpaired' hend⟩
  simpa using hlast

end Cursor.Opens

namespace Reader

variable {α β : Type} {i j l : Nat} {r : Reading}

/-- From the reading `r` the step turns `i` open parentheses into `j`. -/
def ShiftsAt (i j : Nat) (m : Reader α) (r : Reading) : Prop :=
  ∀ ⦃loose s n a r'⦄, Cursor.Opens loose s (n + i) r.cursor → Yields m r a r' →
    Cursor.Opens loose s (n + j) r'.cursor

/-- The step turns `i` open parentheses into `j` wherever it starts. -/
def Shifts (i j : Nat) (m : Reader α) : Prop := ∀ r, ShiftsAt i j m r

/-- The step leaves as many parentheses open as there were. -/
def Keeps (m : Reader α) : Prop := ∀ i, Shifts i i m

/-- What comes next may depend on where the first step ended. -/
theorem ShiftsAt.bindAt {m : Reader α} {f : α → Reader β} (h : ShiftsAt i j m r)
    (hf : ∀ a r₁, Yields m r a r₁ → ShiftsAt j l (f a) r₁) : ShiftsAt i l (m >>= f) r := by
  intro loose s n b r' hs hn
  obtain ⟨a, r₁, hm, hn⟩ := yields_bind.1 hn
  exact hf a r₁ hm (h hs hm) hn

theorem ShiftsAt.bind {m : Reader α} {f : α → Reader β} (h : ShiftsAt i j m r)
    (hf : ∀ a, Shifts j l (f a)) : ShiftsAt i l (m >>= f) r :=
  h.bindAt fun a r₁ _ => hf a r₁

theorem Shifts.bind {m : Reader α} {f : α → Reader β} (h : Shifts i j m)
    (hf : ∀ a, Shifts j l (f a)) : Shifts i l (m >>= f) :=
  fun r => (h r).bind hf

theorem Keeps.bind {m : Reader α} {f : α → Reader β} (h : Keeps m) (hf : ∀ a, Keeps (f a)) :
    Keeps (m >>= f) :=
  fun i => (h i).bind fun a => hf a i

/-- A step that does not move the cursor. -/
theorem keeps_of_stays {m : Reader α} (h : ∀ {r a r'}, Yields m r a r' → r'.cursor = r.cursor) :
    Keeps m := by
  intro i r loose s n a r' hs hn
  rw [h hn]
  exact hs

theorem keeps_pure (a : α) : Keeps (pure a : Reader α) :=
  keeps_of_stays fun hn => by rw [(yields_pure.1 hn).2]

/-- A step that never succeeds. -/
theorem shifts_of_fails {m : Reader α} (h : ∀ {r a r'}, ¬Yields m r a r') : Shifts i j m :=
  fun _ _ _ _ _ _ _ hn => (h hn).elim

theorem failExpected_keeps (what : String) : Keeps (failExpected what : Reader α) :=
  fun _ => shifts_of_fails yields_failExpected.1

theorem failAt_keeps (offset : Nat) (cause : GrammarCause) :
    Keeps (failAt offset cause : Reader α) :=
  fun _ => shifts_of_fails yields_failAt.1

theorem failHere_keeps (cause : GrammarCause) : Keeps (failHere cause : Reader α) :=
  fun _ => shifts_of_fails yields_failHere.1

theorem failExpected_bind_shifts {what : String} {f : α → Reader β} :
    Shifts i j (failExpected what >>= f) :=
  shifts_of_fails bind_failExpected

/-- The current token is looked at. -/
theorem shiftsAt_current {f : Token → Reader α} (h : ShiftsAt i j (f r.cursor.current) r) :
    ShiftsAt i j (current >>= f) r :=
  fun _ _ _ _ _ hs hn => h hs (bind_current hn)

theorem shifts_current {f : Token → Reader α}
    (h : ∀ r, ShiftsAt i j (f r.cursor.current) r) : Shifts i j (current >>= f) :=
  fun r => shiftsAt_current (h r)

theorem keeps_current {f : Token → Reader α}
    (h : ∀ i r, ShiftsAt i i (f r.cursor.current) r) : Keeps (current >>= f) :=
  fun i => shifts_current (h i)

/-- A token that is no parenthesis. -/
theorem next_shifts (hflat : r.cursor.current.kind.isFlat = true) : ShiftsAt i i next r := by
  intro loose s n _ r' hs hn
  obtain ⟨c, hc, rfl⟩ := yields_onCursor.1 hn
  exact hs.flat hflat hc

/-- A token of a given kind that is no parenthesis. -/
theorem next_shiftsOf {k : Kind} (hk : r.cursor.current.kind = k) (hflat : k.isFlat = true) :
    ShiftsAt i i next r :=
  next_shifts (hk ▸ hflat)

theorem here_keeps : Keeps here := keeps_of_stays fun hn => by rw [(yields_here.1 hn).2]

theorem lastEnd_keeps : Keeps lastEnd := keeps_of_stays fun hn => by rw [(yields_lastEnd.1 hn).2]

theorem atKeyword_keeps (k : Keyword) : Keeps (atKeyword k) :=
  keeps_of_stays fun hn => by rw [(yields_atKeyword.1 hn).2]

theorem atSymbol_keeps (s : Symbol) : Keeps (atSymbol s) :=
  keeps_of_stays fun hn => by rw [(yields_atSymbol.1 hn).2]

theorem peekNth_keeps (n : Nat) : Keeps (peekNth n) :=
  keeps_of_stays fun hn => by rw [(peekNth_yields hn).2]

theorem peek_keeps : Keeps peek := peekNth_keeps 1

theorem modifyDraft_keeps (f : Draft → Draft) : Keeps (modifyDraft f) :=
  keeps_of_stays fun hn => by rw [← yields_modifyDraft.1 hn]

theorem recordPassage_keeps (kind : Passage.Kind) (span : Span) : Keeps (recordPassage kind span) :=
  keeps_of_stays fun hn => by rw [← yields_recordPassage.1 hn, Reading.passing_cursor]

theorem down_keeps (n : Nat) : Keeps (Counter.down n) :=
  keeps_of_stays fun hn => by rw [(Counter.yields_down.1 hn).2.2]

theorem nextParameter_keeps : Keeps nextParameter :=
  keeps_of_stays fun hn => by rw [← (yields_nextParameter hn).2]; rfl

theorem nameOf_keeps (t : Token) : Keeps (nameOf t) :=
  keeps_of_stays fun hn => by rw [(yields_nameOf.1 hn).2]

theorem noteOwner_keeps (t : Token) : Keeps (noteOwner t) :=
  keeps_of_stays fun hn => by
    obtain ⟨_, -, rfl⟩ := yields_noteOwner.1 hn
    rfl

theorem verbatimFrom_keeps (env : Setting) (start : Nat) : Keeps (verbatimFrom env start) :=
  lastEnd_keeps.bind fun _ => keeps_pure _

theorem skipOneOf_keeps {kinds : List Kind} (hkinds : ∀ k ∈ kinds, k.isFlat = true) :
    Keeps (onCursor (Cursor.skipOneOf kinds)) := by
  intro i r loose s n b r' hs hn
  rcases skipOneOf_yields hn with ⟨-, hkind, hnext⟩ | ⟨-, -, rfl⟩
  · exact next_shifts (hkinds _ hkind) hs hnext
  · exact hs

theorem skipKeyword_keeps (k : Keyword) : Keeps (skipKeyword k) :=
  skipOneOf_keeps (by simp [Kind.isFlat])

theorem skipAnyOf_keeps (ks : List Keyword) : Keeps (skipAnyOf ks) :=
  skipOneOf_keeps (by simp [Kind.isFlat])

theorem skipSymbol_keeps {s : Symbol} (hs : (Kind.symbol s).isFlat = true) :
    Keeps (skipSymbol s) :=
  skipOneOf_keeps (by simpa using hs)

theorem acceptKeyword_keeps (k : Keyword) : Keeps (acceptKeyword k) := by
  intro i r loose s n t r' hs hn
  obtain ⟨-, hkind, hnext⟩ := acceptKeyword_yields hn
  exact next_shiftsOf hkind rfl hs hnext

theorem skipKeywords_keeps (ks : List Keyword) : Keeps (skipKeywords ks) := by
  intro i r loose s n u r' hs hn
  obtain ⟨c, hc, rfl⟩ := yields_onCursor.1 hn
  refine repeatStep_yields (fun _ c => Cursor.Opens loose s (n + i) c)
    (fun _ c => Cursor.Opens loose s (n + i) c) ?_ hs hc
  intro _ c₁ round c₂ hs₁ hround
  obtain ⟨b, c₃, hskip, hround⟩ := yields_bind.1 hround
  have hs₃ : Cursor.Opens loose s (n + i) c₃ := by
    rcases Cursor.skipOneOf_yields hskip with ⟨-, hkind, hnext⟩ | ⟨-, -, rfl⟩
    · obtain ⟨k, -, hk⟩ := List.mem_map.1 hkind
      exact hs₁.flat (by rw [← hk]; rfl) hnext
    · exact hs₁
  rcases yields_ite.1 hround with ⟨-, hround⟩ | ⟨-, hround⟩
  all_goals
    obtain ⟨rfl, rfl⟩ := yields_pure.1 hround
    exact hs₃

/-! ### Parentheses -/

theorem openParen_shifts : Shifts i (i + 1) (acceptSymbol .leftParen) := by
  intro r loose s n t r' hs hn
  obtain ⟨-, hkind, hnext⟩ := acceptSymbol_yields hn
  obtain ⟨c, hc, rfl⟩ := yields_onCursor.1 hnext
  exact hs.opening hkind hc

theorem closeParen_shifts : Shifts (i + 1) i (acceptSymbol .rightParen) := by
  intro r loose s n t r' hs hn
  obtain ⟨-, hkind, hnext⟩ := acceptSymbol_yields hn
  obtain ⟨c, hc, rfl⟩ := yields_onCursor.1 hnext
  exact hs.closing hkind hc

theorem close_shifts (opening : Token) : Shifts (i + 1) i (close opening) := by
  intro r loose s n u r' hs hn
  obtain ⟨hkind, hnext⟩ := close_yields hn
  obtain ⟨c, hc, rfl⟩ := yields_onCursor.1 hnext
  exact hs.closing hkind hc

theorem acceptSymbol_keeps {s : Symbol} (hflat : (Kind.symbol s).isFlat = true) :
    Keeps (acceptSymbol s) := by
  intro i r loose s n t r' hs hn
  obtain ⟨-, hkind, hnext⟩ := acceptSymbol_yields hn
  exact next_shiftsOf hkind hflat hs hnext

theorem passParentheses_keeps : Keeps passParentheses := by
  intro i r loose s n u r' hs hn
  obtain ⟨skipped, r₁, hskip, hrec⟩ := yields_bind.1 hn
  obtain ⟨c, hc, rfl⟩ := yields_onCursor.1 hskip
  obtain rfl := yields_recordPassage.1 hrec
  obtain ⟨opening, c₁, hopen, hc⟩ := yields_bind.1 hc
  obtain ⟨rfl, hkind, hnext⟩ := Cursor.accept_yields hopen
  refine repeatStep_yields
    (fun (state : Nat × Nat) c => Cursor.Opens loose s (n + i + state.1) c)
    (fun _ c => Cursor.Opens loose s (n + i) c) ?_ (hs.opening hkind hnext) hc
  rintro ⟨depth, placeholders⟩ c₂ round c₃ hs₂ hround
  dsimp only at hs₂
  rcases yields_ite.1 hround with ⟨hzero, hround⟩ | ⟨hzero, hround⟩
  · obtain ⟨_, _, hget, hround⟩ := yields_bind.1 hround
    obtain ⟨rfl, rfl⟩ := yields_get.1 hget
    obtain ⟨rfl, rfl⟩ := yields_pure.1 hround
    rwa [hzero] at hs₂
  · obtain ⟨_, _, hget, hround⟩ := yields_bind.1 hround
    obtain ⟨rfl, rfl⟩ := yields_get.1 hget
    obtain ⟨depth, rfl⟩ : ∃ k, depth = k + 1 := ⟨depth - 1, by omega⟩
    split at hround
    · cases hround
    · rename_i hkind
      obtain ⟨_, hnext, rfl⟩ := yields_map.1 (Counter.bind_up hround)
      exact hs₂.opening hkind hnext
    · rename_i hkind
      obtain ⟨_, hnext, rfl⟩ := yields_map.1 (Counter.bind_down hround)
      exact hs₂.closing hkind hnext
    · rename_i hkind
      obtain ⟨_, hnext, rfl⟩ := yields_map.1 (Counter.bind_up hround)
      exact hs₂.flat (by rw [hkind]; rfl) hnext
    · rename_i hend hleft hright _
      obtain ⟨_, hnext, rfl⟩ := yields_map.1 hround
      exact hs₂.flat (Kind.isFlat_of hend hleft hright) hnext

/-- Counting a `?` and noting an owner move over no other token. -/
theorem consume_yields_next {u : Unit} {r' : Reading} (hn : Yields consume r u r') :
    ∃ c, Yields Cursor.next r.cursor () c ∧ r'.cursor = c := by
  replace hn := bind_current hn
  have hmove : ∀ {r₁ : Reading}, r₁.cursor = r.cursor → Yields (do
      next
      if r.cursor.current.isName && (← atSymbol .dot) then noteOwner r.cursor.current) r₁ u r' →
      ∃ c, Yields Cursor.next r.cursor () c ∧ r'.cursor = c := by
    intro r₁ hcursor hn
    obtain ⟨_, r₂, hnext, hn⟩ := yields_bind.1 hn
    obtain ⟨c, hc, rfl⟩ := yields_onCursor.1 hnext
    replace hn := bind_atSymbol hn
    rcases yields_ite.1 hn with ⟨-, hn⟩ | ⟨-, hn⟩
    · obtain ⟨_, -, rfl⟩ := yields_noteOwner.1 hn
      exact ⟨c, hcursor ▸ hc, rfl⟩
    · obtain ⟨-, rfl⟩ := yields_pure.1 hn
      exact ⟨c, hcursor ▸ hc, rfl⟩
  rcases yields_ite.1 hn with ⟨-, hn⟩ | ⟨-, hn⟩
  · obtain ⟨_, r₁, hcount, hn⟩ := yields_bind.1 hn
    obtain ⟨-, rfl⟩ := yields_nextParameter hcount
    exact hmove (show r.counted.cursor = r.cursor from rfl) hn
  · exact hmove rfl hn

theorem consume_shifts (hflat : r.cursor.current.kind.isFlat = true) : ShiftsAt i i consume r := by
  intro loose s n u r' hs hn
  obtain ⟨c, hc, hr'⟩ := consume_yields_next hn
  rw [hr']
  exact hs.flat hflat hc

/-! ### Repetitions -/

theorem repeating_keeps {step : β → Reader (Round β α)} (h : ∀ b, Keeps (step b)) (b : β) :
    Keeps (repeating step b) := by
  intro i r loose s n a r' hs hn
  exact repeatStep_yields (fun _ r => Cursor.Opens loose s (n + i) r.cursor)
    (fun _ r => Cursor.Opens loose s (n + i) r.cursor)
    (fun {b r₁ round r₂} hs₁ hround => by
      have := h b i r₁ hs₁ hround
      cases round <;> exact this) hs hn

theorem commaSeparated_keeps {entry : Reader α} (h : Keeps entry) :
    Keeps (commaSeparated entry) := by
  refine repeating_keeps (fun done => ?_) []
  refine h.bind fun a => (skipSymbol_keeps rfl).bind fun found => ?_
  split <;> exact keeps_pure _

end Reader

end SqlMarkers
