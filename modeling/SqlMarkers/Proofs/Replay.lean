/-
SqlMarkers.Proofs.Replay — a reader that reads the same tokens in another place.

A text may be read alone, or as a part of a longer one (`Stage`). Two such readings face
the same glyphs (`Stage.Facing`): behind these the first one is at its end, while the second
one goes on. What a reader does in the first reading it does in the second one
(`Reader.Replays`), as long as it does not take what follows for more of its own.

Offsets differ by the width of the text in front, so what is cut out of the source is the
same (`Stage.sourceText_eq`) once both readings have consumed a token (`Stage.Moved`).
-/
import SqlMarkers.Proofs.Agreement
import SqlMarkers.Proofs.Readback
import SqlMarkers.Tree.Render

namespace SqlMarkers

open Glyph

/-! ## The same text in two places -/

namespace Text

theorem dropWidth?_append {n : Nat} {as : List Char} (h : n ≤ width as) (bs : List Char) :
    dropWidth? n (as ++ bs) = (dropWidth? n as).map (· ++ bs) := by
  induction as generalizing n with
  | nil =>
      obtain rfl : n = 0 := by simpa using h
      simp
  | cons a as ih =>
      cases n with
      | zero => simp
      | succ n =>
          rw [List.cons_append, dropWidth?, dropWidth?]
          split
          · rename_i hle
            rw [width_cons] at h
            exact ih (by omega)
          · rfl

theorem takeWidth?_append {n : Nat} {as : List Char} (h : n ≤ width as) (bs : List Char) :
    takeWidth? n (as ++ bs) = takeWidth? n as := by
  induction as generalizing n with
  | nil =>
      obtain rfl : n = 0 := by simpa using h
      simp
  | cons a as ih =>
      cases n with
      | zero => simp
      | succ n =>
          rw [List.cons_append, takeWidth?, takeWidth?]
          split
          · rename_i hle
            rw [width_cons] at h
            rw [ih (by omega)]
          · rfl

theorem dropWidth?_add (front cs : List Char) (n : Nat) :
    dropWidth? (width front + n) (front ++ cs) = dropWidth? n cs := by
  induction front with
  | nil => simp
  | cons a front ih =>
      obtain ⟨m, hm⟩ : ∃ m, width (a :: front) + n = m + 1 :=
        ⟨width (a :: front) + n - 1, by have := a.utf8Size_pos; simp; omega⟩
      rw [hm, List.cons_append, dropWidth?]
      rw [width_cons] at hm
      rw [if_pos (by omega), show m + 1 - a.utf8Size = width front + n by omega, ih]

theorem width_of_dropWidth? {n : Nat} {cs rest : List Char} (h : dropWidth? n cs = some rest) :
    n + width rest = width cs := by
  induction cs generalizing n with
  | nil =>
      cases n with
      | zero =>
          cases h
          rfl
      | succ n => cases h
  | cons c cs ih =>
      cases n with
      | zero =>
          cases h
          simp
      | succ n =>
          rw [dropWidth?] at h
          split at h
          · rename_i hle
            have := ih h
            rw [width_cons]
            omega
          · cases h

/-- A stretch of a text is the same stretch of a longer text. -/
theorem slice?_moved (front cs behind : List Char) {start stop : Nat} (h : stop ≤ width cs) :
    slice? (width front + start) (width front + stop) (front ++ (cs ++ behind)) =
      slice? start stop cs := by
  unfold slice?
  by_cases hle : start ≤ stop
  · rw [if_pos hle, if_pos (by omega), dropWidth?_add, dropWidth?_append (by omega),
      show width front + stop - (width front + start) = stop - start by omega]
    cases hdrop : dropWidth? start cs with
    | none => rfl
    | some rest =>
        have hwidth := width_of_dropWidth? hdrop
        exact takeWidth?_append (by omega) behind
  · rw [if_neg hle, if_neg (by omega)]

end Text

/-! ## Readings that stand in front of the same glyphs -/

/-- The token `t` is the token `u`, further on by `n` bytes. -/
structure Token.Moved (n : Nat) (u t : Token) : Prop where
  kind : t.kind = u.kind
  text : t.text = u.text
  start : t.span.start = n + u.span.start
  stop : t.span.stop = n + u.span.stop

namespace Token.Moved

variable {n : Nat} {u t : Token} (h : u.Moved n t)
include h

theorem isKeyword (k : Keyword) : t.isKeyword k = u.isKeyword k := by
  rw [Token.isKeyword, h.kind, Token.isKeyword]

theorem isSymbol (s : Symbol) : t.isSymbol s = u.isSymbol s := by
  rw [Token.isSymbol, h.kind, Token.isSymbol]

theorem isName : t.isName = u.isName := by
  rw [Token.isName, h.kind, Token.isName]

theorem isAnyKeyword : t.isAnyKeyword = u.isAnyKeyword := by
  rw [Token.isAnyKeyword, h.kind, Token.isAnyKeyword]

theorem isWord (word : String) : t.isWord word = u.isWord word := by
  rw [Token.isWord, h.kind, h.text, Token.isWord]

theorem integer? : t.integer? = u.integer? := by
  rw [Token.integer?, h.kind, h.text, Token.integer?]

theorem real? : t.real? = u.real? := by
  rw [Token.real?, h.kind, h.text, Token.real?]

theorem chars? (escapes : Bool) : t.chars? escapes = u.chars? escapes := by
  rw [Token.chars?, h.kind, h.text, Token.chars?]

theorem isNational : t.isNational = u.isNational := by
  rw [Token.isNational, h.kind, h.text, Token.isNational]

end Token.Moved

/-- A text that is read alone and, as a part of a longer one, in its place. -/
structure Stage where
  alone : Setting
  env : Setting
  /-- The text in front of it. -/
  base : List Char
  /-- The glyphs behind it. -/
  rest : List Glyph
  depth : Nat
  dialect : env.dialect = alone.dialect
  source : env.source = base ++ (alone.source ++ spell rest)

namespace Stage

variable {s : Stage} {u r : Reading}

/-- How far the text is moved. -/
def shift (s : Stage) : Nat := Text.width s.base

/-- Both readings are `k` levels further down than the text, and neither was refused at its
limit. -/
def Levels (s : Stage) (k : Nat) (u r : Reading) : Prop :=
  u.nesting = ⟨k, false⟩ ∧ r.nesting = ⟨s.depth + k, false⟩

/-- The reading `u` of the text alone and the reading `r` stand in front of the same glyphs;
behind these `u` is at its end and `r` in front of the rest. -/
structure Facing (s : Stage) (u r : Reading) : Prop where
  tokens : ∃ front gs, s.alone.source = front ++ spell gs ∧
    (∀ g ∈ gs, g.kind ≠ .endOfInput ∧ g.text ≠ []) ∧
    u.cursor.rest = place (Text.width front) gs ∧
    r.cursor.rest = place (s.shift + Text.width front) (gs ++ s.rest)
  failure : u.cursor.failure = none ∧ r.cursor.failure = none
  level : s.Levels 0 u r

/-- The two readings, moreover, have consumed the same token last. -/
structure Moved (s : Stage) (u r : Reading) : Prop where
  facing : s.Facing u r
  lastEnd : r.cursor.lastEnd = s.shift + u.cursor.lastEnd
  positive : 0 < u.cursor.lastEnd
  within : u.cursor.lastEnd ≤ Text.width s.alone.source

/-- The two readings, moreover, stand in front of a token of the text. -/
def Live (s : Stage) (u r : Reading) : Prop :=
  s.Moved u r ∧ u.cursor.current.kind ≠ .endOfInput

/-- Results that no reader looks at. -/
def Any {α : Type} (_ _ : α) : Prop := True

/-- Two tokens at the same distance: the same token, or the end of the first reading and
the first of the glyphs behind. -/
def Seen (s : Stage) (t t' : Token) : Prop :=
  (t.kind ≠ .endOfInput ∧ t.Moved s.shift t') ∨
    (t.kind = .endOfInput ∧ t'.kind = ahead s.rest)

theorem Seen.isSymbol {t t' : Token} (h : s.Seen t t') {mark : Symbol}
    (hrest : ahead s.rest ≠ .symbol mark) : t'.isSymbol mark = t.isSymbol mark := by
  rcases h with ⟨-, hsame⟩ | ⟨hend, hkind⟩
  · exact hsame.isSymbol mark
  · rw [Token.isSymbol, Token.isSymbol, hend, hkind]
    simpa using hrest

theorem seen_place (s : Stage) {gs : List Glyph} (hgs : ∀ g ∈ gs, g.kind ≠ .endOfInput) (n : Nat)
    {i : Nat} (hi : i ≤ gs.length) :
    ∃ t t', (place n gs)[i]? = some t ∧ (place (s.shift + n) (gs ++ s.rest))[i]? = some t' ∧
      s.Seen t t' ∧ (t.kind = .endOfInput ↔ i = gs.length) := by
  induction gs generalizing n i with
  | nil =>
      obtain rfl : i = 0 := by simpa using hi
      obtain ⟨t, ts, hplace, hkind⟩ := place_head (s.shift + n) s.rest
      refine ⟨.endAt n, t, rfl, ?_, .inr ⟨rfl, hkind⟩, by simp [Token.endAt]⟩
      rw [List.nil_append, hplace]
      rfl
  | cons g gs ih =>
      obtain ⟨hg, hgs⟩ := List.forall_mem_cons.1 hgs
      cases i with
      | zero =>
          refine ⟨_, _, rfl, rfl, .inl ⟨hg, rfl, rfl, ?_, ?_⟩, by simpa [Glyph.token] using hg⟩
          · simp only [Glyph.token, Nat.add_assoc]
          · simp only [Glyph.token, Nat.add_assoc]
      | succ i =>
          obtain ⟨t, t', ht, ht', hseen, hend⟩ := ih hgs
            (n + Text.width g.gap + Text.width g.text) (Nat.le_of_succ_le_succ hi)
          refine ⟨t, t', ht, ?_, hseen, by simpa using hend⟩
          rw [← Nat.add_assoc, ← Nat.add_assoc] at ht'
          exact ht'

/-- The tokens ahead, up to the end of the first reading and the token there. -/
theorem Facing.lookAhead (h : s.Facing u r) :
    ∃ k, ∀ i ≤ k, ∃ t t', u.cursor.lookAhead i = .ok t ∧ r.cursor.lookAhead i = .ok t' ∧
      s.Seen t t' ∧ (t.kind = .endOfInput ↔ i = k) := by
  obtain ⟨front, gs, -, hgs, hu, hr⟩ := h.tokens
  refine ⟨gs.length, fun i hi => ?_⟩
  obtain ⟨t, t', ht, ht', hseen, hend⟩ := s.seen_place (fun g hg => (hgs g hg).1)
    (Text.width front) hi
  refine ⟨t, t', ?_, ?_, hseen, hend⟩
  · rw [Cursor.lookAhead, ← Cursor.rest, hu, ht]
  · rw [Cursor.lookAhead, ← Cursor.rest, hr, ht']

/-- The current tokens are the same, or the first reading is at its end. -/
theorem Facing.current (h : s.Facing u r) : s.Seen u.cursor.current r.cursor.current := by
  obtain ⟨k, hk⟩ := h.lookAhead
  obtain ⟨t, t', ht, ht', hseen, -⟩ := hk 0 (Nat.zero_le k)
  cases ht
  cases ht'
  exact hseen

/-- Nothing stands behind the end of the first reading. -/
theorem Facing.ahead_eq_nil (h : s.Facing u r) (hend : u.cursor.current.kind = .endOfInput) :
    u.cursor.ahead = [] := by
  obtain ⟨front, gs, -, hgs, hu, -⟩ := h.tokens
  cases gs with
  | nil => exact (List.cons.inj hu).2
  | cons g gs =>
      rw [(List.cons.inj hu).1] at hend
      exact absurd hend (hgs g List.mem_cons_self).1

theorem Facing.congr {u' r' : Reading} (h : s.Facing u r) (hu : u'.cursor = u.cursor)
    (hr : r'.cursor = r.cursor) (hlevel : u'.nesting = u.nesting ∧ r'.nesting = r.nesting) :
    s.Facing u' r' := by
  refine ⟨?_, ?_, hlevel.1.trans h.level.1, hlevel.2.trans h.level.2⟩
  · rw [hu, hr]
    exact h.tokens
  · rw [hu, hr]
    exact h.failure

theorem Moved.congr {u' r' : Reading} (h : s.Moved u r) (hu : u'.cursor = u.cursor)
    (hr : r'.cursor = r.cursor) (hlevel : u'.nesting = u.nesting ∧ r'.nesting = r.nesting) :
    s.Moved u' r' := by
  refine ⟨h.facing.congr hu hr hlevel, ?_, ?_, ?_⟩
  · rw [hu, hr]
    exact h.lastEnd
  · rw [hu]
    exact h.positive
  · rw [hu]
    exact h.within

/-- `REGEXP` is recognized by kind and text, which do not move. -/
theorem isRegexp_moved (s : Stage) {t t' : Token} (h : t.Moved s.shift t') :
    Reader.isRegexp s.env t' = Reader.isRegexp s.alone t := by
  rw [Reader.isRegexp, Token.isRegexp, h.isWord, h.isWord, s.dialect, Reader.isRegexp,
    Token.isRegexp]

/-- What is cut out of the source between two offsets of the text. -/
theorem sourceText_eq (s : Stage) {start stop : Nat} (h : stop ≤ Text.width s.alone.source) :
    Reader.sourceText s.env (s.shift + start) (s.shift + stop) =
      Reader.sourceText s.alone start stop := by
  rw [Reader.sourceText, s.source, shift, Text.slice?_moved _ _ _ h, Reader.sourceText]

end Stage

/-! ## Steps that are replayed -/

/-- What the first step gives from `u` the second one gives from `r`, up to `R`, and `S`
relates the readings they leave. -/
def Reader.Replays {α : Type} (S : Reading → Reading → Prop) (R : α → α → Prop) (m n : Reader α)
    (u r : Reading) : Prop :=
  ∀ a u', Yields m u a u' → Attains n r fun b r' => R a b ∧ S u' r'

namespace Reader.Replays

variable {α β : Type} {S T : Reading → Reading → Prop} {R : α → α → Prop} {Q : β → β → Prop}
  {m n : Reader α} {f g : α → Reader β} {u r : Reading}

theorem pure {a b : α} (hR : R a b) (hS : S u r) :
    Replays S R (Pure.pure a) (Pure.pure b) u r := by
  intro a' u' h
  obtain ⟨rfl, rfl⟩ := yields_pure.1 h
  exact .pure ⟨hR, hS⟩

theorem bind (h : Replays S R m n u r)
    (hf : ∀ a b u' r', R a b → S u' r' → Replays T Q (f a) (g b) u' r') :
    Replays T Q (m >>= f) (n >>= g) u r := by
  intro c u' h'
  obtain ⟨a, u₁, hm, hfa⟩ := yields_bind.1 h'
  refine (h a u₁ hm).bind ?_
  rintro b r₁ ⟨hR, hS⟩
  exact hf a b u₁ r₁ hR hS c u' hfa

theorem mono {S' : Reading → Reading → Prop} {R' : α → α → Prop} (h : Replays S R m n u r)
    (hR : ∀ a b, R a b → R' a b) (hS : ∀ u r, S u r → S' u r) : Replays S' R' m n u r :=
  fun a u' h' => (h a u' h').mono fun b r' hb => ⟨hR a b hb.1, hS u' r' hb.2⟩

theorem fails (h : ∀ a u', ¬Yields m u a u') : Replays S R m n u r :=
  fun a u' h' => (h a u' h').elim

theorem current {f g : Token → Reader β}
    (h : Replays S Q (f u.cursor.current) (g r.cursor.current) u r) :
    Replays S Q (Reader.current >>= f) (Reader.current >>= g) u r :=
  fun a u' h' => .current (h a u' (bind_current h'))

theorem atKeyword {k : Keyword} {f g : Bool → Reader β}
    (h : Replays S Q (f (u.cursor.current.isKeyword k)) (g (r.cursor.current.isKeyword k)) u r) :
    Replays S Q (Reader.atKeyword k >>= f) (Reader.atKeyword k >>= g) u r := h

/-- A look at the cursor, in a step on the cursor alone. -/
theorem onCursor_get {f g : Cursor → Cursor.Action β}
    (h : Replays S Q (Reader.onCursor (f u.cursor)) (Reader.onCursor (g r.cursor)) u r) :
    Replays S Q (Reader.onCursor (MonadState.get >>= f)) (Reader.onCursor (MonadState.get >>= g))
      u r := h

theorem lastEnd {f g : Nat → Reader β} (h : Replays S Q (f u.cursor.lastEnd) (g r.cursor.lastEnd) u r) :
    Replays S Q (Reader.lastEnd >>= f) (Reader.lastEnd >>= g) u r :=
  fun a u' h' => .lastEnd (h a u' (bind_lastEnd h'))

theorem here {f g : Nat → Reader β}
    (h : Replays S Q (f u.cursor.current.span.start) (g r.cursor.current.span.start) u r) :
    Replays S Q (Reader.here >>= f) (Reader.here >>= g) u r :=
  fun a u' h' => .here (h a u' (bind_here h'))

/-- What is counted in the first run is in range, so it can be counted in the second one. -/
theorem up {n : Nat} {f g : Nat → Reader β} (h : Replays S Q (f (n + 1)) (g (n + 1)) u r) :
    Replays S Q (Counter.up n >>= f) (Counter.up n >>= g) u r := by
  intro b u' hrun
  obtain ⟨m, u₁, hup, hrun⟩ := yields_bind.1 hrun
  obtain ⟨hn, rfl, rfl⟩ := Counter.yields_up.1 hup
  exact .after (Counter.yields_up.2 ⟨hn, rfl, rfl⟩) (h b u' hrun)

theorem down {n n' : Nat} {f g : Nat → Reader β} (hpos : 0 < n → 0 < n')
    (h : Replays S Q (f (n - 1)) (g (n' - 1)) u r) :
    Replays S Q (Counter.down n >>= f) (Counter.down n' >>= g) u r := by
  intro b u' hrun
  obtain ⟨m, u₁, hdown, hrun⟩ := yields_bind.1 hrun
  obtain ⟨hn, rfl, rfl⟩ := Counter.yields_down.1 hdown
  exact .after (Counter.yields_down.2 ⟨hpos hn, rfl, rfl⟩) (h b u' hrun)

/-- The rounds of a repetition that ends with the result `a` in the reading `u'`. -/
inductive Rounds (step : β → Reader (Round β α)) (a : α) (u' : Reading) : β → Reading → Prop
  | stop {b : β} {u : Reading} : Yields (step b) u (.stop a) u' → Rounds step a u' b u
  | again {b b' : β} {u u₁ : Reading} : Yields (step b) u (.again b') u₁ →
      Rounds step a u' b' u₁ → Rounds step a u' b u

theorem rounds_of_repeating {step : β → Reader (Round β α)} {b : β} {a : α} {u' : Reading}
    (h : Yields (Reader.repeating step b) u a u') : Rounds step a u' b u := by
  have hrun : ∀ fuel b u, Yields (Round.run (fun r : Reading => r.cursor.remaining) .stalled step
      fuel b) u a u' → Rounds step a u' b u := by
    intro fuel
    induction fuel with
    | zero => exact fun _ _ hrun => (yields_throw.1 hrun).elim
    | succ fuel ih =>
        intro b u hrun
        obtain ⟨_, _, hget, hrun⟩ := yields_bind.1 hrun
        obtain ⟨rfl, rfl⟩ := yields_get.1 hget
        obtain ⟨round, u₁, hround, hrest⟩ := yields_bind.1 hrun
        cases round with
        | stop a' =>
            obtain ⟨rfl, rfl⟩ := yields_pure.1 hrest
            exact .stop hround
        | again b' =>
            obtain ⟨_, _, hget, hrest⟩ := yields_bind.1 hrest
            obtain ⟨rfl, rfl⟩ := yields_get.1 hget
            rcases yields_ite.1 hrest with ⟨-, hrest⟩ | ⟨-, hrest⟩
            · exact .again hround (ih b' u₁ hrest)
            · exact (yields_throw.1 hrest).elim
  obtain ⟨_, _, hget, hrest⟩ := yields_bind.1 h
  obtain ⟨rfl, rfl⟩ := yields_get.1 hget
  exact hrun _ b u hrest

/-- A repetition is replayed if each of its rounds is. Only rounds from readings that are
`live` count, if the repetition ends in such a reading and none becomes so again. -/
theorem repeating_live {step step' : β → Reader (Round β α)} (live : Reading → Prop)
    (hdead : ∀ b u round u', ¬live u → Yields (step b) u round u' → ¬live u')
    (hstep : ∀ b u r, live u → S u r → Replays S (Round.Alike Eq R) (step b) (step' b) u r) {b : β}
    (h : S u r) {a : α} {u' : Reading} (hrun : Yields (Reader.repeating step b) u a u')
    (hlive : live u') :
    Attains (Reader.repeating step' b) r fun a' r' => R a a' ∧ S u' r' := by
  have hstays : ∀ b u, Rounds step a u' b u → live u := by
    intro b u hrounds
    by_contra hu
    induction hrounds with
    | stop hround => exact hdead _ _ _ _ hu hround hlive
    | again hround _ ih => exact ih (hdead _ _ _ _ hu hround)
  refine attains_repeating (fun b r => ∃ u, S u r ∧ Rounds step a u' b u) ?_
    ⟨u, h, rounds_of_repeating hrun⟩
  rintro b r ⟨u, h, hrounds⟩
  have hu := hstays b u hrounds
  cases hrounds with
  | stop hround =>
      refine (hstep b u r hu h _ _ hround).mono ?_
      rintro _ r' ⟨hresult | hresult, hr'⟩
      exact ⟨hresult, hr'⟩
  | again hround hrest =>
      refine (hstep b u r hu h _ _ hround).mono ?_
      rintro _ r' ⟨hnext | hnext, hr'⟩
      cases hnext
      exact ⟨_, hr', hrest⟩

/-- A repetition is replayed if each of its rounds is. -/
theorem repeating {step step' : β → Reader (Round β α)}
    (hstep : ∀ b u r, S u r → Replays S (Round.Alike Eq R) (step b) (step' b) u r) {b : β}
    (h : S u r) : Replays S R (Reader.repeating step b) (Reader.repeating step' b) u r :=
  fun _ _ hrun => repeating_live (fun _ => True)
    (fun _ _ _ _ hu _ => absurd trivial hu) (fun b u r _ h => hstep b u r h) h hrun trivial

end Reader.Replays

namespace Stage

open Reader

variable {α : Type} {s : Stage} {u r : Reading}

theorem yields_next_moved (h : s.Facing u r) (hend : u.cursor.current.kind ≠ .endOfInput)
    {u' : Reading} (hstep : Yields next u () u') : ∃ r', Yields next r () r' ∧ s.Moved u' r' := by
  obtain ⟨c, hnext, rfl⟩ := yields_onCursor.1 hstep
  obtain ⟨front, gs, hsource, hgs, hu, hr⟩ := h.tokens
  cases gs with
  | nil =>
      rw [(List.cons.inj hu).1] at hend
      exact absurd rfl hend
  | cons g gs =>
      obtain ⟨c₁, hnext₁, hplace₁, hfailure₁, hlast₁⟩ := Cursor.next_place hu h.failure.1
      obtain ⟨c₂, hnext₂, hplace₂, hfailure₂, hlast₂⟩ := Cursor.next_place hr h.failure.2
      obtain rfl : c₁ = c := by
        have heq := hnext₁.symm.trans hnext
        cases heq
        rfl
      have hoffset : Text.width (front ++ (g.gap ++ g.text)) =
          Text.width front + Text.width g.gap + Text.width g.text := by
        simp [Nat.add_assoc]
      have hpos := Text.width_pos (hgs g List.mem_cons_self).2
      refine ⟨r.moved c₂, yields_onCursor.2 ⟨c₂, hnext₂, rfl⟩, ⟨⟨front ++ (g.gap ++ g.text),
        gs, ?_, fun g hg => hgs g (List.mem_cons_of_mem _ hg), ?_, ?_⟩, ⟨hfailure₁, hfailure₂⟩,
        h.level⟩, ?_, ?_, ?_⟩
      · rw [hsource]
        simp
      · rw [hoffset]
        exact hplace₁
      · rw [hoffset, ← Nat.add_assoc, ← Nat.add_assoc]
        exact hplace₂
      · show c₂.lastEnd = s.shift + c₁.lastEnd
        omega
      · show 0 < c₁.lastEnd
        omega
      · show c₁.lastEnd ≤ _
        rw [hsource, hlast₁]
        simp
        omega

theorem next_replays (h : s.Facing u r) (hend : u.cursor.current.kind ≠ .endOfInput) :
    Replays s.Moved Eq next next u r := by
  intro _ u' hstep
  obtain ⟨r', hnext, hr⟩ := yields_next_moved h hend hstep
  exact .yields hnext ⟨rfl, hr⟩

theorem peekNth_replays {β : Type} {S : Reading → Reading → Prop} {Q : β → β → Prop}
    {f g : Token → Reader β} {n : Nat} {t t' : Token} (ht : u.cursor.lookAhead n = .ok t)
    (ht' : r.cursor.lookAhead n = .ok t') (hf : Replays S Q (f t) (g t') u r) :
    Replays S Q (peekNth n >>= f) (peekNth n >>= g) u r := by
  intro b u' h
  obtain ⟨x, u₁, hstep, h⟩ := yields_bind.1 h
  obtain ⟨hx, rfl⟩ := peekNth_yields hstep
  cases ht.symm.trans hx
  have hlook : Yields (peekNth n) r t' r := by
    show onCursor (Cursor.peekNth n) r = _
    rw [onCursor, Cursor.peekNth, ht']
  exact .after hlook (hf b u' h)

/-- Looking one token ahead. -/
theorem peek_replays {β : Type} {S : Reading → Reading → Prop} {Q : β → β → Prop}
    {f g : Token → Reader β} (h : s.Facing u r) (hend : u.cursor.current.kind ≠ .endOfInput)
    (hf : ∀ t t', s.Seen t t' → Replays S Q (f t) (g t') u r) :
    Replays S Q (peek >>= f) (peek >>= g) u r := by
  obtain ⟨k, hk⟩ := h.lookAhead
  have hpos : 1 ≤ k := by
    obtain ⟨t, -, ht, -, -, hlast⟩ := hk 0 (Nat.zero_le k)
    cases ht
    rcases Nat.eq_zero_or_pos k with rfl | hpos
    · exact absurd (hlast.2 rfl) hend
    · exact hpos
  obtain ⟨t, t', ht, ht', hseen, -⟩ := hk 1 hpos
  exact peekNth_replays ht ht' (hf t t' hseen)

theorem accept_replays (h : s.Facing u r) {kind : Kind} (hkind : kind ≠ .endOfInput) :
    Replays s.Moved (Token.Moved s.shift) (onCursor (Cursor.accept kind))
      (onCursor (Cursor.accept kind)) u r := by
  intro t u' haccept
  obtain ⟨rfl, hcurrent, hnext⟩ := accept_yields haccept
  rcases h.current with ⟨hend, hmoved⟩ | ⟨hend, -⟩
  · obtain ⟨r', hnext', hr⟩ := yields_next_moved h hend hnext
    exact .yields (yields_accept (hmoved.kind.trans hcurrent) hnext') ⟨hmoved, hr⟩
  · exact absurd (hcurrent.symm.trans hend) hkind

/-- A relation of readings that may have consumed a token, but need not. -/
structure Between (s : Stage) (S : Reading → Reading → Prop) : Prop where
  facing : ∀ {u r}, S u r → s.Facing u r
  moved : ∀ {u r}, s.Moved u r → S u r

theorem between_facing (s : Stage) : s.Between s.Facing := ⟨id, Moved.facing⟩

theorem between_moved (s : Stage) : s.Between s.Moved := ⟨Moved.facing, id⟩

/-- A token is skipped in both readings or in none, if what follows the text is not one of
those to be skipped or the first reading is not at its end. -/
theorem skipOneOf_replays {S : Reading → Reading → Prop} (hS : s.Between S) (h : S u r)
    {kinds : List Kind} (hend : kinds.contains .endOfInput = false)
    (hrest : u.cursor.current.kind = .endOfInput → kinds.contains (ahead s.rest) = false) :
    Replays S Eq (onCursor (Cursor.skipOneOf kinds)) (onCursor (Cursor.skipOneOf kinds)) u r := by
  intro b u' hskip
  rcases skipOneOf_yields hskip with ⟨rfl, hkind, hnext⟩ | ⟨rfl, hkind, rfl⟩
  · have hlive : u.cursor.current.kind ≠ .endOfInput := by
      intro heq
      rw [heq, ← List.contains_iff_mem, hend] at hkind
      cases hkind
    rcases (hS.facing h).current with ⟨-, hsame⟩ | ⟨heq, -⟩
    · obtain ⟨r', hnext', hr⟩ := yields_next_moved (hS.facing h) hlive hnext
      refine .yields (yields_skipOneOf ?_ hnext') ⟨rfl, hS.moved hr⟩
      rw [hsame.kind]
      exact List.contains_iff_mem.2 hkind
    · exact absurd heq hlive
  · refine .yields (yields_skipNone ?_) ⟨rfl, h⟩
    rcases (hS.facing h).current with ⟨-, hsame⟩ | ⟨hlast, hkind'⟩
    · rw [hsame.kind]
      simpa using hkind
    · rw [hkind']
      exact hrest hlast

/-- Both readings are in front of the mark or none is, if the mark does not follow the text. -/
theorem atSymbol_replays {β : Type} {S : Reading → Reading → Prop} {Q : β → β → Prop}
    {f g : Bool → Reader β} (h : s.Facing u r) {mark : Symbol} (hrest : ahead s.rest ≠ .symbol mark)
    (hyes : u.cursor.current.kind = .symbol mark → Replays S Q (f true) (g true) u r)
    (hno : Replays S Q (f false) (g false) u r) :
    Replays S Q (atSymbol mark >>= f) (atSymbol mark >>= g) u r := by
  show Replays S Q (current >>= fun t => f (t.isSymbol mark))
    (current >>= fun t => g (t.isSymbol mark)) u r
  refine .current ?_
  rw [h.current.isSymbol hrest]
  cases hmark : u.cursor.current.isSymbol mark with
  | true => exact hyes (Token.isSymbol_iff.1 hmark)
  | false => exact hno

/-! ### The scope and the source text -/

/-- Changes of the scope are none of the cursor. -/
theorem nextParameter_replays {S : Reading → Reading → Prop}
    (hS : ∀ d d', S { u with draft := d } { r with draft := d' }) :
    Replays S (fun _ _ => True) nextParameter nextParameter u r := by
  intro n u' hstep
  obtain ⟨-, rfl⟩ := yields_nextParameter hstep
  exact attains_nextParameter ⟨trivial, hS _ _⟩

theorem modifyDraft_replays (h : s.Moved u r) (f f' : Draft → Draft) :
    Replays s.Moved Eq (modifyDraft f) (modifyDraft f') u r := by
  intro _ u' hstep
  obtain rfl := yields_modifyDraft.1 hstep
  exact .yields (a := ()) (yields_modifyDraft.2 rfl) ⟨rfl, h.congr rfl rfl ⟨rfl, rfl⟩⟩

theorem recordPassage_replays (h : s.Moved u r) (kind : Passage.Kind) (span span' : Span) :
    Replays s.Moved Eq (recordPassage kind span) (recordPassage kind span') u r := by
  intro _ u' hstep
  obtain rfl := yields_recordPassage.1 hstep
  exact .yields (a := ()) (yields_recordPassage.2 rfl) ⟨rfl, h.congr rfl rfl ⟨rfl, rfl⟩⟩

theorem nameOf_replays {S : Reading → Reading → Prop} (hS : S u r) {t t' : Token}
    (h : t.Moved s.shift t') : Replays S Eq (nameOf t) (nameOf t') u r := by
  intro name u' hstep
  obtain ⟨hname, rfl⟩ := yields_nameOf.1 hstep
  refine .yields (yields_nameOf.2 ⟨?_, rfl⟩) ⟨rfl, hS⟩
  rw [Token.name?, h.text]
  exact hname

theorem noteOwner_replays {S : Reading → Reading → Prop} {t t' : Token} (ht : t.Moved s.shift t')
    (hS : ∀ d d', S { u with draft := d } { r with draft := d' }) :
    Replays S Eq (noteOwner t) (noteOwner t') u r := by
  intro _ u' hstep
  obtain ⟨name, hname, rfl⟩ := yields_noteOwner.1 hstep
  refine .yields (a := ()) (yields_noteOwner.2 ⟨name, ?_, rfl⟩) ⟨rfl, hS _ _⟩
  rw [Token.name?, ht.text]
  exact hname

theorem consume_replays (h : s.Facing u r) (hend : u.cursor.current.kind ≠ .endOfInput)
    (hdot : ahead s.rest ≠ .symbol .dot) : Replays s.Moved Eq consume consume u r := by
  rcases h.current with ⟨-, hsame⟩ | ⟨heq, -⟩
  · have hmove : ∀ u₁ r₁, s.Facing u₁ r₁ → u₁.cursor.current = u.cursor.current →
        Replays s.Moved Eq
          (do next; if u.cursor.current.isName && (← atSymbol .dot) then noteOwner u.cursor.current)
          (do next; if r.cursor.current.isName && (← atSymbol .dot) then noteOwner r.cursor.current)
          u₁ r₁ := by
      intro u₁ r₁ h₁ hcursor
      refine (next_replays h₁ (by rw [hcursor]; exact hend)).bind fun _ _ u₂ r₂ _ h₂ => ?_
      have hnote : ∀ dot : Bool, Replays s.Moved Eq
          (if u.cursor.current.isName && dot then noteOwner u.cursor.current else pure ())
          (if r.cursor.current.isName && dot then noteOwner r.cursor.current else pure ()) u₂ r₂ := by
        intro dot
        rw [hsame.isName]
        split
        · exact noteOwner_replays hsame fun _ _ => h₂.congr rfl rfl ⟨rfl, rfl⟩
        · exact .pure rfl h₂
      exact atSymbol_replays h₂.facing hdot (fun _ => hnote true) (hnote false)
    refine .current ?_
    rw [hsame.isSymbol]
    split
    · refine (nextParameter_replays (S := fun u' r' => s.Facing u' r' ∧ u'.cursor = u.cursor)
        fun _ _ => ⟨h.congr rfl rfl ⟨rfl, rfl⟩, rfl⟩).bind ?_
      rintro _ _ u₁ r₁ _ ⟨h₁, hcursor⟩
      exact hmove u₁ r₁ h₁ (by rw [hcursor])
    · exact hmove u r h rfl
  · exact absurd heq hend

/-- Two expressions of the same text, the second one further on. -/
structure Copies (s : Stage) (e e' : Expr) : Prop where
  text : Same Render.expr e e'
  start : e'.span.start = s.shift + e.span.start

theorem verbatimFrom_replays (h : s.Moved u r) (start : Nat) :
    Replays s.Moved s.Copies (verbatimFrom s.alone start)
      (verbatimFrom s.env (s.shift + start)) u r := by
  refine .lastEnd (.pure ⟨?_, rfl⟩ h)
  show sourceText s.alone _ _ = sourceText s.env _ _
  rw [h.lastEnd, s.sourceText_eq h.within]

end Stage

end SqlMarkers
