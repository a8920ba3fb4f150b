/-
SqlMarkers.Proofs.Fence — nested readers that may not look behind a text.

A leaf that is read alone may hold queries of its own. In its place such a query is read by
nested readers that stand far in front of the end of the source, so the reading of the text
alone must not depend on its end either. A reader is fenced (`Reader.fenced`) if it fails
where it would move behind the last token of the text.

`Stage.Fenced` relates a fenced reading of the text alone to the reading in its place, and
`Stage.Follows` says that a reader does in the second one what it does in the first one:
it gives results that correspond, or fails so that a group that was only tried is given up in
both. Where the first run comes to the fence, it says nothing of the second one
(`Stage.Outcome.void`), and a group that comes to the fence is not given up
(`Reader.guarded`), so no reading goes on behind such a failure.
-/
import SqlMarkers.Proofs.Replay

namespace SqlMarkers

open Glyph

/-! ## Fenced readers -/

/-- The fault that stands behind a fenced text. -/
def LexicalFault.fence : LexicalFault := ⟨0, 0, .unrecognized, .unrecognized⟩

/-- The reading with a fault in place of the last token. -/
def Reading.fence (r : Reading) : Reading :=
  { r with cursor := { r.cursor with ahead := r.cursor.ahead.dropLast, failure := some .fence } }

/-- The reading with `last` behind its tokens, in place of the fault there. -/
def Reading.unfence (r : Reading) (last : Token) : Reading :=
  { r with cursor := { r.cursor with ahead := r.cursor.ahead ++ [last], failure := none } }

namespace Reader

variable {α : Type}

/-- The step, which fails where it would move to the last token. -/
def fenced (m : Reader α) : Reader α := fun r =>
  match r.cursor.ahead.getLast? with
  | none => .error .stalled r
  | some last =>
      match m r.fence with
      | .ok a r' => .ok a (r'.unfence last)
      | .error f r' => .error f r'

/-- A fenced step that gives a result gives it in front of the fence. -/
theorem fenced_yields {m : Reader α} {r r' : Reading} {a : α} (h : Yields (fenced m) r a r') :
    ∃ last w, r.cursor.ahead.getLast? = some last ∧ Yields m r.fence a w ∧ r' = w.unfence last := by
  unfold Yields fenced at h
  split at h
  · cases h
  · rename_i last hlast
    split at h
    · rename_i b w hm
      cases h
      exact ⟨last, w, hlast, hm, rfl⟩
    · cases h

/-- The step, which is not given up for another one if the text is at fault. -/
def guarded (m : Reader α) : Reader α := fun r =>
  match m r with
  | .ok a r' => .ok a r'
  | .error f r' =>
      .error f { r' with nesting := ⟨r'.nesting.depth, r'.nesting.exhausted || f.isLexical⟩ }

end Reader

/-- The readers that may nest `n` levels deeper, as in `Inner.upTo`. A group that comes to a
fence is not given up. -/
def Inner.guardedUpTo (env : Setting) : Nat → Inner
  | 0 => Inner.exhausted env
  | n + 1 =>
      { query := Reader.nested env fun r => Reader.query env (Inner.guardedUpTo env n) r
        operand := Reader.nested env fun r => Reader.operand (Inner.guardedUpTo env n) r
        predicate := Reader.nested env fun r => Reader.predicate env (Inner.guardedUpTo env n) r
        group := Reader.guarded <|
          Reader.nested env fun r => Reader.group env (Inner.guardedUpTo env n) r
        sources := Reader.nested env fun r => Reader.tableSources env (Inner.guardedUpTo env n) r }

/-- The nested readers of a text that is read alone, where `n` levels may be nested. -/
def Inner.fencedUpTo (env : Setting) (n : Nat) : Inner :=
  let inner := Inner.guardedUpTo env n
  { query := Reader.fenced inner.query
    operand := Reader.fenced inner.operand
    predicate := Reader.fenced inner.predicate
    group := Reader.fenced inner.group
    sources := Reader.fenced inner.sources }

/-- A fault that no other reading is tried behind, since the whole reading ends. -/
def Fault.Void (f : Fault) (r : Reading) : Prop :=
  f.isLexical = true ∨ f.isRecoverable = false ∨ r.nesting.exhausted = true

/-! ## A fenced text and the same text in its place -/

theorem Glyph.getLast?_place (n : Nat) (gs : List Glyph) :
    (place n gs).getLast? = some (.endAt (n + Text.width (spell gs))) := by
  induction gs generalizing n with
  | nil => rfl
  | cons g gs ih =>
      obtain ⟨t, ts, hplace, -⟩ := place_head (n + Text.width g.gap + Text.width g.text) gs
      have hlast := ih (n + Text.width g.gap + Text.width g.text)
      rw [place, hplace, List.getLast?_cons_cons, ← hplace, hlast]
      simp [Nat.add_assoc]

/-- The cursor moves over the first glyph, if the fence stands further behind. -/
theorem Cursor.next_fenced {c : Cursor} {n : Nat} {g g' : Glyph} {gs : List Glyph}
    (h : c.rest = (place n (g :: g' :: gs)).dropLast) :
    ∃ c', Yields Cursor.next c () c' ∧
      c'.rest = (place (n + Text.width g.gap + Text.width g.text) (g' :: gs)).dropLast ∧
      c'.failure = c.failure ∧ c'.lastEnd = n + Text.width g.gap + Text.width g.text := by
  obtain ⟨t, ts, failure, lastEnd⟩ := c
  obtain ⟨t', ts', hplace, -⟩ := place_head
    (n + Text.width g.gap + Text.width g.text + Text.width g'.gap + Text.width g'.text) gs
  simp only [Cursor.rest, place, hplace, List.dropLast_cons_cons, List.cons.injEq] at h
  obtain ⟨rfl, rfl⟩ := h
  exact ⟨_, rfl, by rw [place, hplace]; rfl, rfl, rfl⟩

namespace Stage

variable {s : Stage} {k : Nat} {begun : Prop} {u r u' r' : Reading} {α β : Type}

theorem Levels.deeper (h : s.Levels k u r) : s.Levels (k + 1) u.deeper r.deeper :=
  ⟨congrArg (fun x : Nesting => { x with depth := x.depth + 1 }) h.1,
    congrArg (fun x : Nesting => { x with depth := x.depth + 1 }) h.2⟩

theorem Levels.shallower (h : s.Levels (k + 1) u r) : s.Levels k u.shallower r.shallower :=
  ⟨congrArg (fun x : Nesting => { x with depth := x.depth - 1 }) h.1,
    congrArg (fun x : Nesting => { x with depth := x.depth - 1 }) h.2⟩

/-- The reading `u` of the text alone, which is fenced, and the reading `r` stand in front of
the same glyphs, `k` levels further down than the text. If `begun`, both have consumed a token
of the text. -/
structure Fenced (s : Stage) (k : Nat) (begun : Prop) (u r : Reading) : Prop where
  tokens : ∃ front gs, gs ≠ [] ∧ s.alone.source = front ++ spell gs ∧
    (∀ g ∈ gs, g.kind ≠ .endOfInput ∧ g.text ≠ []) ∧
    u.cursor.rest = (place (Text.width front) gs).dropLast ∧
    r.cursor.rest = place (s.shift + Text.width front) (gs ++ s.rest)
  failure : u.cursor.failure.isSome = true ∧ r.cursor.failure = none
  consumed : begun → r.cursor.lastEnd = s.shift + u.cursor.lastEnd ∧ 0 < u.cursor.lastEnd ∧
    u.cursor.lastEnd ≤ Text.width s.alone.source
  level : s.Levels k u r

namespace Fenced

theorem congr {j : Nat} (h : s.Fenced j begun u r) (hu : u'.cursor = u.cursor)
    (hr : r'.cursor = r.cursor) (hlevel : s.Levels k u' r') : s.Fenced k begun u' r' := by
  obtain ⟨htokens, hfailure, hconsumed, -⟩ := h
  rw [← hu, ← hr] at htokens hfailure hconsumed
  exact ⟨htokens, hfailure, hconsumed, hlevel⟩

/-- Changes of the scope and of the passages are none of the cursor. -/
theorem draft (h : s.Fenced k begun u r) (d d' : Draft) :
    s.Fenced k begun { u with draft := d } { r with draft := d' } := h.congr rfl rfl h.level

/-- The tokens ahead, up to the fence. -/
theorem lookAhead (h : s.Fenced k begun u r) (i : Nat) :
    (∃ f, u.cursor.lookAhead i = .error f ∧ f.isLexical = true) ∨
      ∃ t t', u.cursor.lookAhead i = .ok t ∧ r.cursor.lookAhead i = .ok t' ∧
        t.Moved s.shift t' := by
  obtain ⟨front, gs, -, -, hgs, hu, hr⟩ := h.tokens
  obtain ⟨f, hf⟩ := Option.isSome_iff_exists.1 h.failure.1
  by_cases hi : i < gs.length
  · obtain ⟨t, t', ht, ht', hseen, hend⟩ := s.seen_place (fun g hg => (hgs g hg).1)
      (Text.width front) hi.le
    refine .inr ⟨t, t', ?_, ?_, ?_⟩
    · rw [Cursor.lookAhead, ← Cursor.rest, hu, List.getElem?_dropLast, length_place,
        if_pos (by omega), ht]
    · rw [Cursor.lookAhead, ← Cursor.rest, hr, ht']
    · rcases hseen with ⟨-, hmoved⟩ | ⟨hkind, -⟩
      · exact hmoved
      · exact absurd (hend.1 hkind) hi.ne
  · refine .inl ⟨f.toFault, ?_, rfl⟩
    rw [Cursor.lookAhead, ← Cursor.rest, hu, List.getElem?_dropLast, length_place,
      if_neg (by omega), hf]

theorem current (h : s.Fenced k begun u r) : u.cursor.current.Moved s.shift r.cursor.current := by
  rcases h.lookAhead 0 with ⟨f, hf, -⟩ | ⟨t, t', ht, ht', hmoved⟩
  · cases hf
  · cases ht
    cases ht'
    exact hmoved

/-- The cursors move one glyph further, or the first one is at the fence. -/
theorem next (h : s.Fenced k begun u r) :
    (∃ f c, Cursor.next u.cursor = .error f c ∧ f.isLexical = true) ∨
      ∃ c c', Cursor.next u.cursor = .ok () c ∧ Cursor.next r.cursor = .ok () c' ∧
        s.Fenced k begun { u with cursor := c } { r with cursor := c' } := by
  obtain ⟨front, gs, hne, hsource, hgs, hu, hr⟩ := h.tokens
  obtain ⟨f, hf⟩ := Option.isSome_iff_exists.1 h.failure.1
  obtain ⟨g, gs, rfl⟩ := List.exists_cons_of_ne_nil hne
  obtain ⟨c', hnext', hplace', hfailure', hlast'⟩ := Cursor.next_place hr h.failure.2
  cases gs with
  | nil =>
      have hahead : u.cursor.ahead = [] := (List.cons.inj hu).2
      have hnext : Cursor.next u.cursor = .error f.toFault
          ⟨u.cursor.current, [], some f.repeated, u.cursor.current.span.stop⟩ := by
        rw [Cursor.next, hahead, hf]
      exact .inl ⟨_, _, hnext, rfl⟩
  | cons g' gs =>
      obtain ⟨c, hnext, hplace, hfailure, hlast⟩ := Cursor.next_fenced hu
      have hwidth : Text.width (front ++ (g.gap ++ g.text)) =
          Text.width front + Text.width g.gap + Text.width g.text := by
        simp [Nat.add_assoc]
      have hpos := Text.width_pos (hgs g List.mem_cons_self).2
      refine .inr ⟨c, c', hnext, hnext', ⟨⟨front ++ (g.gap ++ g.text), g' :: gs,
        List.cons_ne_nil _ _, ?_, fun g hg => hgs g (List.mem_cons_of_mem _ hg), ?_, ?_⟩,
        ⟨hfailure ▸ h.failure.1, hfailure'⟩, fun _ => ⟨?_, ?_, ?_⟩, h.level⟩⟩
      · rw [hsource]
        simp
      · rw [hwidth]
        exact hplace
      · rw [hwidth, ← Nat.add_assoc, ← Nat.add_assoc]
        exact hplace'
      · show c'.lastEnd = s.shift + c.lastEnd
        omega
      · show 0 < c.lastEnd
        omega
      · show c.lastEnd ≤ _
        rw [hsource, hlast]
        simp
        omega

end Fenced

/-! ## Runs that follow -/

/-- The outcome of a fenced run, and that of the run it stands for. -/
inductive Outcome (s : Stage) (k : Nat) (begun : Prop) (R : α → α → Prop) :
    EStateM.Result Fault Reading α → EStateM.Result Fault Reading α → Prop
  | ok {a a' : α} {u r : Reading} (result : R a a') (state : s.Fenced k begun u r) :
      Outcome s k begun R (.ok a u) (.ok a' r)
  /-- Both fail, and a group that was only tried is given up in both. -/
  | error {f f' : Fault} {u r : Reading} (fault : f'.isRecoverable = true)
      (level : s.Levels k u r) : Outcome s k begun R (.error f u) (.error f' r)
  | void {f : Fault} {u : Reading} {x : EStateM.Result Fault Reading α} (h : f.Void u) :
      Outcome s k begun R (.error f u) x
  | unmet {f : Fault} {r : Reading} {x : EStateM.Result Fault Reading α} (h : f.Unmet) :
      Outcome s k begun R x (.error f r)

/-- What the first step does in a fenced reading, the second one does in its place. -/
def Follows (s : Stage) (R : α → α → Prop) (m n : Reader α) : Prop :=
  ∀ k begun u r, s.Fenced k begun u r → s.Outcome k begun R (m u) (n r)

namespace Follows

variable {R : α → α → Prop} {Q : β → β → Prop} {m n : Reader α} {f g : α → Reader β}

theorem pure {a a' : α} (h : R a a') : s.Follows R (Pure.pure a) (Pure.pure a') :=
  fun _ _ _ _ hr => .ok h hr

theorem bind (h : s.Follows R m n) (hf : ∀ a a', R a a' → s.Follows Q (f a) (g a')) :
    s.Follows Q (m >>= f) (n >>= g) := by
  intro k begun u r hr
  change s.Outcome k begun Q (EStateM.bind m f u) (EStateM.bind n g r)
  have hm := h k begun u r hr
  unfold EStateM.bind
  revert hm
  generalize m u = x
  generalize n r = x'
  rintro (⟨ha, hs⟩ | ⟨hfault, hlevel⟩ | hvoid | hunmet)
  · exact hf _ _ ha k begun _ _ hs
  · exact .error hfault hlevel
  · exact .void hvoid
  · exact .unmet hunmet

/-- A step with equal results. -/
theorem bindEq (h : s.Follows Eq m n) (hf : ∀ a, s.Follows Q (f a) (g a)) :
    s.Follows Q (m >>= f) (n >>= g) :=
  h.bind fun a _ ha => ha ▸ hf a

/-- A step whose result does not matter. -/
theorem andThen (h : s.Follows R m n) (hf : ∀ a a', s.Follows Q (f a) (g a')) :
    s.Follows Q (m >>= f) (n >>= g) :=
  h.bind fun a a' _ => hf a a'

/-- A fault that ends the first run for good says nothing of the second one. -/
theorem ended {f : Fault} (h : f.isRecoverable = false) (x : Reader α) :
    s.Follows R (MonadExcept.throw f) x := fun _ _ _ _ _ => .void (.inr (.inl h))

theorem unmet {f : Fault} (h : f.Unmet) (x : Reader α) :
    s.Follows R x (MonadExcept.throw f) := fun _ _ _ _ _ => .unmet h

/-- Both steps fail where the grammar does not fit. -/
theorem throw {f f' : Fault} (h : f'.isRecoverable = true) :
    s.Follows R (MonadExcept.throw f) (MonadExcept.throw f') :=
  fun _ _ _ _ hr => .error h hr.level

/-- A repetition follows another one if its rounds do. The bounds on the rounds differ, but a
run that comes to its bound says nothing of the other one. -/
theorem repeating {B : β → β → Prop} {step step' : β → Reader (Round β α)}
    (hstep : ∀ b b', B b b' → s.Follows (Round.Alike B R) (step b) (step' b')) {b b' : β}
    (hb : B b b') : s.Follows R (Reader.repeating step b) (Reader.repeating step' b') := by
  have hget : s.Follows (fun _ _ => True) (get : Reader Reading) get :=
    fun _ _ _ _ hr => .ok trivial hr
  have hrun : ∀ fuel fuel' b b', B b b' → s.Follows R
      (Round.run (fun r : Reading => r.cursor.remaining) .stalled step fuel b)
      (Round.run (fun r : Reading => r.cursor.remaining) .stalled step' fuel' b') := by
    intro fuel
    induction fuel with
    | zero => exact fun _ _ _ _ => .ended rfl _
    | succ fuel ih =>
        intro fuel' b b' hb
        cases fuel' with
        | zero => exact .unmet (.inr rfl) _
        | succ fuel' =>
            refine hget.bind fun before before' _ => (hstep b b' hb).bind ?_
            rintro _ _ (hnext | hresult)
            · refine hget.bind fun behind behind' _ => ?_
              by_cases hless : behind.cursor.remaining < before.cursor.remaining
              · by_cases hless' : behind'.cursor.remaining < before'.cursor.remaining
                · rw [if_pos hless, if_pos hless']
                  exact ih _ _ _ hnext
                · rw [if_neg hless']
                  exact .unmet (.inr rfl) _
              · rw [if_neg hless]
                exact .ended rfl _
            · exact .pure hresult
  exact hget.bind fun _ _ _ => hrun _ _ _ _ hb

end Follows

/-! ## Steps of every reader -/

open Reader

variable {m n : Reader α} {R : α → α → Prop}

theorem get_follows : s.Follows Any (get : Reader Reading) get := fun _ _ _ _ hr => .ok trivial hr

theorem current_follows : s.Follows (Token.Moved s.shift) current current :=
  fun _ _ _ _ hr => .ok hr.current hr

theorem lastEnd_follows : s.Follows Any lastEnd lastEnd := fun _ _ _ _ hr => .ok trivial hr

theorem here_follows : s.Follows Any here here := fun _ _ _ _ hr => .ok trivial hr

theorem next_follows : s.Follows Any next next := by
  intro k begun u r hr
  unfold Reader.next onCursor
  rcases hr.next with ⟨f, c, hnext, hf⟩ | ⟨c, c', hnext, hnext', hs⟩
  · rw [hnext]
    exact .void (.inl hf)
  · rw [hnext, hnext']
    exact .ok trivial hs

theorem peekNth_follows (i : Nat) : s.Follows (Token.Moved s.shift) (peekNth i) (peekNth i) := by
  intro k begun u r hr
  unfold peekNth onCursor Cursor.peekNth
  rcases hr.lookAhead i with ⟨f, ht, hf⟩ | ⟨t, t', ht, ht', hmoved⟩
  · rw [ht]
    exact .void (.inl hf)
  · rw [ht, ht']
    exact .ok hmoved hr

theorem peek_follows : s.Follows (Token.Moved s.shift) peek peek := peekNth_follows 1

theorem atKeyword_follows (w : Keyword) : s.Follows Eq (atKeyword w) (atKeyword w) :=
  current_follows.bind fun _ _ ht => .pure (ht.isKeyword w).symm

theorem atSymbol_follows (mark : Symbol) : s.Follows Eq (atSymbol mark) (atSymbol mark) :=
  current_follows.bind fun _ _ ht => .pure (ht.isSymbol mark).symm

theorem failAt_follows (offset offset' : Nat) (cause cause' : GrammarCause) :
    s.Follows R (failAt offset cause) (failAt offset' cause') := .throw rfl

theorem failHere_follows (cause : GrammarCause) : s.Follows R (failHere cause) (failHere cause) :=
  get_follows.andThen fun _ _ => .throw rfl

theorem failExpected_follows (what : String) :
    s.Follows R (failExpected what) (failExpected what) :=
  fun _ _ _ _ hr => .error rfl hr.level

/-- Nothing is done behind a failure. -/
theorem failExpected_bind_follows {Q : β → β → Prop} (what : String) (f g : α → Reader β) :
    s.Follows Q (failExpected what >>= f) (failExpected what >>= g) :=
  (failExpected_follows (R := fun _ _ => False) what).bind fun _ _ h => h.elim

theorem skipOneOf_follows (kinds : List Kind) :
    s.Follows Eq (onCursor (Cursor.skipOneOf kinds)) (onCursor (Cursor.skipOneOf kinds)) := by
  have hround : s.Follows Eq
      (do if kinds.contains (← current).kind then next; return true else return false)
      (do if kinds.contains (← current).kind then next; return true else return false) := by
    refine current_follows.bind fun t t' ht => ?_
    rw [ht.kind]
    split
    · exact next_follows.andThen fun _ _ => .pure rfl
    · exact .pure rfl
  have heq : onCursor (Cursor.skipOneOf kinds) =
      (do if kinds.contains (← current).kind then next; return true else return false) := by
    funext r
    rw [Cursor.skipOneOf, onCursor_bind]
    show onCursor (if r.cursor.isOneOf kinds then _ else _) r = (if _ then _ else _ : Reader Bool) r
    rw [Cursor.isOneOf]
    split
    · rw [onCursor_bind]
      rfl
    · rfl
  rw [heq]
  exact hround

theorem skipKeyword_follows (w : Keyword) : s.Follows Eq (skipKeyword w) (skipKeyword w) :=
  skipOneOf_follows _

theorem skipAnyOf_follows (ws : List Keyword) : s.Follows Eq (skipAnyOf ws) (skipAnyOf ws) :=
  skipOneOf_follows _

theorem skipSymbol_follows (mark : Symbol) : s.Follows Eq (skipSymbol mark) (skipSymbol mark) :=
  skipOneOf_follows _

theorem skipKeywords_follows (ws : List Keyword) :
    s.Follows Any (skipKeywords ws) (skipKeywords ws) := by
  unfold skipKeywords Cursor.skipWhile
  rw [onCursor_repeatStep]
  refine .repeating (B := Any) (fun _ _ _ => ?_) trivial
  rw [onCursor_bind]
  refine (skipOneOf_follows _).bindEq fun skipped => ?_
  split
  · exact .pure (.again trivial)
  · exact .pure (.stop trivial)

theorem accept_follows (kind : Kind) :
    s.Follows (Token.Moved s.shift) (onCursor (Cursor.accept kind))
      (onCursor (Cursor.accept kind)) := by
  have hround : s.Follows (Token.Moved s.shift)
      (do let t ← current; if t.kind = kind then next; return t else failExpected kind.describe)
      (do let t ← current; if t.kind = kind then next; return t else failExpected kind.describe) := by
    refine current_follows.bind fun t t' ht => ?_
    rw [ht.kind]
    split
    · exact next_follows.andThen fun _ _ => .pure ht
    · exact failExpected_follows _
  have heq : onCursor (Cursor.accept kind) =
      (do let t ← current; if t.kind = kind then next; return t else failExpected kind.describe) := by
    funext r
    rw [onCursor_accept]
    rfl
  rw [heq]
  exact hround

theorem acceptKeyword_follows (w : Keyword) :
    s.Follows (Token.Moved s.shift) (acceptKeyword w) (acceptKeyword w) := accept_follows _

theorem acceptSymbol_follows (mark : Symbol) :
    s.Follows (Token.Moved s.shift) (acceptSymbol mark) (acceptSymbol mark) := accept_follows _

theorem up_follows (i : Nat) : s.Follows Eq (Counter.up i : Reader Nat) (Counter.up i) := by
  unfold Counter.up
  split
  · exact .pure rfl
  · exact .ended rfl _

theorem down_follows (i : Nat) : s.Follows Eq (Counter.down i : Reader Nat) (Counter.down i) := by
  unfold Counter.down
  split
  · exact .pure rfl
  · exact .ended rfl _

/-- Where the count itself does not matter it may be another one. -/
theorem down_follows_any (i i' : Nat) :
    s.Follows Any (Counter.down i : Reader Nat) (Counter.down i') := by
  unfold Counter.down
  split
  · split
    · exact .pure trivial
    · exact .unmet (.inl rfl) _
  · exact .ended rfl _

theorem up_follows_any (i i' : Nat) :
    s.Follows Any (Counter.up i : Reader Nat) (Counter.up i') := by
  unfold Counter.up
  split
  · split
    · exact .pure trivial
    · exact .unmet (.inl rfl) _
  · exact .ended rfl _

theorem modifyDraft_follows (f f' : Draft → Draft) :
    s.Follows Any (modifyDraft f) (modifyDraft f') :=
  fun _ _ _ _ hr => .ok trivial (hr.draft _ _)

theorem recordPassage_follows (kind : Passage.Kind) (span span' : Span) :
    s.Follows Any (recordPassage kind span) (recordPassage kind span') :=
  fun _ _ _ _ hr => .ok trivial (hr.congr rfl rfl hr.level)

theorem nextParameter_follows : s.Follows Any nextParameter nextParameter :=
  get_follows.andThen fun _ _ => (up_follows_any _ _).andThen fun _ _ =>
    (modifyDraft_follows _ _).andThen fun _ _ => .pure trivial

theorem nameOf_follows {t t' : Token} (ht : t.Moved s.shift t') :
    s.Follows Eq (nameOf t) (nameOf t') := by
  unfold nameOf
  rw [show t'.name? = t.name? by rw [Token.name?, ht.text, Token.name?]]
  split
  · exact .pure rfl
  · exact .ended rfl _

theorem noteOwner_follows {t t' : Token} (ht : t.Moved s.shift t') :
    s.Follows Any (noteOwner t) (noteOwner t') :=
  (nameOf_follows ht).andThen fun _ _ => modifyDraft_follows _ _

theorem consume_follows : s.Follows Any consume consume := by
  refine current_follows.bind fun t t' ht => ?_
  have hmove : s.Follows Any
      (do next; if t.isName && (← atSymbol .dot) then noteOwner t)
      (do next; if t'.isName && (← atSymbol .dot) then noteOwner t') := by
    refine next_follows.andThen fun _ _ => (atSymbol_follows _).bindEq fun dot => ?_
    rw [ht.isName]
    split
    · exact noteOwner_follows ht
    · exact .pure trivial
  rw [ht.isSymbol]
  split
  · exact nextParameter_follows.andThen fun _ _ => hmove
  · exact hmove

theorem verbatimFrom_follows (env env' : Setting) (start start' : Nat) :
    s.Follows Any (verbatimFrom env start) (verbatimFrom env' start') :=
  lastEnd_follows.andThen fun _ _ => .pure trivial

theorem close_follows (opening opening' : Token) :
    s.Follows Any (close opening) (close opening') := by
  refine (skipSymbol_follows _).bindEq fun closed => ?_
  split
  · exact .pure trivial
  · refine current_follows.bind fun t t' ht => ?_
    rw [Token.isEnd, Token.isEnd, ht.kind]
    split
    · exact failAt_follows _ _ _ _
    · exact failExpected_follows _

/-- A token is moved over, and the repetition goes on. -/
theorem again_follows {B : β → β → Prop} {b b' : β} (hb : B b b') :
    s.Follows (Round.Alike B R) (do next; return .again b : Reader (Round β α))
      (do next; return .again b') :=
  next_follows.andThen fun _ _ => .pure (.again hb)

theorem commaSeparated_follows {n : Reader α} (h : s.Follows R m n) :
    s.Follows Any (commaSeparated m) (commaSeparated n) := by
  refine .repeating (B := Any) (fun _ _ _ => ?_) trivial
  refine h.andThen fun _ _ => (skipSymbol_follows _).bindEq fun comma => ?_
  split
  · exact .pure (.again trivial)
  · exact .pure (.stop trivial)

/-- A step that looks at the current token of the cursor. -/
theorem onCursor_get_follows {f g : Cursor → Cursor.Action α}
    (h : ∀ c c' : Cursor, c.current.Moved s.shift c'.current →
      s.Follows R (onCursor (f c)) (onCursor (g c'))) :
    s.Follows R (onCursor (get >>= f)) (onCursor (get >>= g)) :=
  fun k begun u r hr => h _ _ hr.current k begun u r hr

theorem skipParentheses_follows :
    s.Follows Any (onCursor Cursor.skipParentheses) (onCursor Cursor.skipParentheses) := by
  rw [Cursor.skipParentheses]
  simp only [onCursor_bind, onCursor_repeatStep]
  refine (accept_follows _).andThen fun opening opening' => ?_
  refine .repeating (B := Eq) ?_ rfl
  rintro ⟨depth, placeholders⟩ _ rfl
  have hnext : ∀ b, s.Follows (Round.Alike Eq Any)
      (onCursor (do Cursor.next; return .again b : Cursor.Action (Round (Nat × Nat) Skipped)))
      (onCursor (do Cursor.next; return .again b)) := fun b => by
    rw [onCursor_bind]
    exact again_follows rfl
  dsimp only
  split
  · exact onCursor_get_follows fun _ _ _ => .pure (.stop trivial)
  · refine onCursor_get_follows fun c c' ht => ?_
    rw [ht.kind]
    split
    · exact fun _ _ _ _ hr => .error rfl hr.level
    · rw [onCursor_bind, onCursor_up]
      exact (up_follows _).bindEq fun _ => hnext _
    · rw [onCursor_bind, onCursor_down]
      exact (down_follows _).bindEq fun _ => hnext _
    · rw [onCursor_bind, onCursor_up]
      exact (up_follows _).bindEq fun _ => hnext _
    · exact hnext _

theorem passParentheses_follows : s.Follows Any passParentheses passParentheses :=
  skipParentheses_follows.andThen fun _ _ => recordPassage_follows _ _ _

/-! ### Nesting -/

/-- One level down both readings go on, unless the first one is refused. -/
theorem nested_follows (hroom : s.depth + s.alone.limit ≤ s.env.limit) (h : s.Follows R m n) :
    s.Follows R (nested s.alone m) (nested s.env n) := by
  intro k begun u r hr
  have hu : u.nesting.depth = k := by rw [hr.level.1]
  have hr' : r.nesting.depth = s.depth + k := by rw [hr.level.2]
  unfold nested
  rw [hu, hr']
  split
  · exact .void (.inr (.inr rfl))
  · rw [if_neg (by omega)]
    have hbody := h (k + 1) begun u.deeper r.deeper (hr.congr rfl rfl hr.level.deeper)
    revert hbody
    generalize m u.deeper = x
    generalize n r.deeper = x'
    rintro (⟨ha, hs⟩ | ⟨hfault, hlevel⟩ | hvoid | hunmet)
    · exact .ok ha (hs.congr rfl rfl hs.level.shallower)
    · exact .error hfault hlevel.shallower
    · exact .void hvoid
    · exact .unmet hunmet

/-- A guarded step that comes to the fence is refused for good. -/
theorem lasting_guarded {f : Fault} (h : guarded m u = .error f u') (hf : f.isLexical = true) :
    u'.nesting.exhausted = true := by
  unfold guarded at h
  split at h
  · cases h
  · cases h
    rw [hf, Bool.or_true]

/-- A step that is guarded does nothing else. -/
theorem guarded_follows (h : s.Follows R m n) : s.Follows R (guarded m) n := by
  intro k begun u r hr
  have hm := h k begun u r hr
  unfold guarded
  revert hm
  generalize m u = x
  generalize n r = x'
  rintro (⟨ha, hs⟩ | @⟨f, f', u', r', hfault, hlevel⟩ | @⟨f, u', _, hvoid⟩ | hunmet)
  · exact .ok ha hs
  · cases hf : f.isLexical with
    | true => exact .void (.inl hf)
    | false =>
        refine .error hfault ⟨?_, hlevel.2⟩
        rw [← hlevel.1]
        simp [hf]
  · refine .void ?_
    rcases hvoid with hf | hf | hf
    · exact .inl hf
    · exact .inr (.inl hf)
    · exact .inr (.inr (by rw [hf]; rfl))
  · exact .unmet hunmet

/-! ## From the text alone to its place -/

/-- A fenced reading of the text alone starts and ends like one that is not. -/
theorem Live.fence (h : s.Live u r) :
    u.cursor.ahead.getLast? = some (.endAt (Text.width s.alone.source)) ∧
      s.Fenced 0 True u.fence r := by
  obtain ⟨hmoved, hend⟩ := h
  obtain ⟨front, gs, hsource, hgs, hu, hr⟩ := hmoved.facing.tokens
  cases gs with
  | nil =>
      rw [(List.cons.inj hu).1] at hend
      exact absurd rfl hend
  | cons g gs =>
      have hahead : u.cursor.ahead =
          place (Text.width front + Text.width g.gap + Text.width g.text) gs := (List.cons.inj hu).2
      have hne : u.cursor.ahead ≠ [] := by
        obtain ⟨t, ts, hplace, -⟩ := place_head
          (Text.width front + Text.width g.gap + Text.width g.text) gs
        rw [hahead, hplace]
        exact List.cons_ne_nil _ _
      refine ⟨?_, ⟨front, g :: gs, List.cons_ne_nil _ _, hsource, hgs, ?_, hr⟩,
        ⟨rfl, hmoved.facing.failure.2⟩, fun _ => ⟨hmoved.lastEnd, hmoved.positive, hmoved.within⟩,
        hmoved.facing.level⟩
      · rw [hahead, getLast?_place, hsource]
        simp [Nat.add_assoc]
      · rw [← hu]
        exact (List.dropLast_cons_of_ne_nil hne).symm

theorem Fenced.unfence (h : s.Fenced 0 True u r) :
    s.Live (u.unfence (.endAt (Text.width s.alone.source))) r := by
  obtain ⟨front, gs, hne, hsource, hgs, hu, hr⟩ := h.tokens
  have hrest : (u.unfence (.endAt (Text.width s.alone.source))).cursor.rest =
      place (Text.width front) gs := by
    have hlast := getLast?_place (Text.width front) gs
    rw [← Text.width_append, ← hsource] at hlast
    show u.cursor.rest ++ [_] = _
    rw [hu]
    exact List.dropLast_append_getLast? _ hlast
  obtain ⟨hlast, hpositive, hwithin⟩ := h.consumed trivial
  refine ⟨⟨⟨⟨front, gs, hsource, hgs, hrest, hr⟩, ⟨rfl, h.failure.2⟩, h.level⟩, hlast,
    hpositive, hwithin⟩, ?_⟩
  obtain ⟨g, gs, rfl⟩ := List.exists_cons_of_ne_nil hne
  rw [(List.cons.inj hrest).1]
  exact (hgs g List.mem_cons_self).1

/-- A step that follows replays what the other one, fenced, does with the text alone. It ends in
front of a token of the text. -/
theorem Follows.replays (h : s.Follows R m n) (hmoved : s.Moved u r) :
    Replays s.Live R (fenced m) n u r := by
  intro a u' hrun
  obtain ⟨last, w, hlast, hfirst, rfl⟩ := fenced_yields hrun
  have hend : u.cursor.current.kind ≠ .endOfInput := by
    intro hend
    rw [hmoved.facing.ahead_eq_nil hend] at hlast
    cases hlast
  obtain ⟨hlast', hfenced⟩ := Live.fence ⟨hmoved, hend⟩
  obtain rfl := Option.some.inj (hlast.symm.trans hlast')
  have hm := h 0 True u.fence r hfenced
  rw [show m u.fence = .ok a w from hfirst] at hm
  cases hsecond : n r with
  | ok b r' =>
      rw [hsecond] at hm
      cases hm with
      | ok hresult hs => exact .yields hsecond ⟨hresult, hs.unfence⟩
  | error f r' =>
      rw [hsecond] at hm
      cases hm with
      | unmet hunmet => exact .unmet hsecond hunmet

end Stage

end SqlMarkers
