/-
SqlMarkers.Proofs.Readback — readers in front of glyphs.

`Reading.At env depth r gs` says that a reading stands in front of the glyphs `gs`, which
go on to the end of the source, on a given level of nesting, and that none was refused so
far. `Reader.Attains m r Q` says that the step `m` ends with a result from the reading `r`,
and that `Q` holds then. The rules below run a reader over glyphs that are known: one rule
for each of the steps that readers are built from, one for sequences and one for repetitions.

Faults that no statement leads to (`Fault.Unmet`) are left out of account here: whether a count
is in range, and whether a loop goes on without progress, is settled for whole statements
in `SqlMarkers.Proofs.Landing`.
-/
import SqlMarkers.Proofs.Glyphs
import SqlMarkers.Proofs.Landing
import SqlMarkers.Proofs.Trail.Step

namespace SqlMarkers

open Glyph

/-! ## Steps that end with a result -/

/-- A fault that no statement leads to: a count out of range, a loop without progress. -/
def Fault.Unmet (f : Fault) : Prop := f = .overflow ∨ f = .stalled

/-- The step ends with a result, and `Q` holds of it and of the reading it leaves, or with a
fault that no statement leads to. -/
def Reader.Attains {α : Type} (m : Reader α) (r : Reading) (Q : α → Reading → Prop) : Prop :=
  Ensures (fun f _ => Fault.Unmet f) m r Q

namespace Reader.Attains

variable {α β : Type} {m : Reader α} {f : α → Reader β} {r : Reading} {P : α → Reading → Prop}
  {Q : β → Reading → Prop}

theorem yields {a : α} {s : Reading} (hm : Yields m r a s) (h : P a s) : Attains m r P := by
  unfold Attains Ensures
  rw [show m r = .ok a s from hm]
  exact h

theorem pure {a : α} (h : P a r) : Attains (Pure.pure a) r P := h

theorem unmet {e : Fault} {s : Reading} (hm : m r = .error e s) (h : e.Unmet) : Attains m r P := by
  unfold Attains Ensures
  rw [hm]
  exact h

/-- The outcomes of a step that gives a result. -/
theorem outcome (h : Attains m r P) :
    (∃ a r', Yields m r a r' ∧ P a r') ∨ ∃ e r', m r = .error e r' ∧ e.Unmet := by
  unfold Attains Ensures at h
  cases hm : m r with
  | ok a r' =>
      rw [hm] at h
      exact .inl ⟨a, r', hm, h⟩
  | error e r' =>
      rw [hm] at h
      exact .inr ⟨e, r', rfl, h⟩

theorem mono {P' : α → Reading → Prop} (h : Attains m r P) (hP : ∀ a r', P a r' → P' a r') :
    Attains m r P' :=
  Ensures.imp h hP

/-- What holds of every result of the step holds of the one it ends with. -/
theorem withYields (h : Attains m r P) : Attains m r fun a r' => P a r' ∧ Yields m r a r' := by
  rcases h.outcome with ⟨a, r', hm, hP⟩ | ⟨e, r', hm, he⟩
  · exact yields hm ⟨hP, hm⟩
  · exact unmet hm he

/-- A sequence: the second step goes on where the first one ended. -/
theorem bind (h : Attains m r P) (hf : ∀ a r', P a r' → Attains (f a) r' Q) :
    Attains (m >>= f) r Q :=
  Ensures.bind h hf

/-- A sequence whose first step is known. -/
theorem after {a : α} {s : Reading} (hm : Yields m r a s) (h : Attains (f a) s Q) :
    Attains (m >>= f) r Q := by
  refine (yields (P := fun a' s' => a' = a ∧ s' = s) hm ⟨rfl, rfl⟩).bind ?_
  rintro _ _ ⟨rfl, rfl⟩
  exact h

/-- A sequence ends with its second step, unless the first one ends it. -/
theorem unbind {m : Reader α} (h : Attains (m >>= f) r Q) :
    (∃ a s, Yields m r a s ∧ Attains (f a) s Q) ∨ ∃ e s, m r = .error e s ∧ e.Unmet := by
  cases hm : m r with
  | ok a s =>
      refine .inl ⟨a, s, hm, ?_⟩
      have hrun : (m >>= f) r = f a s := by
        show EStateM.bind m f r = _
        rw [EStateM.bind, hm]
      unfold Attains Ensures at h ⊢
      rw [hrun] at h
      exact h
  | error e s =>
      refine .inr ⟨e, s, rfl, ?_⟩
      have hrun : (m >>= f) r = .error e s := by
        show EStateM.bind m f r = _
        rw [EStateM.bind, hm]
      unfold Attains Ensures at h
      rw [hrun] at h
      exact h

theorem unmet_bind {m : Reader α} {e : Fault} {s : Reading} (hm : m r = .error e s) (h : e.Unmet) :
    Attains (m >>= f) r Q :=
  (unmet (P := fun _ _ => False) hm h).bind fun _ _ h => h.elim

theorem get {f : Reading → Reader β} (h : Attains (f r) r Q) : Attains (MonadState.get >>= f) r Q := h

theorem current {f : Token → Reader β} (h : Attains (f r.cursor.current) r Q) :
    Attains (Reader.current >>= f) r Q := h

theorem here {f : Nat → Reader β} (h : Attains (f r.cursor.current.span.start) r Q) :
    Attains (Reader.here >>= f) r Q := h

theorem lastEnd {f : Nat → Reader β} (h : Attains (f r.cursor.lastEnd) r Q) :
    Attains (Reader.lastEnd >>= f) r Q := h

theorem atKeyword {k : Keyword} {f : Bool → Reader β}
    (h : Attains (f (r.cursor.current.isKeyword k)) r Q) : Attains (Reader.atKeyword k >>= f) r Q := h

theorem atSymbol {mark : Symbol} {f : Bool → Reader β}
    (h : Attains (f (r.cursor.current.isSymbol mark)) r Q) : Attains (Reader.atSymbol mark >>= f) r Q :=
  h

end Reader.Attains

/-- A repetition whose first round is its last. -/
theorem yields_repeatStep_stop {ε σ α β : Type} {size : σ → Nat} {stuck : ε}
    {step : β → EStateM ε σ (Round β α)} {b : β} {a : α} {s s' : σ}
    (h : Yields (step b) s (.stop a) s') : Yields (repeatStep size stuck step b) s a s' :=
  yields_bind.2 ⟨s, s, rfl, yields_bind.2 ⟨s, s, rfl, yields_bind.2 ⟨.stop a, s', h, rfl⟩⟩⟩

theorem Reader.onCursor_bind {α β : Type} (m : Cursor.Action α) (f : α → Cursor.Action β) :
    onCursor (m >>= f) = onCursor m >>= fun a => onCursor (f a) := by
  funext r
  simp only [onCursor, bind, EStateM.bind]
  cases m r.cursor <;> rfl

theorem Reader.onCursor_up (n : Nat) : onCursor (Counter.up n) = Counter.up n := by
  unfold Counter.up
  split <;> rfl

theorem Reader.onCursor_down (n : Nat) : onCursor (Counter.down n) = Counter.down n := by
  unfold Counter.down
  split <;> rfl

/-- A repetition on the cursor is a repetition of the reader. -/
theorem Reader.onCursor_repeatStep {α β : Type} (step : β → Cursor.Action (Round β α)) (b : β) :
    onCursor (repeatStep Cursor.remaining .stalled step b) =
      repeating (fun b => onCursor (step b)) b := by
  have hrun : ∀ fuel b, onCursor (Round.run Cursor.remaining .stalled step fuel b) =
      Round.run (fun r : Reading => r.cursor.remaining) .stalled (fun b => onCursor (step b))
        fuel b := by
    intro fuel
    induction fuel with
    | zero => exact fun _ => rfl
    | succ fuel ih =>
        intro b
        funext r
        show onCursor (step b >>= _) r = (onCursor (step b) >>= _ : Reader α) r
        rw [onCursor_bind]
        refine congrFun (congrArg (onCursor (step b) >>= ·) (funext fun round => ?_)) r
        cases round with
        | stop a => rfl
        | again b' =>
            funext r₁
            show onCursor (if r₁.cursor.remaining < r.cursor.remaining then _ else _) r₁ =
              (if r₁.cursor.remaining < r.cursor.remaining then _ else _ : Reader α) r₁
            split
            · exact congrFun (ih b') r₁
            · rfl
  funext r
  exact congrFun (hrun (r.cursor.remaining + 1) b) r

/-- A token that has to come is looked at and moved over. -/
theorem Reader.onCursor_accept (kind : Kind) (r : Reading) :
    onCursor (Cursor.accept kind) r = (if r.cursor.current.kind = kind then
      next >>= fun _ => pure r.cursor.current else failExpected kind.describe) r := by
  rw [Cursor.accept, onCursor_bind]
  show onCursor (if r.cursor.current.kind = kind then _ else _) r = _
  split
  · rw [onCursor_bind]
    rfl
  · rfl

section Steps

variable {r r' : Reading}

theorem Reader.yields_skipOneOf {kinds : List Kind}
    (hkind : kinds.contains r.cursor.current.kind = true) (h : Yields next r () r') :
    Yields (onCursor (Cursor.skipOneOf kinds)) r true r' := by
  rw [Cursor.skipOneOf, onCursor_bind]
  show onCursor (if r.cursor.isOneOf kinds then _ else _) r = _
  rw [Cursor.isOneOf, if_pos hkind, onCursor_bind]
  exact yields_bind.2 ⟨(), r', h, rfl⟩

theorem Reader.yields_skipNone {kinds : List Kind}
    (hkind : kinds.contains r.cursor.current.kind = false) :
    Yields (onCursor (Cursor.skipOneOf kinds)) r false r := by
  rw [Cursor.skipOneOf, onCursor_bind]
  show onCursor (if r.cursor.isOneOf kinds then _ else _) r = _
  rw [Cursor.isOneOf, hkind]
  rfl

theorem Reader.yields_accept {kind : Kind} (hkind : r.cursor.current.kind = kind)
    (h : Yields next r () r') :
    Yields (onCursor (Cursor.accept kind)) r r.cursor.current r' := by
  rw [Cursor.accept, onCursor_bind]
  show onCursor (if r.cursor.current.kind = kind then _ else _) r = _
  rw [if_pos hkind, onCursor_bind]
  exact yields_bind.2 ⟨(), r', h, rfl⟩

/-- Counting a `?`: the count is in range, or reading ends for good. -/
theorem Reader.attains_nextParameter {Q : Nat → Reading → Prop}
    (h : Q r.draft.parameters r.counted) : Attains nextParameter r Q := by
  by_cases hlimit : r.draft.parameters < Counter.limit
  · have hup : Yields (Counter.up r.draft.parameters) r (r.draft.parameters + 1) r :=
      Counter.yields_up.2 ⟨hlimit, rfl, rfl⟩
    exact .get (.after hup h)
  · have hup : (Counter.up r.draft.parameters : Reader Nat) r = .error .overflow r := by
      rw [Counter.up, if_neg hlimit]
      rfl
    exact .get (.unmet_bind hup (.inl rfl))

end Steps

/-! ## Standing in front of glyphs -/

/-- The reading stands in front of the glyphs, which end the source, on the level `depth`. -/
structure Reading.At (env : Setting) (depth : Nat) (r : Reading) (gs : List Glyph) : Prop where
  tokens : ∃ front, env.source = front ++ spell gs ∧
    r.cursor.rest = place (Text.width front) gs
  failure : r.cursor.failure = none
  level : r.nesting = ⟨depth, false⟩

theorem Glyph.length_place (n : Nat) (gs : List Glyph) : (place n gs).length = gs.length + 1 := by
  induction gs generalizing n with
  | nil => rfl
  | cons g gs ih => rw [place, List.length_cons, ih, List.length_cons]

theorem Glyph.place_head (n : Nat) (gs : List Glyph) :
    ∃ t ts, place n gs = t :: ts ∧ t.kind = ahead gs := by
  cases gs with
  | nil => exact ⟨_, _, rfl, rfl⟩
  | cons g gs => exact ⟨_, _, rfl, rfl⟩

/-- The cursor moves over the first glyph. -/
theorem Cursor.next_place {c : Cursor} {n : Nat} {g : Glyph} {gs : List Glyph}
    (h : c.rest = place n (g :: gs)) (hfailure : c.failure = none) :
    ∃ c', Yields Cursor.next c () c' ∧
      c'.rest = place (n + Text.width g.gap + Text.width g.text) gs ∧ c'.failure = none ∧
      c'.lastEnd = n + Text.width g.gap + Text.width g.text := by
  obtain ⟨t, ts, failure, lastEnd⟩ := c
  simp only [Cursor.rest, place, List.cons.injEq] at h
  obtain ⟨rfl, h⟩ := h
  obtain ⟨t', ts', hplace, -⟩ := place_head (n + Text.width g.gap + Text.width g.text) gs
  rw [hplace] at h
  subst h
  exact ⟨_, rfl, hplace.symm, hfailure, rfl⟩

namespace Reading.At

variable {env : Setting} {depth : Nat} {r r' : Reading} {g : Glyph} {gs hs : List Glyph}

theorem congr (h : At env depth r gs) (hcursor : r'.cursor = r.cursor)
    (hnesting : r'.nesting = r.nesting) : At env depth r' gs := by
  refine ⟨?_, ?_, hnesting.trans h.level⟩
  · rw [hcursor]
    exact h.tokens
  · rw [hcursor]
    exact h.failure

theorem kind (h : At env depth r gs) : r.cursor.current.kind = ahead gs := by
  obtain ⟨front, -, hrest⟩ := h.tokens
  obtain ⟨t, ts, hplace, hkind⟩ := place_head (Text.width front) gs
  rw [hplace, Cursor.rest] at hrest
  rw [(List.cons.inj hrest).1, hkind]

theorem isKeyword (h : At env depth r gs) (k : Keyword) :
    r.cursor.current.isKeyword k = (ahead gs == .keyword k) := by
  rw [Token.isKeyword, h.kind]

theorem isSymbol (h : At env depth r gs) (mark : Symbol) :
    r.cursor.current.isSymbol mark = (ahead gs == .symbol mark) := by
  rw [Token.isSymbol, h.kind]

theorem remaining (h : At env depth r gs) : r.cursor.remaining = gs.length := by
  obtain ⟨front, -, hrest⟩ := h.tokens
  have hlength := congrArg List.length hrest
  rw [length_place, Cursor.rest, List.length_cons] at hlength
  exact Nat.succ.inj hlength

/-- A gap in front of the glyphs does not matter. -/
theorem unspaced (h : At env depth r (spaced gs ++ hs)) : At env depth r (gs ++ hs) := by
  cases gs with
  | nil => exact h
  | cons g gs =>
      obtain ⟨front, hsource, hrest⟩ := h.tokens
      refine ⟨⟨front ++ [' '], ?_, ?_⟩, h.failure, h.level⟩
      · rw [hsource]
        simp
      · have hwidth : Text.width (front ++ [' ']) = Text.width front + 1 := by
          rw [Text.width_append]
          rfl
        rw [hrest, hwidth]
        simp only [spaced_cons, List.cons_append, place, Text.width_cons]
        simp only [show Char.utf8Size ' ' = 1 from rfl, ← Nat.add_assoc]
        rfl

theorem yields_next (h : At env depth r (g :: gs)) :
    ∃ r', Yields Reader.next r () r' ∧ At env depth r' gs := by
  obtain ⟨front, hsource, hrest⟩ := h.tokens
  obtain ⟨c, hnext, hplace, hfailure, -⟩ := Cursor.next_place hrest h.failure
  refine ⟨r.moved c, Reader.yields_onCursor.2 ⟨c, hnext, rfl⟩,
    ⟨front ++ (g.gap ++ g.text), ?_, ?_⟩, hfailure, h.level⟩
  · rw [hsource]
    simp
  · rw [Text.width_append, Text.width_append, ← Nat.add_assoc]
    exact hplace

/-- Consuming the first glyph. -/
theorem next (h : At env depth r (g :: gs)) :
    Reader.Attains Reader.next r fun _ r' => At env depth r' gs := by
  obtain ⟨r', hnext, hat⟩ := h.yields_next
  exact .yields hnext hat

/-- Looking at the token behind the first one. -/
theorem peek (h : At env depth r (g :: gs)) :
    Reader.Attains Reader.peek r fun t r' => t.kind = ahead gs ∧ r' = r := by
  obtain ⟨front, -, hrest⟩ := h.tokens
  obtain ⟨t', ts', hplace, hkind⟩ := place_head (Text.width front + Text.width g.gap +
    Text.width g.text) gs
  refine .yields (a := t') (s := r) ?_ ⟨hkind, rfl⟩
  have hlook : r.cursor.lookAhead 1 = .ok t' := by
    rw [Cursor.lookAhead, ← Cursor.rest, hrest, place, hplace]
    rfl
  show Reader.onCursor (Cursor.peekNth 1) r = _
  rw [Reader.onCursor, Cursor.peekNth, hlook]

/-! ### Skipping and requiring tokens -/

theorem skipOneOf {kinds : List Kind} (h : At env depth r (g :: gs)) (hk : kinds.contains g.kind) :
    Reader.Attains (Reader.onCursor (Cursor.skipOneOf kinds)) r fun b r' =>
      b = true ∧ At env depth r' gs := by
  obtain ⟨r', hnext, hat⟩ := h.yields_next
  exact .yields (Reader.yields_skipOneOf (by rw [h.kind]; exact hk) hnext) ⟨rfl, hat⟩

theorem skipNone {kinds : List Kind} (h : At env depth r gs)
    (hk : kinds.contains (ahead gs) = false) :
    Yields (Reader.onCursor (Cursor.skipOneOf kinds)) r false r :=
  Reader.yields_skipNone (by rw [h.kind]; exact hk)

theorem accept {kind : Kind} (h : At env depth r (g :: gs)) (hk : g.kind = kind) :
    Reader.Attains (Reader.onCursor (Cursor.accept kind)) r fun _ r' => At env depth r' gs := by
  obtain ⟨r', hnext, hat⟩ := h.yields_next
  exact .yields (Reader.yields_accept (h.kind.trans hk) hnext) hat

theorem skipWhile {kinds : List Kind} (h : At env depth r gs)
    (hk : kinds.contains (ahead gs) = false) :
    Yields (Reader.onCursor (Cursor.skipWhile kinds)) r () r := by
  have hone : r.cursor.isOneOf kinds = false := by
    rw [Cursor.isOneOf, h.kind]
    exact hk
  have hskip : Yields (Cursor.skipOneOf kinds) r.cursor false r.cursor := by
    show (if r.cursor.isOneOf kinds then _ else _ : Cursor.Action Bool) r.cursor = _
    rw [hone]
    rfl
  have hround : Yields (Cursor.skipWhile kinds) r.cursor () r.cursor :=
    yields_repeatStep_stop (yields_bind.2 ⟨false, r.cursor, hskip, rfl⟩)
  show Reader.onCursor (Cursor.skipWhile kinds) r = _
  rw [Reader.onCursor, show Cursor.skipWhile kinds r.cursor = .ok () r.cursor from hround]

/-- Closing a parenthesis. -/
theorem close (h : At env depth r (mark .rightParen :: gs)) (opening : Token) :
    Reader.Attains (Reader.close opening) r fun _ r' => At env depth r' gs := by
  refine (h.skipOneOf rfl).bind ?_
  rintro _ r' ⟨rfl, hat⟩
  exact .pure hat

end Reading.At

/-! ## Repetitions -/

section Repetitions

variable {α β : Type} {env : Setting} {depth : Nat} {r : Reading} {gs hs : List Glyph}
  {Q : α → Reading → Prop}

/-- A repetition gives what every round leads to. -/
theorem Reader.attains_repeating {step : β → Reader (Round β α)} (I : β → Reading → Prop)
    (hstep : ∀ b r, I b r → Attains (step b) r fun round r' => round.Meets I Q r')
    {b : β} (hb : I b r) : Attains (repeating step b) r Q := by
  have hrun : ∀ fuel b r, I b r →
      Attains (Round.run (fun r => r.cursor.remaining) .stalled step fuel b) r Q := by
    intro fuel
    induction fuel with
    | zero => exact fun _ _ _ => .inr rfl
    | succ fuel ih =>
        intro b r hb
        refine .get ((hstep b r hb).bind fun round r' hround => ?_)
        cases round with
        | stop a => exact .pure hround
        | again b' =>
            refine .get ?_
            split
            · exact ih b' r' hround
            · exact .inr rfl
  exact .get (hrun _ b r hb)

/-- Entries with commas between them are read one by one. The last of them stands in front
of what follows the list, the others in front of a comma. -/
theorem Reader.attains_commaSeparated {γ : Type} {entry : Reader α} {glyphs : α → List Glyph}
    {render : α → γ} {xs : List α} (hne : xs ≠ [])
    (hentry : ∀ x ∈ xs, ∀ r hs', r.At env depth (glyphs x ++ hs') →
      (ahead hs' = .symbol .comma ∨ (hs' = hs ∧ xs.getLast? = some x)) →
      Attains entry r fun a r' => render a = render x ∧ r'.At env depth hs')
    (hbehind : ahead hs ≠ .symbol .comma) (h : r.At env depth (commas (xs.map glyphs) ++ hs)) :
    Attains (commaSeparated entry) r fun as r' =>
      as.map render = xs.map render ∧ r'.At env depth hs := by
  refine attains_repeating (fun done r => ∃ front back, xs = front ++ back ∧ back ≠ [] ∧
    done.map render = front.map render ∧ r.At env depth (commas (back.map glyphs) ++ hs)) ?_
    ⟨[], xs, rfl, hne, rfl, h⟩
  rintro done r ⟨front, back, rfl, hback, hdone, hat⟩
  obtain ⟨x, back, rfl⟩ := List.exists_cons_of_ne_nil hback
  have hsnoc : ∀ a, render a = render x →
      (done ++ [a]).map render = (front ++ [x]).map render := by
    intro a ha
    rw [List.map_append, List.map_append, hdone, List.map_singleton, List.map_singleton, ha]
  cases back with
  | nil =>
      have hx := hentry x (by simp) r hs hat (.inr ⟨rfl, by simp⟩)
      refine hx.bind ?_
      rintro a r₁ ⟨ha, hat⟩
      have hskip : Yields (skipSymbol .comma) r₁ false r₁ := hat.skipNone (by simpa using hbehind)
      exact .after hskip (.pure ⟨hsnoc a ha, hat⟩)
  | cons y back =>
      have hlist : commas ((x :: y :: back).map glyphs) ++ hs =
          glyphs x ++ (mark .comma :: (spaced (commas ((y :: back).map glyphs)) ++ hs)) := by
        simp [commas]
      rw [hlist] at hat
      have hx := hentry x (by simp) r _ hat (.inl rfl)
      refine hx.bind ?_
      rintro a r₁ ⟨ha, hat⟩
      refine (hat.skipOneOf rfl).bind ?_
      rintro _ r₂ ⟨rfl, hat⟩
      exact .pure ⟨front ++ [x], y :: back, by simp, by simp, hsnoc a ha, hat.unspaced⟩

end Repetitions

end SqlMarkers
