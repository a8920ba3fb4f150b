/-
SqlMarkers.Proofs.Shifting — reading the same further on in a text.

A reader asks a token for its kind and its text. Where a token stands goes into the tree
and into faults, but nothing is decided by it. So a reader that starts `n` bytes further on
does the same `n` bytes further on: `Reader.Slides n g m m'` says that from a reading and
the reading shifted by `n`, the steps `m` and `m'` end with a result and its image under
`g`, or with a fault and the shifted fault, and again in a reading and the shifted one.

One offset is not only passed on. The text of an aggregate's arguments ends one byte in
front of the closing parenthesis, and at offset zero there is no such byte. The readings
that are compared are therefore solid: no token in them ends at zero (`Cursor.Solid`).
-/
import SqlMarkers.Proofs.Agreement
import SqlMarkers.Proofs.Shift

namespace SqlMarkers

/-! ## Readings further on -/

section Shift

variable (n : Nat)

/-- A lexical fault `n` bytes further on. -/
def LexicalFault.shift (f : LexicalFault) : LexicalFault :=
  { f with start := f.start + n, offset := f.offset + n }

/-- A cursor `n` bytes further on. -/
def Cursor.shift (c : Cursor) : Cursor where
  current := c.current.shift n
  ahead := c.ahead.map (Token.shift n)
  failure := c.failure.map (LexicalFault.shift n)
  lastEnd := c.lastEnd + n

/-- A pair of parentheses `n` bytes further on. -/
def Skipped.shift (s : Skipped) : Skipped := { s with span := s.span.shift n }

/-- A passage `n` bytes further on. -/
def Passage.shift (p : Passage) : Passage := { p with span := p.span.shift n }

/-- A reading `n` bytes further on. -/
def Reading.shift (r : Reading) : Reading where
  cursor := r.cursor.shift n
  draft := r.draft.shift n
  nesting := r.nesting
  passages := r.passages.map (Passage.shift n)

end Shift

/-- A cursor that has moved over something, in a text whose tokens all end behind its
start. -/
structure Cursor.Solid (c : Cursor) : Prop where
  lastEnd : 0 < c.lastEnd
  tokens : ∀ t ∈ c.current :: c.ahead, 0 < t.span.stop

/-- A solid cursor and the same cursor further on. -/
def Cursor.Behind (n : Nat) (c c' : Cursor) : Prop := c.Solid ∧ c' = c.shift n

/-- A solid reading and the same reading further on. -/
def Reading.Behind (n : Nat) (r r' : Reading) : Prop := r.cursor.Solid ∧ r' = r.shift n

/-- Two steps on a cursor that end with results which `R` relates, the second further on. -/
def Cursor.Follows {α : Type} (n : Nat) (R : α → α → Prop) (m m' : Cursor.Action α) : Prop :=
  SqlMarkers.Agree (fun f f' : Fault => f' = f.shift n) (Cursor.Behind n) R m m'

/-- Two steps on a cursor, of which the second does the same further on. -/
def Cursor.Slides {α : Type} (n : Nat) (g : α → α) (m m' : Cursor.Action α) : Prop :=
  Cursor.Follows n (fun a a' => a' = g a) m m'

/-- Two readers that end with results which `R` relates, the second further on. -/
def Reader.Follows {α : Type} (n : Nat) (R : α → α → Prop) (m m' : Reader α) : Prop :=
  SqlMarkers.Agree (fun f f' : Fault => f' = f.shift n) (Reading.Behind n) R m m'

/-- Two readers, of which the second does the same further on. -/
def Reader.Slides {α : Type} (n : Nat) (g : α → α) (m m' : Reader α) : Prop :=
  Reader.Follows n (fun a a' => a' = g a) m m'

/-- Two towers of nested readers, of which the second does the same further on. -/
structure Inner.Slides (n : Nat) (inner inner' : Inner) : Prop where
  query : Reader.Slides n (Query.shift n) inner.query inner'.query
  operand : Reader.Slides n id inner.operand inner'.operand
  predicate : Reader.Slides n (Predicate.shift n) inner.predicate inner'.predicate
  group : Reader.Slides n (List.map (Condition.shift n)) inner.group inner'.group
  sources : Reader.Slides n (List.map (TableSource.shift n)) inner.sources inner'.sources

/-- Two settings that differ in the text only: the text of the second is found `n` bytes
further on. -/
structure Setting.Behind (n : Nat) (env env' : Setting) : Prop where
  dialect : env'.dialect = env.dialect
  catalogue : env'.catalogue = env.catalogue
  limit : env'.limit = env.limit
  text : ∀ start stop,
    Reader.sourceText env' (start + n) (stop + n) = Reader.sourceText env start stop

/-! ## Tokens further on -/

section Token

variable {n : Nat} (t : Token)

@[simp] theorem Token.shift_kind : (t.shift n).kind = t.kind := rfl

@[simp] theorem Token.shift_text : (t.shift n).text = t.text := rfl

@[simp] theorem Token.shift_span : (t.shift n).span = t.span.shift n := rfl

@[simp] theorem Token.shift_isKeyword (k : Keyword) : (t.shift n).isKeyword k = t.isKeyword k := rfl

@[simp] theorem Token.shift_isSymbol (s : Symbol) : (t.shift n).isSymbol s = t.isSymbol s := rfl

@[simp] theorem Token.shift_isEnd : (t.shift n).isEnd = t.isEnd := rfl

@[simp] theorem Token.shift_isName : (t.shift n).isName = t.isName := rfl

@[simp] theorem Token.shift_isAnyKeyword : (t.shift n).isAnyKeyword = t.isAnyKeyword := rfl

@[simp] theorem Token.shift_isWord (word : String) : (t.shift n).isWord word = t.isWord word := rfl

@[simp] theorem Token.shift_isRegexp : (t.shift n).isRegexp = t.isRegexp := rfl

@[simp] theorem Token.shift_isNational : (t.shift n).isNational = t.isNational := rfl

@[simp] theorem Token.shift_name? : (t.shift n).name? = t.name? := rfl

@[simp] theorem Token.shift_integer? : (t.shift n).integer? = t.integer? := rfl

@[simp] theorem Token.shift_real? : (t.shift n).real? = t.real? := rfl

@[simp] theorem Token.shift_chars? (escapes : Bool) : (t.shift n).chars? escapes = t.chars? escapes :=
  rfl

@[simp] theorem Span.shift_start (s : Span) : (s.shift n).start = s.start + n := rfl

@[simp] theorem Span.shift_stop (s : Span) : (s.shift n).stop = s.stop + n := rfl

end Token

/-! ## Sequences of steps -/

namespace Cursor.Slides

variable {n : Nat} {α β : Type} {g : α → α} {k : β → β} {m m' : Cursor.Action α}

theorem pure {a a' : α} (h : a' = g a) : Cursor.Slides n g (Pure.pure a) (Pure.pure a') :=
  Agree.pure h

theorem throw {f f' : Fault} (h : f' = f.shift n) :
    Cursor.Slides n g (MonadExcept.throw f) (MonadExcept.throw f') := Agree.throw h

theorem follows {Q : β → β → Prop} {f f' : α → Cursor.Action β} (h : Cursor.Slides n g m m')
    (hf : ∀ a, Cursor.Follows n Q (f a) (f' (g a))) :
    Cursor.Follows n Q (m >>= f) (m' >>= f') := by
  refine Agree.bind h ?_
  rintro a _ rfl
  exact hf a

theorem bind {f f' : α → Cursor.Action β} (h : Cursor.Slides n g m m')
    (hf : ∀ a, Cursor.Slides n k (f a) (f' (g a))) : Cursor.Slides n k (m >>= f) (m' >>= f') :=
  h.follows hf

/-- Repetitions shift if their rounds do. -/
theorem repeatStep {step step' : β → Cursor.Action (Round β α)}
    (hstep : ∀ b, Cursor.Follows n (Round.Alike (fun b b' => b' = k b) (fun a a' => a' = g a))
      (step b) (step' (k b))) (b : β) :
    Cursor.Slides n g (repeatStep Cursor.remaining .stalled step b)
      (repeatStep Cursor.remaining .stalled step' (k b)) := by
  refine Agree.repeatStep (E := fun f f' : Fault => f' = f.shift n) (S := Cursor.Behind n)
    (B := fun b b' => b' = k b) ?_ rfl ?_ rfl
  · rintro c _ ⟨-, rfl⟩
    exact (List.length_map (Token.shift n)).symm
  · rintro b _ rfl
    exact hstep b

end Cursor.Slides

namespace Reader.Follows

variable {n : Nat} {α β : Type} {R Q : α → α → Prop} {k : β → β} {m m' : Reader α}

theorem imp (h : Reader.Follows n R m m') (hR : ∀ a a', R a a' → Q a a') :
    Reader.Follows n Q m m' := by
  intro r r' hr
  have hm := h r r' hr
  revert hm
  generalize m r = x
  generalize m' r' = x'
  rintro (⟨hresult, hstate⟩ | ⟨hfault, hstate⟩)
  · exact .ok (hR _ _ hresult) hstate
  · exact .error hfault hstate

/-- Repetitions shift if their rounds do. -/
theorem repeating {step step' : β → Reader (Round β α)}
    (hstep : ∀ b, Reader.Follows n (Round.Alike (fun b b' => b' = k b) R) (step b) (step' (k b)))
    (b : β) : Reader.Follows n R (repeating step b) (repeating step' (k b)) := by
  refine Agree.repeatStep (E := fun f f' : Fault => f' = f.shift n) (S := Reading.Behind n)
    (B := fun b b' => b' = k b) ?_ rfl ?_ rfl
  · rintro r _ ⟨-, rfl⟩
    exact (List.length_map (Token.shift n)).symm
  · rintro b _ rfl
    exact hstep b

end Reader.Follows

namespace Reader.Slides

variable {n : Nat} {α β : Type} {g : α → α} {k : β → β} {m m' : Reader α}

theorem pure {a a' : α} (h : a' = g a) : Reader.Slides n g (Pure.pure a) (Pure.pure a') :=
  Agree.pure h

theorem throw {f f' : Fault} (h : f' = f.shift n) :
    Reader.Slides n g (MonadExcept.throw f) (MonadExcept.throw f') := Agree.throw h

theorem follows {Q : β → β → Prop} {f f' : α → Reader β} (h : Reader.Slides n g m m')
    (hf : ∀ a, Reader.Follows n Q (f a) (f' (g a))) : Reader.Follows n Q (m >>= f) (m' >>= f') := by
  refine Agree.bind h ?_
  rintro a _ rfl
  exact hf a

theorem bind {f f' : α → Reader β} (h : Reader.Slides n g m m')
    (hf : ∀ a, Reader.Slides n k (f a) (f' (g a))) : Reader.Slides n k (m >>= f) (m' >>= f') :=
  h.follows hf

/-- What is no place is the same further on. -/
theorem bindSame {f f' : α → Reader β} (h : Reader.Slides n id m m')
    (hf : ∀ a, Reader.Slides n k (f a) (f' a)) : Reader.Slides n k (m >>= f) (m' >>= f') :=
  h.follows hf

end Reader.Slides

/-! ## Steps on a cursor -/

namespace Counter

variable {n : Nat} {σ : Type} {S : σ → σ → Prop}

theorem up_slides (i : Nat) :
    Agree (fun f f' : Fault => f' = f.shift n) S (fun i i' => i' = id i) (up i) (up i) := by
  unfold up
  split
  · exact .pure rfl
  · exact .throw rfl

theorem down_slides (i : Nat) :
    Agree (fun f f' : Fault => f' = f.shift n) S (fun i i' => i' = id i) (down i) (down i) := by
  unfold down
  split
  · exact .pure rfl
  · exact .throw rfl

end Counter

namespace Cursor

variable {n : Nat} {α : Type} {R : α → α → Prop}

theorem get_slides : Cursor.Slides n (Cursor.shift n) get get := fun _ _ hc => .ok hc.2 hc

theorem next_slides : Cursor.Slides n id next next := by
  rintro ⟨t, ts, failure, lastEnd⟩ _ ⟨⟨-, htokens⟩, rfl⟩
  have hstop : 0 < t.span.stop := htokens t (by simp)
  cases ts with
  | cons t' ts =>
      exact .ok rfl ⟨⟨hstop, fun u hu => htokens u (List.mem_cons_of_mem _ hu)⟩, rfl⟩
  | nil => cases failure with
    | some f => exact .error rfl ⟨⟨hstop, htokens⟩, rfl⟩
    | none => exact .ok rfl ⟨⟨hstop, htokens⟩, rfl⟩

theorem lookAhead_shift (c : Cursor) (i : Nat) :
    (c.shift n).lookAhead i =
      match c.lookAhead i with
      | .ok t => .ok (t.shift n)
      | .error f => .error (f.shift n) := by
  have hat : ((c.shift n).current :: (c.shift n).ahead)[i]? =
      (c.current :: c.ahead)[i]?.map (Token.shift n) := by
    rw [← List.getElem?_map]
    rfl
  have hlast : (c.ahead.map (Token.shift n)).getLastD (c.current.shift n) =
      (c.ahead.getLastD c.current).shift n := by
    rw [List.getLastD_eq_getLast?, List.getLast?_map, List.getLastD_eq_getLast?]
    cases c.ahead.getLast? <;> rfl
  have hfailure : (c.shift n).failure = c.failure.map (LexicalFault.shift n) := rfl
  rw [lookAhead, hat, hfailure, lookAhead]
  cases (c.current :: c.ahead)[i]? with
  | some t => rfl
  | none =>
      cases c.failure with
      | some f => rfl
      | none => exact congrArg Except.ok hlast

theorem peekNth_slides (i : Nat) : Cursor.Slides n (Token.shift n) (peekNth i) (peekNth i) := by
  rintro c _ ⟨hsolid, rfl⟩
  unfold peekNth
  rw [lookAhead_shift]
  cases c.lookAhead i with
  | ok t => exact .ok rfl ⟨hsolid, rfl⟩
  | error f => exact .error rfl ⟨hsolid, rfl⟩

theorem failExpected_follows (what : String) :
    Cursor.Follows n R (failExpected what) (failExpected what) := by
  rintro c _ ⟨hsolid, rfl⟩
  exact .error rfl ⟨hsolid, rfl⟩

theorem skipOneOf_slides (kinds : List Kind) :
    Cursor.Slides n id (skipOneOf kinds) (skipOneOf kinds) := by
  refine get_slides.bind fun c => ?_
  change Cursor.Slides n id _ (if c.isOneOf kinds then _ else _)
  split
  · exact next_slides.bind fun _ => .pure rfl
  · exact .pure rfl

theorem skipWhile_slides (kinds : List Kind) :
    Cursor.Slides n id (skipWhile kinds) (skipWhile kinds) := by
  refine Cursor.Slides.repeatStep (k := id) (fun _ => (skipOneOf_slides kinds).follows ?_) ()
  intro found
  cases found with
  | true => exact Agree.pure (.again rfl)
  | false => exact Agree.pure (.stop rfl)

theorem accept_slides (kind : Kind) :
    Cursor.Slides n (Token.shift n) (accept kind) (accept kind) := by
  refine get_slides.bind fun c => ?_
  change Cursor.Slides n (Token.shift n) _ (if c.current.kind = kind then _ else _)
  dsimp only
  split
  · exact next_slides.bind fun _ => .pure rfl
  · exact failExpected_follows _

theorem skipParentheses_slides :
    Cursor.Slides n (Skipped.shift n) skipParentheses skipParentheses := by
  refine (accept_slides _).bind fun opening => ?_
  refine Cursor.Slides.repeatStep (k := id) ?_ (1, 0)
  rintro ⟨depth, placeholders⟩
  have hmove : ∀ again : Nat × Nat, Cursor.Follows n
      (Round.Alike (fun b b' => b' = id b) (fun s s' => s' = Skipped.shift n s))
      (do next; return .again again : Action (Round (Nat × Nat) Skipped))
      (do next; return .again again) :=
    fun again => next_slides.follows fun _ => Agree.pure (.again rfl)
  have hcount : ∀ {count : Action Nat} {again : Nat → Nat × Nat}, Cursor.Slides n id count count →
      Cursor.Follows n
        (Round.Alike (fun b b' => b' = id b) (fun s s' => s' = Skipped.shift n s))
        (do let i ← count; next; return .again (again i) : Action (Round (Nat × Nat) Skipped))
        (do let i ← count; next; return .again (again i)) :=
    fun hcount => hcount.follows fun _ => hmove _
  dsimp only [id]
  split
  · exact get_slides.follows fun c => Agree.pure (.stop rfl)
  · refine get_slides.follows fun c => ?_
    rw [show (c.shift n).current.kind = c.current.kind from rfl]
    split
    · exact Agree.throw rfl
    · exact hcount (Counter.up_slides _)
    · exact hcount (Counter.down_slides _)
    · exact hcount (Counter.up_slides _)
    · exact hmove _

end Cursor

/-! ## Steps of every reader -/

namespace Reader

variable {n : Nat} {α β : Type} {g : α → α} {R : α → α → Prop} {env env' : Setting}

/-- Steps on the cursor leave the rest of the reading alone. -/
theorem onCursor_follows {m m' : Cursor.Action α} (h : Cursor.Follows n R m m') :
    Reader.Follows n R (onCursor m) (onCursor m') := by
  rintro r _ ⟨hsolid, rfl⟩
  have hm := h r.cursor (r.shift n).cursor ⟨hsolid, rfl⟩
  unfold onCursor
  revert hm
  generalize m r.cursor = x
  generalize m' (r.shift n).cursor = x'
  rintro (⟨hresult, hsolid, rfl⟩ | ⟨rfl, hsolid, rfl⟩)
  · exact .ok hresult ⟨hsolid, rfl⟩
  · exact .error rfl ⟨hsolid, rfl⟩

theorem onCursor_slides {m m' : Cursor.Action α} (h : Cursor.Slides n g m m') :
    Reader.Slides n g (onCursor m) (onCursor m') := onCursor_follows h

theorem get_slides : Reader.Slides n (Reading.shift n) get get := fun _ _ hr => .ok hr.2 hr

theorem current_slides : Reader.Slides n (Token.shift n) current current := by
  rintro r _ ⟨hsolid, rfl⟩
  exact .ok rfl ⟨hsolid, rfl⟩

theorem lastEnd_follows :
    Reader.Follows n (fun stop stop' => stop' = stop + n ∧ 0 < stop) lastEnd lastEnd := by
  rintro r _ ⟨hsolid, rfl⟩
  exact .ok ⟨rfl, hsolid.lastEnd⟩ ⟨hsolid, rfl⟩

theorem lastEnd_slides : Reader.Slides n (· + n) lastEnd lastEnd :=
  lastEnd_follows.imp fun _ _ h => h.1

theorem here_slides : Reader.Slides n (· + n) here here := by
  rintro r _ ⟨hsolid, rfl⟩
  exact .ok rfl ⟨hsolid, rfl⟩

theorem next_slides : Reader.Slides n id next next := onCursor_slides Cursor.next_slides

theorem peekNth_slides (i : Nat) : Reader.Slides n (Token.shift n) (peekNth i) (peekNth i) :=
  onCursor_slides (Cursor.peekNth_slides i)

theorem peek_slides : Reader.Slides n (Token.shift n) peek peek := peekNth_slides 1

theorem atKeyword_slides (k : Keyword) : Reader.Slides n id (atKeyword k) (atKeyword k) :=
  current_slides.bind fun _ => .pure rfl

theorem atSymbol_slides (s : Symbol) : Reader.Slides n id (atSymbol s) (atSymbol s) :=
  current_slides.bind fun _ => .pure rfl

/-- A look at a keyword and the token behind it. -/
theorem peekBehind_slides {k : Keyword} {p : Token → Bool} (hp : ∀ t, p (t.shift n) = p t)
    {f f' : Bool → Reader α} (hf : ∀ found, Reader.Slides n g (f found) (f' found)) :
    Reader.Slides n g
      (do
        if ← atKeyword k then do
          let t ← peek
          let found ← pure (p t)
          f found
        else do
          let found ← pure false
          f found)
      (do
        if ← atKeyword k then do
          let t ← peek
          let found ← pure (p t)
          f' found
        else do
          let found ← pure false
          f' found) := by
  refine (atKeyword_slides k).bind fun present => ?_
  cases present with
  | true =>
      refine peek_slides.bind fun t => ?_
      rw [hp]
      exact hf (p t)
  | false => exact hf false

theorem skipKeyword_slides (k : Keyword) : Reader.Slides n id (skipKeyword k) (skipKeyword k) :=
  onCursor_slides (Cursor.skipOneOf_slides _)

theorem skipAnyOf_slides (ks : List Keyword) : Reader.Slides n id (skipAnyOf ks) (skipAnyOf ks) :=
  onCursor_slides (Cursor.skipOneOf_slides _)

theorem skipSymbol_slides (s : Symbol) : Reader.Slides n id (skipSymbol s) (skipSymbol s) :=
  onCursor_slides (Cursor.skipOneOf_slides _)

theorem skipKeywords_slides (ks : List Keyword) :
    Reader.Slides n id (skipKeywords ks) (skipKeywords ks) :=
  onCursor_slides (Cursor.skipWhile_slides _)

theorem acceptKeyword_slides (k : Keyword) :
    Reader.Slides n (Token.shift n) (acceptKeyword k) (acceptKeyword k) :=
  onCursor_slides (Cursor.accept_slides _)

theorem acceptSymbol_slides (s : Symbol) :
    Reader.Slides n (Token.shift n) (acceptSymbol s) (acceptSymbol s) :=
  onCursor_slides (Cursor.accept_slides _)

theorem failExpected_follows (what : String) :
    Reader.Follows n R (failExpected what) (failExpected what) :=
  onCursor_follows (Cursor.failExpected_follows what)

theorem failExpected_slides (what : String) :
    Reader.Slides n g (failExpected what) (failExpected what) := failExpected_follows what

theorem failAt_follows (offset : Nat) (cause : GrammarCause) :
    Reader.Follows n R (failAt offset cause) (failAt (offset + n) cause) := Agree.throw rfl

theorem failAt_slides (offset : Nat) (cause : GrammarCause) :
    Reader.Slides n g (failAt offset cause) (failAt (offset + n) cause) :=
  failAt_follows offset cause

theorem failHere_slides (cause : GrammarCause) :
    Reader.Slides n g (failHere cause) (failHere cause) :=
  get_slides.bind fun _ => .throw rfl

/-- A check that fails if something else had to come. -/
theorem failUnless_slides {c : Bool} {what : String} {k k' : Reader α}
    (hk : Reader.Slides n g k k') :
    Reader.Slides n g (if c then do failExpected (α := PUnit) what; k else k)
      (if c then do failExpected (α := PUnit) what; k' else k') := by
  split
  · exact (failExpected_slides (g := id) what).bind fun _ => hk
  · exact hk

theorem recordPassage_slides (kind : Passage.Kind) (span : Span) :
    Reader.Slides n id (recordPassage kind span) (recordPassage kind (span.shift n)) := by
  rintro r _ ⟨hsolid, rfl⟩
  exact .ok rfl ⟨hsolid, rfl⟩

theorem passParentheses_slides : Reader.Slides n id passParentheses passParentheses :=
  (onCursor_slides Cursor.skipParentheses_slides).bind fun _ => recordPassage_slides _ _

theorem commaSeparated_slides {entry entry' : Reader α} (hentry : Reader.Slides n g entry entry') :
    Reader.Slides n (List.map g) (commaSeparated entry) (commaSeparated entry') := by
  refine Follows.repeating (k := List.map g) (fun done => ?_) []
  refine hentry.follows fun a => (skipSymbol_slides _).follows fun comma => ?_
  have hsnoc : done.map g ++ [g a] = (done ++ [a]).map g := by
    rw [List.map_append, List.map_singleton]
  cases comma with
  | true => exact Agree.pure (.again hsnoc)
  | false => exact Agree.pure (.stop hsnoc)

theorem close_slides (opening : Token) :
    Reader.Slides n id (close opening) (close (opening.shift n)) := by
  refine (skipSymbol_slides _).bind fun closed => ?_
  cases closed with
  | true => exact .pure rfl
  | false =>
      refine current_slides.bind fun t => ?_
      rw [Token.shift_isEnd]
      split
      · exact failAt_slides _ _
      · exact failExpected_slides _

/-! ### The scope -/

theorem modifyDraft_slides {f f' : Draft → Draft} (h : ∀ d, f' (d.shift n) = (f d).shift n) :
    Reader.Slides n id (modifyDraft f) (modifyDraft f') := by
  rintro r _ ⟨hsolid, rfl⟩
  refine .ok rfl ⟨hsolid, ?_⟩
  change { r.shift n with draft := f' (r.draft.shift n) } = _
  rw [h]
  rfl

theorem up_slides (i : Nat) : Reader.Slides n id (Counter.up i) (Counter.up i) :=
  Counter.up_slides i

theorem down_slides (i : Nat) : Reader.Slides n id (Counter.down i) (Counter.down i) :=
  Counter.down_slides i

theorem nextParameter_slides : Reader.Slides n id nextParameter nextParameter := by
  refine get_slides.bind fun r => (up_slides r.draft.parameters).bind fun count => ?_
  have hcount : Reader.Slides n id (modifyDraft fun d => { d with parameters := count })
      (modifyDraft fun d => { d with parameters := count }) := modifyDraft_slides fun _ => rfl
  exact hcount.bind fun _ => .pure rfl

theorem nameOf_slides (t : Token) : Reader.Slides n id (nameOf t) (nameOf (t.shift n)) := by
  unfold nameOf
  rw [Token.shift_name?]
  split
  · exact .pure rfl
  · exact .throw rfl

theorem noteOwner_slides (t : Token) : Reader.Slides n id (noteOwner t) (noteOwner (t.shift n)) := by
  refine (nameOf_slides t).bind fun name => modifyDraft_slides fun d => ?_
  simp only [Draft.shift, List.map_append, List.map_singleton]
  rfl

theorem consume_slides : Reader.Slides n id consume consume := by
  refine current_slides.bind fun t => ?_
  have hmove : Reader.Slides n id
      (do next; if t.isName && (← atSymbol .dot) then noteOwner t)
      (do next; if (t.shift n).isName && (← atSymbol .dot) then noteOwner (t.shift n)) := by
    refine next_slides.bind fun _ => (atSymbol_slides _).bindSame fun dot => ?_
    rw [Token.shift_isName]
    split
    · exact noteOwner_slides t
    · exact .pure rfl
  rw [Token.shift_isSymbol]
  split
  · exact nextParameter_slides.bind fun _ => hmove
  · exact hmove

/-! ### Source text -/

theorem verbatimFrom_slides (h : env.Behind n env') (start : Nat) :
    Reader.Slides n (Expr.shift n) (verbatimFrom env start) (verbatimFrom env' (start + n)) := by
  refine lastEnd_slides.bind fun stop => .pure ?_
  rw [h.text]
  rfl

theorem isRegexp_shift (h : env.Behind n env') (t : Token) :
    isRegexp env' (t.shift n) = isRegexp env t := by
  rw [isRegexp, h.dialect, Token.shift_isRegexp, isRegexp]

/-! ### Nesting -/

theorem refuseNesting_slides (h : env.Behind n env') :
    Reader.Slides n g (refuseNesting env) (refuseNesting env') := by
  rintro r _ ⟨hsolid, rfl⟩
  unfold refuseNesting
  rw [h.limit]
  exact .error rfl ⟨hsolid, rfl⟩

/-- What is nested shifts one level deeper, and both readers come back. -/
theorem nested_slides (h : env.Behind n env') {m m' : Reader α} (hm : Reader.Slides n g m m') :
    Reader.Slides n g (nested env m) (nested env' m') := by
  rintro r _ ⟨hsolid, rfl⟩
  have hbody := hm r.deeper (r.shift n).deeper ⟨hsolid, rfl⟩
  unfold nested
  rw [h.limit]
  change Outcomes _ _ _ _ (if env.limit ≤ r.nesting.depth then _ else _)
  split
  · exact refuseNesting_slides h r (r.shift n) ⟨hsolid, rfl⟩
  · revert hbody
    generalize m r.deeper = x
    generalize m' (r.shift n).deeper = x'
    rintro (⟨rfl, hsolid, rfl⟩ | ⟨rfl, hsolid, rfl⟩)
    · exact .ok rfl ⟨hsolid, rfl⟩
    · exact .error rfl ⟨hsolid, rfl⟩

end Reader

/-- A nested query is read from an empty scope, and hands on its count and its open owners. -/
theorem Inner.Slides.embed {n : Nat} {inner inner' : Inner} (h : inner.Slides n inner') :
    Reader.Slides n (Query.shift n) inner.embed inner'.embed := by
  rintro r _ ⟨hsolid, rfl⟩
  have hq := h.query { r with draft := Draft.startingAt r.draft.parameters }
    { r.shift n with draft := Draft.startingAt (r.shift n).draft.parameters } ⟨hsolid, rfl⟩
  unfold Inner.embed
  revert hq
  generalize inner.query _ = x
  generalize inner'.query _ = x'
  rintro (⟨rfl, hsolid, rfl⟩ | ⟨rfl, hsolid, rfl⟩)
  · rename_i q s
    have howners : (r.shift n).draft.owners ++ (s.shift n).draft.unresolved =
        (r.draft.owners ++ s.draft.unresolved).map (Owner.shift n) := by
      rw [List.map_append, ← Draft.shift_unresolved]
      rfl
    refine .ok rfl ⟨hsolid, ?_⟩
    rw [howners, Query.shift_scope]
    rfl
  · exact .error rfl ⟨hsolid, rfl⟩

end SqlMarkers
