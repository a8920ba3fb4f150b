/-
SqlMarkers.Proofs.Trail.Step — the trails of the steps that every reader is
built from.

The first part says for each of these steps what it did if it gave a result. A step that only
looks is removed from the front of a reader by its `bind_...` lemma, so that proofs go on with
what the look has shown.

The second part extends a trail by such a step, and gives the rules for
repetitions and for lists with commas. The premises are the edges of the trail so far: a `.`
may only be consumed behind a name that was not loose (`Running.dot`), and a name is consumed
as an owner only if it is noted (`Reached.owner`).
-/
import SqlMarkers.Proofs.Trail

namespace SqlMarkers

/-! ## What a step did -/

namespace Reader

variable {r r' : Reading}

/-- A step on the cursor leaves all else as it was. -/
theorem yields_onCursor {α : Type} {action : Cursor.Action α} {a : α} :
    Yields (onCursor action) r a r' ↔ ∃ c, Yields action r.cursor a c ∧ r.moved c = r' := by
  unfold Yields onCursor
  split
  · rename_i b c hc
    simp only [hc, EStateM.Result.ok.injEq, Reading.moved]
    refine ⟨fun ⟨hb, hr⟩ => ⟨c, ⟨hb, rfl⟩, hr⟩, ?_⟩
    rintro ⟨_, ⟨rfl, rfl⟩, hr⟩
    exact ⟨rfl, hr⟩
  · rename_i f c hc
    simp [hc]

/-- Moving on leaves the scope alone. -/
theorem next_draft {u : Unit} (h : Yields next r u r') : r'.draft = r.draft := by
  obtain ⟨c, -, rfl⟩ := yields_onCursor.1 h
  rfl

theorem yields_current {t : Token} :
    Yields current r t r' ↔ r.cursor.current = t ∧ r = r' := by
  show EStateM.Result.ok r.cursor.current r = .ok t r' ↔ _
  simp

theorem yields_lastEnd {n : Nat} : Yields lastEnd r n r' ↔ r.cursor.lastEnd = n ∧ r = r' := by
  show EStateM.Result.ok r.cursor.lastEnd r = .ok n r' ↔ _
  simp

theorem yields_here {n : Nat} :
    Yields here r n r' ↔ r.cursor.current.span.start = n ∧ r = r' := by
  show EStateM.Result.ok r.cursor.current.span.start r = .ok n r' ↔ _
  simp

theorem yields_atKeyword {k : Keyword} {b : Bool} :
    Yields (atKeyword k) r b r' ↔ r.cursor.current.isKeyword k = b ∧ r = r' := by
  show EStateM.Result.ok (r.cursor.current.isKeyword k) r = .ok b r' ↔ _
  simp

theorem yields_atSymbol {s : Symbol} {b : Bool} :
    Yields (atSymbol s) r b r' ↔ r.cursor.current.isSymbol s = b ∧ r = r' := by
  show EStateM.Result.ok (r.cursor.current.isSymbol s) r = .ok b r' ↔ _
  simp

/-- A step that always gives the same result can be left out. -/
theorem yields_of_total {α β : Type} {m : Reader α} {f : α → Reader β} {a : α} {b : β}
    {r₁ : Reading} (hm : Yields m r a r₁) (h : Yields (m >>= f) r b r') :
    Yields (f a) r₁ b r' := by
  obtain ⟨a', r₂, hm', h⟩ := yields_bind.1 h
  unfold Yields at hm hm'
  rw [hm] at hm'
  cases hm'
  exact h

theorem bind_pure {α β : Type} {a : α} {f : α → Reader β} {b : β}
    (h : Yields (pure a >>= f) r b r') : Yields (f a) r b r' :=
  yields_of_total (yields_pure.2 ⟨rfl, rfl⟩) h

/-- The current token is the one in the cursor. -/
theorem bind_current {β : Type} {f : Token → Reader β} {b : β}
    (h : Yields (current >>= f) r b r') : Yields (f r.cursor.current) r b r' :=
  yields_of_total (yields_current.2 ⟨rfl, rfl⟩) h

theorem bind_lastEnd {β : Type} {f : Nat → Reader β} {b : β}
    (h : Yields (lastEnd >>= f) r b r') : Yields (f r.cursor.lastEnd) r b r' :=
  yields_of_total (yields_lastEnd.2 ⟨rfl, rfl⟩) h

theorem bind_here {β : Type} {f : Nat → Reader β} {b : β}
    (h : Yields (here >>= f) r b r') : Yields (f r.cursor.current.span.start) r b r' :=
  yields_of_total (yields_here.2 ⟨rfl, rfl⟩) h

theorem bind_atKeyword {β : Type} {k : Keyword} {f : Bool → Reader β} {b : β}
    (h : Yields (atKeyword k >>= f) r b r') : Yields (f (r.cursor.current.isKeyword k)) r b r' :=
  yields_of_total (yields_atKeyword.2 ⟨rfl, rfl⟩) h

theorem bind_atSymbol {β : Type} {s : Symbol} {f : Bool → Reader β} {b : β}
    (h : Yields (atSymbol s >>= f) r b r') : Yields (f (r.cursor.current.isSymbol s)) r b r' :=
  yields_of_total (yields_atSymbol.2 ⟨rfl, rfl⟩) h

/-- A step that always fails gives no result. -/
theorem yields_failExpected {α : Type} {what : String} {a : α} :
    Yields (failExpected what) r a r' ↔ False := by
  rw [failExpected, yields_onCursor]
  simp [Cursor.failExpected, Yields]

theorem bind_failExpected {α β : Type} {what : String} {f : α → Reader β} {b : β}
    (h : Yields (failExpected what >>= f) r b r') : False :=
  let ⟨_, _, hfail, _⟩ := yields_bind.1 h
  yields_failExpected.1 hfail

theorem yields_failHere {α : Type} {cause : GrammarCause} {a : α} :
    Yields (failHere cause) r a r' ↔ False := by
  simp [failHere, yields_bind, yields_throw]

theorem yields_failAt {α : Type} {offset : Nat} {cause : GrammarCause} {a : α} :
    Yields (failAt offset cause) r a r' ↔ False :=
  yields_throw

theorem yields_refuseNesting {α : Type} {env : Setting} {a : α} :
    Yields (refuseNesting env) r a r' ↔ False := by
  simp [refuseNesting, Yields]

/-- What is nested is read one level deeper, and then the reader is back. -/
theorem nested_yields {α : Type} {env : Setting} {body : Reader α} {a : α}
    (h : Yields (nested env body) r a r') :
    ∃ r₁, Yields body r.deeper a r₁ ∧ r' = r₁.shallower := by
  unfold Yields nested at h
  split at h
  · cases h
  · split at h
    · rename_i r₁ hbody
      cases h
      exact ⟨r₁, hbody, rfl⟩
    · cases h

theorem yields_modifyDraft {f : Draft → Draft} {u : Unit} :
    Yields (modifyDraft f) r u r' ↔ { r with draft := f r.draft } = r' :=
  yields_modify

theorem yields_recordPassage {kind : Passage.Kind} {span : Span} {u : Unit} :
    Yields (recordPassage kind span) r u r' ↔ r.passing kind span = r' :=
  yields_modify

/-- The index of a placeholder is the number of those counted before it. -/
theorem yields_nextParameter {n : Nat} (h : Yields nextParameter r n r') :
    r.draft.parameters = n ∧ r.counted = r' := by
  obtain ⟨_, _, hget, h⟩ := yields_bind.1 h
  obtain ⟨rfl, rfl⟩ := yields_get.1 hget
  obtain ⟨_, _, hmodify, h⟩ := yields_bind.1 (Counter.bind_up h)
  obtain rfl := yields_modifyDraft.1 hmodify
  obtain ⟨rfl, rfl⟩ := yields_pure.1 h
  exact ⟨rfl, rfl⟩

/-- A token gives a name if it can be decoded as one. -/
theorem yields_nameOf {t : Token} {name : String} :
    Yields (nameOf t) r name r' ↔ t.name? = some name ∧ r = r' := by
  unfold nameOf
  cases t.name? with
  | none => simp [yields_throw]
  | some n => simp [yields_pure]

/-- An owner is noted with its place, its text and its name, behind those before. -/
theorem yields_noteOwner {t : Token} {u : Unit} :
    Yields (noteOwner t) r u r' ↔ ∃ name, t.name? = some name ∧
      { r with draft := { r.draft with
          owners := r.draft.owners ++ [⟨t.span.start, t.text, name⟩] } } = r' := by
  simp only [noteOwner, yields_bind, yields_nameOf, yields_modifyDraft]
  constructor
  · rintro ⟨name, _, ⟨hname, rfl⟩, rfl⟩
    exact ⟨name, hname, rfl⟩
  · rintro ⟨name, hname, rfl⟩
    exact ⟨name, r, ⟨hname, rfl⟩, rfl⟩

theorem peekNth_yields {n : Nat} {t : Token} (h : Yields (peekNth n) r t r') :
    r.cursor.lookAhead n = .ok t ∧ r = r' := by
  obtain ⟨c, hc, rfl⟩ := yields_onCursor.1 h
  obtain ⟨ht, rfl⟩ := Cursor.peekNth_yields hc
  exact ⟨ht, rfl⟩

theorem peek_yields {t : Token} (h : Yields peek r t r') :
    r.cursor.lookAhead 1 = .ok t ∧ r = r' := peekNth_yields h

/-- A look at a keyword and the token behind it leaves the reader where it is. -/
theorem peekBehind_yields {β : Type} {k : Keyword} {p : Token → Bool} {f : Bool → Reader β} {b : β}
    (h : Yields (if r.cursor.current.isKeyword k then do
        let t ← peek
        let found ← pure (p t)
        f found
      else do
        let found ← pure false
        f found) r b r') :
    ∃ found, (found = true → r.cursor.current.kind = .keyword k ∧
      ∃ t, r.cursor.lookAhead 1 = .ok t ∧ p t = true) ∧ Yields (f found) r b r' := by
  rcases yields_ite.1 h with ⟨hk, h⟩ | ⟨-, h⟩
  · obtain ⟨t, _, hpeek, h⟩ := yields_bind.1 h
    obtain ⟨ht, rfl⟩ := peek_yields hpeek
    exact ⟨p t, fun hp => ⟨Token.isKeyword_iff.1 hk, t, ht, hp⟩, bind_pure h⟩
  · exact ⟨false, by simp, bind_pure h⟩

/-- What is accepted is the current token, and it is of the kind that was asked for. -/
theorem accept_yields {kind : Kind} {t : Token}
    (h : Yields (onCursor (Cursor.accept kind)) r t r') :
    t = r.cursor.current ∧ r.cursor.current.kind = kind ∧ Yields next r () r' := by
  obtain ⟨c, hc, rfl⟩ := yields_onCursor.1 h
  obtain ⟨rfl, hkind, hnext⟩ := Cursor.accept_yields hc
  exact ⟨rfl, hkind, yields_onCursor.2 ⟨c, hnext, rfl⟩⟩

theorem acceptKeyword_yields {k : Keyword} {t : Token} (h : Yields (acceptKeyword k) r t r') :
    t = r.cursor.current ∧ r.cursor.current.kind = .keyword k ∧ Yields next r () r' :=
  accept_yields h

theorem acceptSymbol_yields {s : Symbol} {t : Token} (h : Yields (acceptSymbol s) r t r') :
    t = r.cursor.current ∧ r.cursor.current.kind = .symbol s ∧ Yields next r () r' :=
  accept_yields h

/-- Either the current token was of one of the kinds and is consumed, or nothing happened. -/
theorem skipOneOf_yields {kinds : List Kind} {b : Bool}
    (h : Yields (onCursor (Cursor.skipOneOf kinds)) r b r') :
    (b = true ∧ r.cursor.current.kind ∈ kinds ∧ Yields next r () r') ∨
      (b = false ∧ r.cursor.current.kind ∉ kinds ∧ r = r') := by
  obtain ⟨c, hc, rfl⟩ := yields_onCursor.1 h
  rcases Cursor.skipOneOf_yields hc with ⟨rfl, hkind, hnext⟩ | ⟨rfl, hkind, rfl⟩
  · exact .inl ⟨rfl, hkind, yields_onCursor.2 ⟨c, hnext, rfl⟩⟩
  · exact .inr ⟨rfl, hkind, rfl⟩

/-- A step that consumes a plain token, or does nothing. -/
theorem skipPlain_yields {kinds : List Kind} (hkinds : ∀ k ∈ kinds, k.isPlain = true) {b : Bool}
    (h : Yields (onCursor (Cursor.skipOneOf kinds)) r b r') :
    (b = true ∧ r.cursor.current.kind.isPlain = true ∧ Yields next r () r') ∨
      (b = false ∧ r = r') := by
  rcases skipOneOf_yields h with ⟨hb, hkind, hnext⟩ | ⟨hb, -, hr⟩
  · exact .inl ⟨hb, hkinds _ hkind, hnext⟩
  · exact .inr ⟨hb, hr⟩

theorem skipKeyword_yields {k : Keyword} {b : Bool} (h : Yields (skipKeyword k) r b r') :
    (b = true ∧ r.cursor.current.kind.isPlain = true ∧ Yields next r () r') ∨
      (b = false ∧ r = r') :=
  skipPlain_yields (by simp [Kind.isPlain]) h

theorem skipAnyOf_yields {ks : List Keyword} {b : Bool} (h : Yields (skipAnyOf ks) r b r') :
    (b = true ∧ r.cursor.current.kind.isPlain = true ∧ Yields next r () r') ∨
      (b = false ∧ r = r') :=
  skipPlain_yields (by simp [Kind.isPlain]) h

theorem close_yields {opening : Token} {u : Unit} (h : Yields (close opening) r u r') :
    r.cursor.current.kind = .symbol .rightParen ∧ Yields next r () r' := by
  obtain ⟨b, r₁, hskip, h⟩ := yields_bind.1 h
  rcases skipOneOf_yields hskip with ⟨rfl, hkind, hnext⟩ | ⟨rfl, -, rfl⟩
  · obtain ⟨-, rfl⟩ := yields_pure.1 h
    exact ⟨List.mem_singleton.1 hkind, hnext⟩
  · simp [yields_bind, yields_ite, yields_failAt, yields_failExpected] at h

end Reader

/-! ## Extending a trail -/

variable {env : Setting} {s r r' : Reading} {h : List Part}

theorem Rested.reached (hr : Rested env s h r) : Reached env s h r :=
  let ⟨log, e, _, t⟩ := hr
  ⟨log, e, t⟩

theorem Running.reached (hr : Running env s h r) : Reached env s h r :=
  let ⟨log, e, _, t⟩ := hr
  ⟨log, e, t⟩

theorem Settled.running (hr : Settled env s h r) : Running env s h r :=
  let ⟨log, t⟩ := hr
  ⟨log, .settled, by simp, t⟩

theorem Settled.rested (hr : Settled env s h r) : Rested env s h r :=
  let ⟨log, t⟩ := hr
  ⟨log, .settled, by simp, t⟩

theorem Settled.reached (hr : Settled env s h r) : Reached env s h r := hr.running.reached

theorem Ended.reached (hr : Ended env s h r) : Reached env s h r := hr.1.reached

/-- Every reading is reached from itself, with nothing in hand. -/
theorem Reached.refl (env : Setting) (s : Reading) : Reached env s [] s := ⟨[], .settled, .start s⟩

/-- A plain token that is no name. -/
theorem Reached.nextMark (hr : Reached env s h r) (hplain : r.cursor.current.kind.isPlain = true)
    (hname : r.cursor.current.isName = false) (hn : Yields Reader.next r () r') :
    Settled env s h r' := by
  obtain ⟨log, e, t⟩ := hr
  obtain ⟨c, hc, rfl⟩ := Reader.yields_onCursor.1 hn
  exact ⟨_, t.pass hplain hc (by rw [hname, Bool.false_and])⟩

/-- A plain token of a given kind that is no name. -/
theorem Reached.nextMarkOf (hr : Reached env s h r) {k : Kind} (hk : r.cursor.current.kind = k)
    (hn : Yields Reader.next r () r') (hplain : k.isPlain = true) (hname : k.isName = false) :
    Settled env s h r' := by
  subst hk
  exact hr.nextMark hplain hname hn

/-- Any plain token. -/
theorem Reached.next (hr : Reached env s h r) (hplain : r.cursor.current.kind.isPlain = true)
    (hn : Yields Reader.next r () r') : Rested env s h r' := by
  obtain ⟨log, e, t⟩ := hr
  obtain ⟨c, hc, rfl⟩ := Reader.yields_onCursor.1 hn
  cases hloose : r.cursor.current.isName && c.current.isSymbol .dot with
  | false => exact ⟨_, _, by simp, t.pass hplain hc hloose⟩
  | true =>
      obtain ⟨hname, hdot⟩ := Bool.and_eq_true_iff.1 hloose
      exact ⟨_, _, by simp, t.slip hname hc hdot⟩

/-- A plain token of a given kind. -/
theorem Reached.nextOf (hr : Reached env s h r) {k : Kind} (hk : r.cursor.current.kind = k)
    (hn : Yields Reader.next r () r') (hplain : k.isPlain = true) : Rested env s h r' :=
  hr.next (hk ▸ hplain) hn

/-- Two plain tokens, the second of which was looked at before. -/
theorem Reached.nextTwo (hr : Reached env s h r) (hplain : r.cursor.current.kind.isPlain = true)
    {t : Token} (ht : r.cursor.lookAhead 1 = .ok t) (hplain' : t.kind.isPlain = true)
    {r₁ : Reading} (hn : Yields Reader.next r () r₁) (hn' : Yields Reader.next r₁ () r') :
    Rested env s h r' := by
  refine (hr.next hplain hn).reached.next ?_ hn'
  obtain ⟨c, hc, rfl⟩ := Reader.yields_onCursor.1 hn
  rwa [Reading.moved, Cursor.current_of_next hc ht]

/-- Behind the name of an operand a `.` may be consumed: the name was noted, or stands behind
another `.` itself. -/
theorem Running.dot (hr : Running env s h r) (hdot : r.cursor.current.isSymbol .dot = true)
    (hn : Yields Reader.next r () r') : Settled env s h r' := by
  obtain ⟨log, e, he, t⟩ := hr
  obtain ⟨c, hc, rfl⟩ := Reader.yields_onCursor.1 hn
  exact ⟨_, t.dot he hdot hc⟩

/-- A `?` that is counted is put in hand with its index. -/
theorem Reached.count (hr : Reached env s h r)
    (hmark : r.cursor.current.isSymbol .question = true) (hn : Yields Reader.next r () r') :
    Settled env s (h ++ [.placeholder r.draft.parameters r.cursor.current.span]) r'.counted := by
  obtain ⟨log, e, t⟩ := hr
  obtain ⟨c, hc, rfl⟩ := Reader.yields_onCursor.1 hn
  exact ⟨_, t.count hmark hc⟩

/-- A counted `?` that becomes part of a kept text is no part by itself. -/
theorem Settled.dropPlaceholder {i : Nat} {span : Span}
    (hr : Settled env s (h ++ [.placeholder i span]) r) : Settled env s h r :=
  let ⟨log, t⟩ := hr
  ⟨log, t.drop (.placeholder i span) (by simp [Expr.isVerbatim])⟩

/-- The parts of an expression can be taken out of hand again, to be kept as text. -/
theorem Ended.drop (x : Expr) (hr : Ended env s (h ++ x.parts) r) : Ended env s h r :=
  let ⟨⟨log, t⟩, hdot⟩ := hr
  ⟨⟨log, t.drop x fun _ => hdot⟩, hdot⟩

/-- Where no `.` follows, nothing is loose. -/
theorem Reached.settle (hr : Reached env s h r)
    (hdot : r.cursor.current.isSymbol .dot = false) : Ended env s h r :=
  let ⟨log, _, t⟩ := hr
  ⟨⟨log, t.settle hdot⟩, hdot⟩

/-- Text that is kept is put in hand as one part. -/
theorem Running.keep (hr : Running env s h r) (start : Nat) :
    Settled env s (h ++ [.verbatim ⟨start, r.cursor.lastEnd⟩]) r :=
  let ⟨log, _, he, t⟩ := hr
  ⟨log, t.keep start he⟩

/-- The order of the parts in hand does not matter. -/
theorem Rested.perm {h' : List Part} (hr : Rested env s h r) (hp : h.Perm h') :
    Rested env s h' r :=
  let ⟨log, e, he, t⟩ := hr
  ⟨log, e, he, t.perm hp⟩

/-- Trails do not tell on which level of nesting the reader is. -/
theorem Reached.level (hr : Reached env s h r) (level : Nesting) :
    Reached env s h (r.onLevel level) :=
  let ⟨log, e, t⟩ := hr
  ⟨log, e, t.level level⟩

theorem Rested.level (hr : Rested env s h r) (level : Nesting) : Rested env s h (r.onLevel level) :=
  let ⟨log, e, he, t⟩ := hr
  ⟨log, e, he, t.level level⟩

theorem Running.level (hr : Running env s h r) (level : Nesting) :
    Running env s h (r.onLevel level) :=
  let ⟨log, e, he, t⟩ := hr
  ⟨log, e, he, t.level level⟩

theorem Settled.level (hr : Settled env s h r) (level : Nesting) :
    Settled env s h (r.onLevel level) :=
  let ⟨log, t⟩ := hr
  ⟨log, t.level level⟩

/-- It does not matter on which level a way begins. -/
theorem Rested.fromLevel {level : Nesting} (hr : Rested env (s.onLevel level) h r) :
    Rested env s h r := by
  obtain ⟨log, e, he, t⟩ := hr
  exact ⟨log, e, he, ((Trail.start s).level level).trans t⟩

/-- A name in front of a `.` that is noted. -/
theorem Reached.owner (hr : Reached env s h r) {r₁ : Reading} {name : String}
    (hname : r.cursor.current.isName = true) (hdecoded : r.cursor.current.name? = some name)
    (hn : Yields Reader.next r () r₁) (hdot : r₁.cursor.current.isSymbol .dot = true) :
    Running env s h { r₁ with draft := { r₁.draft with
      owners := r₁.draft.owners ++
        [⟨r.cursor.current.span.start, r.cursor.current.text, name⟩] } } := by
  obtain ⟨log, e, t⟩ := hr
  obtain ⟨c, hc, rfl⟩ := Reader.yields_onCursor.1 hn
  exact ⟨_, .midway, by simp, t.owner hname hdecoded hc hdot⟩

/-- A single token that is passed over. -/
theorem Reached.glance (hr : Reached env s h r) (kind : Passage.Kind)
    (hplain : r.cursor.current.kind.isPlain = true) (hn : Yields Reader.next r () r') :
    Settled env s h (r'.passing kind r.cursor.current.span) := by
  obtain ⟨log, e, t⟩ := hr
  obtain ⟨c, hc, rfl⟩ := Reader.yields_onCursor.1 hn
  have hspan : r.cursor.current.span = ⟨r.cursor.current.span.start, c.lastEnd⟩ := by
    rw [Cursor.lastEnd_of_next hc]
  rw [hspan]
  exact ⟨_, t.passage kind hplain (by simp) (.single (Token.isEnd_of_isPlain hplain) hc)
    fun _ => rfl⟩

/-- Parentheses that are passed: no token in them is looked at by its kind. -/
theorem Reached.passParentheses (hr : Reached env s h r) {u : Unit}
    (hn : Yields Reader.passParentheses r u r') : Settled env s h r' := by
  obtain ⟨log, e, t⟩ := hr
  obtain ⟨skipped, r₁, hskip, hrec⟩ := yields_bind.1 hn
  obtain ⟨c, hc, rfl⟩ := Reader.yields_onCursor.1 hskip
  obtain ⟨hopen, ts, hne, hsteps, hspan⟩ := Cursor.skipParentheses_yields hc
  obtain rfl := Reader.yields_recordPassage.1 hrec
  rw [hspan]
  exact ⟨_, t.passage .hint (by rw [hopen]; rfl) hne hsteps (absurd rfl)⟩

/-- Owners are noted, and a `?` is counted; both stay out of the tree. -/
theorem Running.consume (hr : Running env s h r) (hend : r.cursor.current.isEnd = false) {u : Unit}
    (hn : Yields Reader.consume r u r') : Running env s h r' := by
  replace hn := Reader.bind_current hn
  rcases yields_ite.1 hn with ⟨hmark, hn⟩ | ⟨hmark, hn⟩
  · obtain ⟨_, _, hcount, hn⟩ := yields_bind.1 hn
    obtain ⟨-, rfl⟩ := Reader.yields_nextParameter hcount
    obtain ⟨_, r₁, hnext, hn⟩ := yields_bind.1 hn
    replace hn := Reader.bind_atSymbol hn
    have hname : r.cursor.current.isName = false := by
      rw [Token.isName, Token.isSymbol_iff.1 hmark]
      rfl
    rw [hname, Bool.false_and, if_neg Bool.false_ne_true] at hn
    obtain ⟨-, rfl⟩ := yields_pure.1 hn
    obtain ⟨c, hc, rfl⟩ := Reader.yields_onCursor.1 hnext
    exact (hr.reached.count hmark (Reader.yields_onCursor.2 ⟨c, hc, rfl⟩)).dropPlaceholder.running
  · obtain ⟨_, r₁, hnext, hn⟩ := yields_bind.1 hn
    replace hn := Reader.bind_atSymbol hn
    rcases yields_ite.1 hn with ⟨howner, hn⟩ | ⟨howner, hn⟩
    · obtain ⟨name, hname, rfl⟩ := Reader.yields_noteOwner.1 hn
      obtain ⟨hisName, hdot⟩ := Bool.and_eq_true_iff.1 howner
      exact hr.reached.owner hisName hname hnext hdot
    · obtain ⟨-, rfl⟩ := yields_pure.1 hn
      cases hdot : r.cursor.current.isSymbol .dot with
      | true => exact (hr.dot hdot hnext).running
      | false =>
          have hplain := Token.isPlain_of hend (Bool.eq_false_iff.2 hmark) hdot
          obtain ⟨log, e, -, t⟩ := hr
          obtain ⟨c, hc, rfl⟩ := Reader.yields_onCursor.1 hnext
          exact ⟨_, .settled, by simp, t.pass hplain hc (Bool.eq_false_iff.2 howner)⟩

theorem Reader.skipKeyword_draft {k : Keyword} {b : Bool}
    (hn : Yields (Reader.skipKeyword k) r b r') : r'.draft = r.draft := by
  rcases Reader.skipKeyword_yields hn with ⟨-, -, hnext⟩ | ⟨-, rfl⟩
  · exact Reader.next_draft hnext
  · rfl

theorem Reader.acceptKeyword_draft {k : Keyword} {t : Token}
    (hn : Yields (Reader.acceptKeyword k) r t r') : r'.draft = r.draft :=
  Reader.next_draft (Reader.acceptKeyword_yields hn).2.2

theorem Reader.passParentheses_draft {u : Unit} (hn : Yields Reader.passParentheses r u r') :
    r'.draft = r.draft := by
  obtain ⟨skipped, r₁, hskip, hrec⟩ := yields_bind.1 hn
  obtain ⟨c, -, rfl⟩ := Reader.yields_onCursor.1 hskip
  obtain rfl := Reader.yields_recordPassage.1 hrec
  rfl

/-- One step that may consume a plain token. -/
theorem Rested.skip (hr : Rested env s h r) {b : Bool}
    (hskip : (b = true ∧ r.cursor.current.kind.isPlain = true ∧ Yields Reader.next r () r') ∨
      (b = false ∧ r = r')) : Rested env s h r' := by
  rcases hskip with ⟨-, hplain, hnext⟩ | ⟨-, rfl⟩
  · exact hr.reached.next hplain hnext
  · exact hr

theorem Rested.skipKeyword (hr : Rested env s h r) {k : Keyword} {b : Bool}
    (hn : Yields (Reader.skipKeyword k) r b r') : Rested env s h r' :=
  hr.skip (Reader.skipKeyword_yields hn)

theorem Rested.skipAnyOf (hr : Rested env s h r) {ks : List Keyword} {b : Bool}
    (hn : Yields (Reader.skipAnyOf ks) r b r') : Rested env s h r' :=
  hr.skip (Reader.skipAnyOf_yields hn)

theorem Rested.skipKeywords (hr : Rested env s h r) {ks : List Keyword} {u : Unit}
    (hn : Yields (Reader.skipKeywords ks) r u r') : Rested env s h r' := by
  obtain ⟨c, hc, rfl⟩ := Reader.yields_onCursor.1 hn
  refine repeatStep_yields (fun _ c => Rested env s h (r.moved c))
    (fun _ c => Rested env s h (r.moved c)) ?_ hr hc
  intro _ c₁ round c₂ hr₁ hround
  obtain ⟨b, c₃, hskip, hround⟩ := yields_bind.1 hround
  have hr₃ : Rested env s h (r.moved c₃) :=
    hr₁.skip (Reader.skipPlain_yields (by simp [Kind.isPlain])
      (Reader.yields_onCursor.2 ⟨c₃, hskip, rfl⟩))
  rcases yields_ite.1 hround with ⟨-, hround⟩ | ⟨-, hround⟩
  all_goals
    obtain ⟨rfl, rfl⟩ := yields_pure.1 hround
    exact hr₃

theorem Reached.acceptKeyword (hr : Reached env s h r) {k : Keyword} {t : Token}
    (hn : Yields (Reader.acceptKeyword k) r t r') : Rested env s h r' :=
  let ⟨_, hkind, hnext⟩ := Reader.acceptKeyword_yields hn
  hr.nextOf hkind hnext rfl

/-- A parenthesis. -/
theorem Reached.nextParen (hr : Reached env s h r)
    (hk : r.cursor.current.kind = .symbol .leftParen ∨
      r.cursor.current.kind = .symbol .rightParen)
    (hn : Yields Reader.next r () r') : Settled env s h r' := by
  rcases hk with hk | hk <;> exact hr.nextMarkOf hk hn rfl rfl

theorem Reached.openParen (hr : Reached env s h r) {t : Token}
    (hn : Yields (Reader.acceptSymbol .leftParen) r t r') : Settled env s h r' :=
  let ⟨_, hkind, hnext⟩ := Reader.acceptSymbol_yields hn
  hr.nextParen (.inl hkind) hnext

theorem Reached.close (hr : Reached env s h r) {opening : Token} {u : Unit}
    (hn : Yields (Reader.close opening) r u r') : Settled env s h r' :=
  let ⟨hkind, hnext⟩ := Reader.close_yields hn
  hr.nextParen (.inr hkind) hnext

theorem Running.verbatimFrom (hr : Running env s h r) {start : Nat} {x : Expr}
    (hn : Yields (Reader.verbatimFrom env start) r x r') : Settled env s (h ++ x.parts) r' := by
  replace hn := Reader.bind_lastEnd hn
  obtain ⟨rfl, rfl⟩ := yields_pure.1 hn
  exact hr.keep start

theorem Ended.verbatimFrom (hr : Ended env s h r) {start : Nat} {x : Expr}
    (hn : Yields (Reader.verbatimFrom env start) r x r') : Ended env s (h ++ x.parts) r' := by
  refine ⟨hr.1.running.verbatimFrom hn, ?_⟩
  obtain ⟨_, hlast, -⟩ := yields_map.1 hn
  obtain ⟨-, rfl⟩ := Reader.yields_lastEnd.1 hlast
  exact hr.2

/-- Entries with commas between them: each entry adds its parts, and `P` is what
holds behind an entry. -/
theorem commaSeparated_yields {α : Type} {entry : Reader α} {f : α → List Part}
    {P : List Part → Reading → Prop} (hP : ∀ {h r}, P h r → Reached env s h r)
    (hentry : ∀ {h r a r'}, Reached env s h r → Yields entry r a r' → P (h ++ f a) r')
    (hr : Reached env s h r) {as : List α}
    (hn : Yields (Reader.commaSeparated entry) r as r') : P (h ++ as.flatMap f) r' := by
  refine repeatStep_yields (fun done r => Reached env s (h ++ done.flatMap f) r)
    (fun as r => P (h ++ as.flatMap f) r) ?_ (by simpa using hr) hn
  intro done r₁ round r₂ hr₁ hround
  obtain ⟨a, r₃, ha, hround⟩ := yields_bind.1 hround
  have hr₃ : P (h ++ (done ++ [a]).flatMap f) r₃ := by simpa using hentry hr₁ ha
  obtain ⟨b, r₄, hskip, hround⟩ := yields_bind.1 hround
  rcases Reader.skipOneOf_yields hskip with ⟨rfl, hkind, hnext⟩ | ⟨rfl, -, rfl⟩
  · rw [if_pos rfl] at hround
    obtain ⟨rfl, rfl⟩ := yields_pure.1 hround
    exact ((hP hr₃).nextOf (List.mem_singleton.1 hkind) hnext rfl).reached
  · rw [if_neg Bool.false_ne_true] at hround
    obtain ⟨rfl, rfl⟩ := yields_pure.1 hround
    exact hr₃

/-! ## Nested readers -/

/-- What a query leaves behind when it was read from `r` to `r'`. -/
structure QueryRead (env : Setting) (r : Reading) (q : Query) (r' : Reading) : Prop where
  select : r.cursor.current.isKeyword .SELECT = true
  trail : ∃ c, Yields Cursor.next r.cursor () c ∧ Rested env (r.moved c) q.parts r'
  scope : q.scope = r'.draft.finish
  span : q.span = ⟨r.cursor.current.span.start, r'.cursor.lastEnd⟩

/-- The readers of what is nested leave trails. -/
structure Inner.Tracked (env : Setting) (inner : Inner) : Prop where
  query {r r' : Reading} {q : Query} : Yields inner.query r q r' → QueryRead env r q r'
  operand {s r r' : Reading} {h : List Part} {u : Unit} :
    Reached env s h r → Yields inner.operand r u r' → Running env s h r'
  predicate {s r r' : Reading} {h : List Part} {p : Predicate} :
    Reached env s h r → Yields inner.predicate r p r' → Rested env s (h ++ p.parts) r'
  group {s r r' : Reading} {h : List Part} {cs : List Condition} :
    Reached env s h r → Yields inner.group r cs r' →
      Settled env s (h ++ Condition.partsIn cs) r'
  sources {s r r' : Reading} {h : List Part} {ss : List TableSource} :
    Reached env s h r → Yields inner.sources r ss r' →
      Rested env s (h ++ TableSource.partsIn ss) r'

theorem Inner.tracked_exhausted (env : Setting) : (Inner.exhausted env).Tracked env where
  query hn := (Reader.yields_refuseNesting.1 hn).elim
  operand _ hn := (Reader.yields_refuseNesting.1 hn).elim
  predicate _ hn := (Reader.yields_refuseNesting.1 hn).elim
  group _ hn := (Reader.yields_refuseNesting.1 hn).elim
  sources _ hn := (Reader.yields_refuseNesting.1 hn).elim

theorem Inner.Tracked.embed {inner : Inner} (hi : inner.Tracked env) (hr : Reached env s h r)
    {q : Query} (hn : Yields inner.embed r q r') :
    Reached env s (h ++ [.query q]) r' ∧ r'.cursor.lastEnd = q.span.stop := by
  unfold Yields Inner.embed at hn
  split at hn
  · cases hn
  · rename_i q₁ r₁ hquery
    cases hn
    have hread : QueryRead env r.enter q r₁ := hi.query hquery
    obtain ⟨log, e, t⟩ := hr
    obtain ⟨c, hc, log', e', he', t'⟩ := hread.trail
    refine ⟨⟨_, _, t.nested hread.select hc t' he' hread.scope hread.span⟩, ?_⟩
    rw [hread.span]

/-- A query that is read and attached to the scope. -/
theorem Inner.Tracked.attach {inner : Inner} (hi : inner.Tracked env) (hr : Reached env s h r)
    {q : Query} (hn : Yields inner.embed r q r') : Running env s h (r'.attaching q) := by
  obtain ⟨⟨log, e, t⟩, hstop⟩ := hi.embed hr hn
  exact ⟨log, .midway, by simp, t.attach hstop⟩

end SqlMarkers
