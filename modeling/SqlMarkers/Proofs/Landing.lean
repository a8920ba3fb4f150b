/-
SqlMarkers.Proofs.Landing — where a reading step ends, whatever its outcome.

The trails of `SqlMarkers.Proofs.Trail` describe readings that succeed. Here both
outcomes count: `Lands env lo m r P` says that the step `m`, started in the
reading `r`, either ends in a reading in its place (`Reading.Placed`), not behind
`r`, with a result that meets `P`; or it stops with a fault that the statement
itself explains (`Setting.Stops`). A lexical fault is explained by the first
piece of text that is no token, a grammar fault by the token it points at, which the
cursor has come to. No statement explains a loop without progress, so a step that
lands never stalls; and none explains a number without a value, which is no token.

Places are told by cursors. `c.Advances c'` says that the cursor moved on by at
least one token; then `c.upTo c'` is the span of what was read on the way, and what
is read next stands behind it. `Builds env lo sits m r` says that the step reads
something that sits there.

`lo` is where the statement starts that the reader is in. The tables and
queries of its scope sit between `lo` and the token consumed last.
-/
import SqlMarkers.Proofs.Kept
import SqlMarkers.Proofs.Literals
import SqlMarkers.Reader.Statement

namespace SqlMarkers

/-! ## Steps with both outcomes -/

/-- From the state `s` the step `m` ends with a result that `ok` allows or with a
fault that `bad` allows where it stopped. -/
def Ensures {ε σ α : Type} (bad : ε → σ → Prop) (m : EStateM ε σ α) (s : σ)
    (ok : α → σ → Prop) : Prop :=
  match m s with
  | .ok a s' => ok a s'
  | .error f s' => bad f s'

namespace Ensures

variable {ε σ α β : Type} {bad : ε → σ → Prop} {m : EStateM ε σ α} {s : σ} {P : α → σ → Prop}

theorem imp {Q : α → σ → Prop} (h : Ensures bad m s P) (hPQ : ∀ a s', P a s' → Q a s') :
    Ensures bad m s Q := by
  unfold Ensures at h ⊢
  split <;> simp_all

theorem bind {f : α → EStateM ε σ β} {Q : β → σ → Prop} (h : Ensures bad m s P)
    (hf : ∀ a s', P a s' → Ensures bad (f a) s' Q) : Ensures bad (m >>= f) s Q := by
  show (match EStateM.bind m f s with
    | .ok a s' => Q a s'
    | .error f s' => bad f s')
  unfold Ensures at h
  unfold EStateM.bind
  cases hm : m s with
  | ok a s' =>
      rw [hm] at h
      exact hf a s' h
  | error e s' =>
      rw [hm] at h
      exact h

/-- A repetition whose rounds make the state smaller never meets its bound. -/
theorem repeatStep {size : σ → Nat} {stuck : ε} {step : β → EStateM ε σ (Round β α)} {b : β}
    (again : β → σ → Prop)
    (hstep : ∀ {b s}, again b s → Ensures bad (step b) s fun round s' =>
      round.Meets (fun b' s' => size s' < size s ∧ again b' s') P s')
    (hb : again b s) : Ensures bad (repeatStep size stuck step b) s P := by
  have hrun : ∀ fuel b s, size s < fuel → again b s →
      Ensures bad (Round.run size stuck step fuel b) s P := by
    intro fuel
    induction fuel with
    | zero =>
        intro b s hsize
        exact absurd hsize (Nat.not_lt_zero _)
    | succ fuel ih =>
        intro b s hsize hb
        show Ensures bad (step b >>= _) s P
        refine (hstep hb).bind fun round s' hround => ?_
        cases round with
        | again b' =>
            show Ensures bad (if size s' < size s then Round.run size stuck step fuel b'
              else throw stuck) s' P
            rw [if_pos hround.1]
            exact ih b' s' (Nat.lt_of_lt_of_le hround.1 (Nat.le_of_lt_succ hsize)) hround.2
        | stop a => exact hround
  exact hrun (size s + 1) b s (Nat.lt_succ_self _) hb

end Ensures

/-- A count in range succeeds. -/
theorem Counter.ensures_up {σ β : Type} {bad : Fault → σ → Prop} {n : Nat} {s : σ}
    {f : Nat → EStateM Fault σ β} {P : β → σ → Prop} (hn : n < limit)
    (h : Ensures bad (f (n + 1)) s P) : Ensures bad (up n >>= f) s P := by
  rw [up, if_pos hn]
  exact h

theorem Counter.ensures_down {σ β : Type} {bad : Fault → σ → Prop} {n : Nat} {s : σ}
    {f : Nat → EStateM Fault σ β} {P : β → σ → Prop} (hn : n ≠ 0)
    (h : Ensures bad (f (n - 1)) s P) : Ensures bad (down n >>= f) s P := by
  rw [down, if_pos (Nat.pos_of_ne_zero hn)]
  exact h

/-! ## Faults -/

/-- The lexical fault of the statement, if it has one. -/
def Setting.failure (env : Setting) : Option LexicalFault :=
  (TokenStream.ofText env.dialect env.source).failure

/-- What the statement must be like for a reading of it to end with this fault. -/
def Setting.Explains (env : Setting) : Fault → Prop
  | .lexical offset cause => ∃ f, env.failure = some f ∧ offset = f.offset ∧ cause = f.cause
  | .grammar offset _ => ∃ t ∈ env.page.tokens, offset = t.span.start
  | .undecodable => ∃ t ∈ env.page.tokens, t.name? = none
  | .overflow | .stalled => False

/-- The cursor has come to the token: it is one of those of the statement that are not
ahead of the cursor, so it was consumed or is the current one. -/
def Cursor.Met (env : Setting) (c : Cursor) (t : Token) : Prop :=
  t ∈ env.page.tokens.take (env.page.tokens.length - c.remaining)

/-- Whether a cause says that a number has no value. -/
def GrammarCause.concernsNumber : GrammarCause → Bool
  | .integerOutOfRange | .malformedNumber => true
  | _ => false

/-- How the reading of a statement may stop at a cursor: a grammar fault points at a
token that was met, and never at a number because of its value. -/
def Setting.Stops (env : Setting) : Fault → Cursor → Prop
  | .grammar offset cause, c =>
      (∃ t, c.Met env t ∧ offset = t.span.start) ∧ cause.concernsNumber = false
  | f, _ => env.Explains f

theorem Setting.Stops.explains {env : Setting} {f : Fault} {c : Cursor} (h : env.Stops f c) :
    env.Explains f := by
  cases f with
  | grammar offset cause =>
      obtain ⟨⟨t, ht, hoffset⟩, -⟩ := h
      exact ⟨t, List.mem_of_mem_take ht, hoffset⟩
  | _ => exact h

theorem Setting.stops_toFault {env : Setting} {f : LexicalFault} {c : Cursor}
    (h : env.failure = some f) : env.Stops f.toFault c :=
  ⟨f, h, rfl, rfl⟩

theorem Token.isEnd_of_kind {t : Token} {k : Kind} (h : t.kind = k) (hk : k ≠ .endOfInput) :
    t.isEnd = false :=
  Token.isEnd_eq_false.2 (h ▸ hk)

/-! ## Cursors in their place -/

namespace Cursor

/-- The cursor stands on a token of the statement, and what was consumed last is
a token of it too. -/
structure Placed (env : Setting) (c : Cursor) : Prop extends Orderly c where
  tokens : c.rest <:+ env.page.tokens
  failure_eq : c.failure = env.failure
  consumed : c.lastEnd = 0 ∨
    ∃ t ∈ env.page.tokens, t.isEnd = false ∧ c.lastEnd = t.span.stop

/-- The cursor is at `c'` no earlier than at `c`. -/
structure Goes (c c' : Cursor) : Prop where
  start_le : c.current.span.start ≤ c'.current.span.start
  lastEnd_le : c.lastEnd ≤ c'.lastEnd
  remaining_le : c'.remaining ≤ c.remaining

/-- The cursor moved on from `c` to `c'`. -/
structure Advances (c c' : Cursor) : Prop extends Goes c c' where
  start_lt : c.current.span.start < c'.lastEnd
  remaining_lt : c'.remaining < c.remaining

/-- The cursor moved over the one token that is current at `c`. -/
structure Over (c c' : Cursor) : Prop extends Advances c c' where
  lastEnd_eq : c'.lastEnd = c.current.span.stop
  lookAhead_eq : ∀ n, c'.lookAhead n = c.lookAhead (n + 1)

/-- The current token and the one behind it are not the end of the input. -/
def AtPair (c : Cursor) : Prop :=
  c.current.isEnd = false ∧ ∃ t, c.lookAhead 1 = .ok t ∧ t.isEnd = false

/-- The span of what stands between two cursors. -/
def upTo (c c' : Cursor) : Span := ⟨c.current.span.start, c'.lastEnd⟩

variable {env : Setting} {c c₁ c₂ c' : Cursor}

theorem Goes.rfl : c.Goes c := ⟨Nat.le_refl _, Nat.le_refl _, Nat.le_refl _⟩

theorem Goes.trans (h : c.Goes c₁) (h' : c₁.Goes c') : c.Goes c' :=
  ⟨Nat.le_trans h.start_le h'.start_le, Nat.le_trans h.lastEnd_le h'.lastEnd_le,
    Nat.le_trans h'.remaining_le h.remaining_le⟩

theorem Advances.goes (h : c.Advances c₁) (h' : c₁.Goes c') : c.Advances c' :=
  ⟨h.toGoes.trans h', Nat.lt_of_lt_of_le h.start_lt h'.lastEnd_le,
    Nat.lt_of_le_of_lt h'.remaining_le h.remaining_lt⟩

theorem Goes.advances (h : c.Goes c₁) (h' : c₁.Advances c') : c.Advances c' :=
  ⟨h.trans h'.toGoes, Nat.lt_of_le_of_lt h.start_le h'.start_lt,
    Nat.lt_of_lt_of_le h'.remaining_lt h.remaining_le⟩

/-- What stands between two cursors also stands between two further apart. -/
theorem Goes.upTo_within (h : c.Goes c₁) (h' : c₂.Goes c') : (c₁.upTo c₂).Within (c.upTo c') :=
  ⟨h.start_le, h'.lastEnd_le⟩

theorem Over.current_eq (h : c.Over c') {t : Token} (ht : c.lookAhead 1 = .ok t) :
    c'.current = t := by
  have := (h.lookAhead_eq 0).trans ht
  exact Except.ok.inj this

theorem Over.span_eq (h : c.Over c') : c.current.span = c.upTo c' := by
  rw [upTo, h.lastEnd_eq]

theorem Placed.current_mem (hc : c.Placed env) : c.current ∈ env.page.tokens :=
  hc.tokens.subset List.mem_cons_self

theorem Placed.met (hc : c.Placed env) : c.Met env c.current := by
  obtain ⟨consumed, htokens⟩ := hc.tokens
  have hwhole : env.page.tokens = (consumed ++ [c.current]) ++ c.ahead := by
    rw [← htokens, rest, List.append_assoc]
    rfl
  rw [Met, hwhole, List.length_append, remaining, Nat.add_sub_cancel, List.take_left]
  simp

/-- What was met stays met. -/
theorem Met.goes {t : Token} (h : c.Met env t) (hgo : c.Goes c') : c'.Met env t :=
  List.take_subset_take_left _ (Nat.sub_le_sub_left hgo.remaining_le _) h

/-- Every offset of a statement that has tokens fits into a counter. -/
theorem Placed.stop_le_limit (_ : c.Placed env) {t : Token} (ht : t ∈ env.page.tokens) :
    t.span.stop ≤ Counter.limit := by
  obtain ⟨before, after, hsource, hspan, -⟩ :=
    (TokenStream.laid_ofText env.dialect env.source).mem ht
  have hfits : Text.width env.source ≤ Span.limit := TokenStream.fits_of_mem ht
  rw [← hsource, Text.width_append, Text.width_append] at hfits
  have hlimit : Counter.limit = Span.limit := rfl
  rw [hspan, hlimit]
  dsimp only
  omega

theorem Placed.lastEnd_le_limit (hc : c.Placed env) : c.lastEnd ≤ Counter.limit := by
  rcases hc.consumed with hzero | ⟨t, ht, -, hstop⟩
  · rw [hzero]
    exact Nat.zero_le _
  · rw [hstop]
    exact hc.stop_le_limit ht

/-- In front of a token, there is room for one more. -/
theorem Placed.lastEnd_lt_limit (hc : c.Placed env) (hend : c.current.isEnd = false) :
    c.lastEnd < Counter.limit := by
  have hbehind := hc.behind
  have hwide := hc.wide c.current List.mem_cons_self hend
  have hstop := hc.stop_le_limit hc.current_mem
  omega

theorem Placed.lastEnd_lt (hc : c.Placed env) (h : c.Advances c') : c.lastEnd < c'.lastEnd :=
  Nat.lt_of_le_of_lt hc.behind h.start_lt

/-- A span between two cursors goes from token to token. -/
theorem Placed.frames (hc : c.Placed env) (hc' : c'.Placed env) (h : c.Advances c') :
    env.page.Frames (c.upTo c') := by
  have hlt := h.start_lt
  rcases hc'.consumed with hzero | ⟨t, ht, -, hstop⟩
  · omega
  · rw [upTo, hstop]
    exact Setting.frames_of hc.current_mem ht (hstop ▸ hlt)

/-- The text between a token and what was consumed last is kept. -/
theorem Placed.keeps (hc : c.Placed env) {t : Token} (ht : t ∈ env.page.tokens)
    (hlt : t.span.start < c.lastEnd) :
    env.page.Frames ⟨t.span.start, c.lastEnd⟩ ∧
      env.page.Keeps ⟨t.span.start, c.lastEnd⟩
        (Reader.sourceText env t.span.start c.lastEnd).toList := by
  rcases hc.consumed with hzero | ⟨u, hu, hend, hstop⟩
  · omega
  · rw [hstop] at hlt ⊢
    exact ⟨Setting.frames_of ht hu hlt, Setting.keeps_of ht hu hlt hend⟩

/-! ### Steps on a cursor -/

/-- From `c` the step ends at a cursor in its place, not before `c`, with a result
that meets `P`, or with a fault that the statement explains. -/
def Lands {α : Type} (env : Setting) (m : Action α) (c : Cursor) (P : α → Cursor → Prop) : Prop :=
  Ensures env.Stops m c fun a c' => c'.Placed env ∧ c.Goes c' ∧ P a c'

variable {α β : Type} {m : Action α} {P : α → Cursor → Prop}

theorem Lands.bind {f : α → Action β} {Q : β → Cursor → Prop} (h : Lands env m c P)
    (hf : ∀ a c₁, c₁.Placed env → c.Goes c₁ → P a c₁ → Lands env (f a) c₁ Q) :
    Lands env (m >>= f) c Q := by
  refine Ensures.bind h fun a c₁ ⟨hc₁, hgo, hP⟩ => (hf a c₁ hc₁ hgo hP).imp ?_
  intro b c' ⟨hc', hgo', hQ⟩
  exact ⟨hc', hgo.trans hgo', hQ⟩

theorem Lands.pure (hc : c.Placed env) {a : α} (h : P a c) : Lands env (Pure.pure a) c P :=
  ⟨hc, .rfl, h⟩

theorem Lands.throw {f : Fault} (h : env.Stops f c) : Lands env (MonadExcept.throw f) c P := h

theorem lands_bind_get {f : Cursor → Action α} :
    Lands env (get >>= f) c P ↔ Lands env (f c) c P := .rfl

theorem lands_next (hc : c.Placed env) (hend : c.current.isEnd = false) :
    Lands env next c fun _ c' => c.Over c' := by
  have hcurrent := hc.wide c.current List.mem_cons_self hend
  cases hnext : next c with
  | ok u c' =>
      have hy : Yields next c () c' := hnext
      obtain ⟨hrest, hfailure, hlast⟩ := next_yields hc.toOrderly hend hy
      have ho := hc.next hend hy
      have hmem : c'.current ∈ c.rest := hrest ▸ List.mem_cons_of_mem _ List.mem_cons_self
      have hahead : c.ahead = c'.rest := (List.cons.inj hrest).2
      have hplaced : c'.Placed env := by
        refine ⟨ho, ?_, hfailure.trans hc.failure_eq, .inr ⟨c.current, hc.current_mem, hend, hlast⟩⟩
        refine (List.suffix_cons c.current c'.rest).trans ?_
        rw [← hrest]
        exact hc.tokens
      have hbehind := hc.behind
      have hfewer : c'.remaining < c.remaining := by
        rw [remaining, remaining, hahead, rest, List.length_cons]
        exact Nat.lt_succ_self _
      have hover : c.Over c' := by
        refine ⟨⟨⟨hc.current_le hmem, ?_, Nat.le_of_lt hfewer⟩, ?_, hfewer⟩, hlast,
          fun n => lookAhead_of_next hy n⟩
        · omega
        · omega
      unfold Lands Ensures
      rw [hnext]
      exact ⟨hplaced, hover.toGoes, hover⟩
  | error f c' =>
      unfold Lands Ensures
      rw [hnext]
      unfold next at hnext
      dsimp only at hnext
      split at hnext
      · cases hnext
      · rename_i f' _ hfailure
        cases hnext
        exact Setting.stops_toFault (hc.failure_eq ▸ hfailure)
      · cases hnext

/-- A look ahead finds a token of the statement. -/
theorem lands_peekNth (hc : c.Placed env) (n : Nat) :
    Lands env (peekNth n) c fun t c' => c' = c ∧ c.lookAhead n = .ok t := by
  unfold Lands Ensures peekNth
  cases hlook : c.lookAhead n with
  | ok t => exact ⟨hc, .rfl, rfl, rfl⟩
  | error f =>
      unfold lookAhead at hlook
      split at hlook
      · cases hlook
      · rename_i hfailure
        cases hlook
        exact Setting.stops_toFault (hc.failure_eq ▸ hfailure)
      · cases hlook

theorem lands_failExpected (hc : c.Placed env) (what : String) :
    Lands env (failExpected what : Action α) c P :=
  ⟨⟨c.current, hc.met, by rfl⟩, by rfl⟩

theorem lands_skipOneOf (hc : c.Placed env) {kinds : List Kind} (hkinds : .endOfInput ∉ kinds) :
    Lands env (skipOneOf kinds) c fun b c' =>
      (b = true ∧ c.current.kind ∈ kinds ∧ c.Over c') ∨ (b = false ∧ c' = c) := by
  rw [skipOneOf, lands_bind_get]
  split
  · rename_i hkind
    have hmem : c.current.kind ∈ kinds := by simpa [isOneOf] using hkind
    have hend : c.current.isEnd = false := Token.isEnd_eq_false.2 fun h => hkinds (h ▸ hmem)
    refine (lands_next hc hend).bind fun _ c₁ hc₁ _ hover => .pure hc₁ ?_
    exact .inl ⟨rfl, hmem, hover⟩
  · exact .pure hc (.inr ⟨rfl, rfl⟩)

theorem lands_accept (hc : c.Placed env) {kind : Kind} (hkind : kind ≠ .endOfInput) :
    Lands env (accept kind) c fun t c' => t = c.current ∧ c.current.kind = kind ∧ c.Over c' := by
  rw [accept, lands_bind_get]
  dsimp only
  split
  · rename_i h
    have hend := Token.isEnd_of_kind h hkind
    exact (lands_next hc hend).bind fun _ c₁ hc₁ _ hover => .pure hc₁ ⟨rfl, h, hover⟩
  · exact lands_failExpected hc _

/-- A repetition on a cursor lands if every round does and moves on. -/
theorem Lands.repeatStep {stuck : Fault} {step : β → Action (Round β α)} {b : β}
    (again : β → Cursor → Prop) (hc : c.Placed env) (hb : again b c)
    (hstep : ∀ {b c₁}, c₁.Placed env → c.Goes c₁ → again b c₁ →
      Lands env (step b) c₁ fun round c₂ =>
        round.Meets (fun b' c₂ => c₁.Advances c₂ ∧ again b' c₂) P c₂) :
    Lands env (repeatStep remaining stuck step b) c P := by
  refine Ensures.repeatStep (fun b c₁ => c₁.Placed env ∧ c.Goes c₁ ∧ again b c₁) ?_
    ⟨hc, .rfl, hb⟩
  rintro b c₁ ⟨hc₁, hgo, hb⟩
  refine (hstep hc₁ hgo hb).imp ?_
  rintro (b' | a) c₂ ⟨hc₂, hgo', hround⟩
  · exact ⟨hround.1.remaining_lt, hc₂, hgo.trans hgo', hround.2⟩
  · exact ⟨hc₂, hgo.trans hgo', hround⟩

theorem lands_skipWhile (hc : c.Placed env) {kinds : List Kind} (hkinds : .endOfInput ∉ kinds) :
    Lands env (skipWhile kinds) c fun _ _ => True := by
  refine Lands.repeatStep (fun _ _ => True) hc trivial ?_
  intro _ c₁ hc₁ _ _
  refine (lands_skipOneOf hc₁ hkinds).bind ?_
  rintro b c₂ hc₂ - (⟨rfl, -, hover⟩ | ⟨rfl, -⟩)
  · exact .pure hc₂ ⟨hover.toAdvances, trivial⟩
  · exact .pure hc₂ trivial

theorem lands_skipParentheses (hc : c.Placed env) :
    Lands env skipParentheses c fun _ c' => c.Advances c' := by
  refine (lands_accept hc (by simp)).bind ?_
  rintro opening c₁ hc₁ - ⟨rfl, -, hover⟩
  -- No more is counted than there are bytes in front of the cursor.
  have hfirst := hc.lastEnd_lt hover.toAdvances
  refine Lands.repeatStep (fun counts c₂ => c.Advances c₂ ∧
    counts.1 ≤ c₂.lastEnd ∧ counts.2 ≤ c₂.lastEnd) hc₁
    ⟨hover.toAdvances, Nat.succ_le_of_lt (Nat.zero_lt_of_lt hfirst), Nat.zero_le _⟩ ?_
  rintro ⟨depth, placeholders⟩ c₂ hc₂ - ⟨hadv, hdepth, hplaceholders⟩
  have hmove : ∀ {depth' placeholders' : Nat}, c₂.current.isEnd = false →
      depth' ≤ c₂.lastEnd + 1 → placeholders' ≤ c₂.lastEnd + 1 →
      Lands env (do next; return .again (depth', placeholders') :
          Action (Round (Nat × Nat) Skipped)) c₂
        fun round c₃ => round.Meets (fun counts c₃ => c₂.Advances c₃ ∧
            c.Advances c₃ ∧ counts.1 ≤ c₃.lastEnd ∧ counts.2 ≤ c₃.lastEnd)
          (fun _ c₃ => c.Advances c₃) c₃ := by
    intro depth' placeholders' hend hdepth' hplaceholders'
    refine (lands_next hc₂ hend).bind fun _ c₃ hc₃ hgo hover => .pure hc₃ ?_
    have hlt := hc₂.lastEnd_lt hover.toAdvances
    exact ⟨hover.toAdvances, hadv.goes hgo, by omega, by omega⟩
  dsimp only
  split
  · exact ⟨hc₂, .rfl, hadv⟩
  · rename_i hzero
    rw [lands_bind_get]
    split
    · exact .throw ⟨⟨c.current, hc.met.goes hadv.toGoes, rfl⟩, rfl⟩
    · rename_i hkind
      have hend := Token.isEnd_of_kind hkind (by simp)
      have hlimit := hc₂.lastEnd_lt_limit hend
      exact Counter.ensures_up (by omega) (hmove hend (by omega) (by omega))
    · rename_i hkind
      have hend := Token.isEnd_of_kind hkind (by simp)
      exact Counter.ensures_down hzero (hmove hend (by omega) (by omega))
    · rename_i hkind
      have hend := Token.isEnd_of_kind hkind (by simp)
      have hlimit := hc₂.lastEnd_lt_limit hend
      exact Counter.ensures_up (by omega) (hmove hend (by omega) (by omega))
    · rename_i hend _ _ _
      exact hmove (Token.isEnd_eq_false.2 hend) (by omega) (by omega)

end Cursor

/-- An expression fills the span where it is written. -/
def Expr.Fills (pg : Page) (b : Span) (e : Expr) : Prop := e.span = b ∧ e.Told pg

theorem Expr.Fills.sits {pg : Page} {b : Span} {e : Expr} (h : e.Fills pg b) : e.Sits pg b :=
  ⟨h.1 ▸ .rfl, h.2⟩

/-! ## Readings in their place -/

namespace Reading

/-- The cursor is in its place, and the tables and queries of the scope stand
between `lo` and what was consumed last. No more `?` were counted than there are bytes up
to there. -/
structure Placed (env : Setting) (lo : Nat) (r : Reading) : Prop where
  cursor : r.cursor.Placed env
  lo_le : lo ≤ r.cursor.current.span.start
  tables : Row Table.span (Table.Sits env.page) ⟨lo, r.cursor.lastEnd⟩ r.draft.tables
  subqueries : Row Query.span (Query.Sits env.page) ⟨lo, r.cursor.lastEnd⟩ r.draft.subqueries
  counted : r.draft.parameters ≤ r.cursor.lastEnd

/-- The reading moved over its current token and did nothing else. -/
structure Over (r r' : Reading) : Prop extends Cursor.Over r.cursor r'.cursor where
  draft_eq : r'.draft = r.draft

/-- The reading moved on if something was found, and stayed where it was else. -/
def MovedIf (r : Reading) (found : Bool) (r' : Reading) : Prop :=
  (found = true ∧ r.cursor.Advances r'.cursor) ∨ (found = false ∧ r' = r)

variable {env : Setting} {lo : Nat} {r r' : Reading}

/-- The tables and queries stay the same, and the cursor moves on. -/
theorem Placed.of_draft (hr : r.Placed env lo) (hc : r'.cursor.Placed env)
    (hgo : r.cursor.Goes r'.cursor) (ht : r'.draft.tables = r.draft.tables)
    (hs : r'.draft.subqueries = r.draft.subqueries)
    (hcounted : r'.draft.parameters ≤ r'.cursor.lastEnd) : r'.Placed env lo := by
  have hwithin : Span.Within ⟨lo, r.cursor.lastEnd⟩ ⟨lo, r'.cursor.lastEnd⟩ :=
    ⟨Nat.le_refl _, hgo.lastEnd_le⟩
  exact ⟨hc, Nat.le_trans hr.lo_le hgo.start_le, ht ▸ hr.tables.mono Table.bounded hwithin,
    hs ▸ hr.subqueries.mono Query.bounded hwithin, hcounted⟩

theorem Placed.onLevel (hr : r.Placed env lo) (level : Nesting) :
    (r.onLevel level).Placed env lo :=
  ⟨hr.cursor, hr.lo_le, hr.tables, hr.subqueries, hr.counted⟩

end Reading

/-- From `r` the step ends in a reading in its place, not before `r`, with a result
that meets `P`, or with a fault that the statement explains. -/
def Lands {α : Type} (env : Setting) (lo : Nat) (m : Reader α) (r : Reading)
    (P : α → Reading → Prop) : Prop :=
  Ensures (fun f r' => env.Stops f r'.cursor) m r fun a r' => r'.Placed env lo ∧ r.cursor.Goes r'.cursor ∧ P a r'

/-- From `r` the step completes something that was begun at `s`, and that sits
where it was read. -/
def Completes {α : Type} (env : Setting) (lo : Nat) (sits : Span → α → Prop) (m : Reader α)
    (s r : Reading) : Prop :=
  Lands env lo m r fun a r' => s.cursor.Advances r'.cursor ∧ sits (s.cursor.upTo r'.cursor) a

/-- From `r` the step reads something that sits where it was read. -/
def Builds {α : Type} (env : Setting) (lo : Nat) (sits : Span → α → Prop) (m : Reader α)
    (r : Reading) : Prop :=
  Completes env lo sits m r r

namespace Lands

variable {env : Setting} {lo : Nat} {r r₁ r' : Reading} {α β : Type} {m : Reader α}
  {P : α → Reading → Prop}

theorem imp {Q : α → Reading → Prop} (h : Lands env lo m r P)
    (hPQ : ∀ a r', r'.Placed env lo → r.cursor.Goes r'.cursor → P a r' → Q a r') :
    Lands env lo m r Q :=
  Ensures.imp h fun a r' ⟨hr', hgo, hP⟩ => ⟨hr', hgo, hPQ a r' hr' hgo hP⟩

theorem bind {f : α → Reader β} {Q : β → Reading → Prop} (h : Lands env lo m r P)
    (hf : ∀ a r₁, r₁.Placed env lo → r.cursor.Goes r₁.cursor → P a r₁ → Lands env lo (f a) r₁ Q) :
    Lands env lo (m >>= f) r Q := by
  refine Ensures.bind h fun a r₁ ⟨hr₁, hgo, hP⟩ => Ensures.imp (hf a r₁ hr₁ hgo hP) ?_
  intro b r' ⟨hr', hgo', hQ⟩
  exact ⟨hr', hgo.trans hgo', hQ⟩

theorem pure (hr : r.Placed env lo) {a : α} (h : P a r) : Lands env lo (Pure.pure a) r P :=
  ⟨hr, .rfl, h⟩

/-- A repetition lands if every round does and moves on. -/
theorem repeating {step : β → Reader (Round β α)} {b : β} (again : β → Reading → Prop)
    (hr : r.Placed env lo) (hb : again b r)
    (hstep : ∀ {b r₁}, r₁.Placed env lo → r.cursor.Goes r₁.cursor → again b r₁ →
      Lands env lo (step b) r₁ fun round r₂ =>
        round.Meets (fun b' r₂ => r₁.cursor.Advances r₂.cursor ∧ again b' r₂) P r₂) :
    Lands env lo (Reader.repeating step b) r P := by
  refine Ensures.repeatStep
    (fun b r₁ => r₁.Placed env lo ∧ r.cursor.Goes r₁.cursor ∧ again b r₁) ?_ ⟨hr, .rfl, hb⟩
  rintro b r₁ ⟨hr₁, hgo, hb⟩
  refine Ensures.imp (hstep hr₁ hgo hb) ?_
  rintro (b' | a) r₂ ⟨hr₂, hgo', hround⟩
  · exact ⟨hround.1.remaining_lt, hr₂, hgo.trans hgo', hround.2⟩
  · exact ⟨hr₂, hgo.trans hgo', hround⟩

/-- A step on the cursor leaves the rest of the reading alone. -/
theorem onCursor {action : Cursor.Action α} {Q : α → Cursor → Prop} (hr : r.Placed env lo)
    (h : Cursor.Lands env action r.cursor Q) :
    Lands env lo (Reader.onCursor action) r fun a r' => Q a r'.cursor ∧ r' = r.moved r'.cursor := by
  unfold Cursor.Lands Ensures at h
  unfold Lands Ensures Reader.onCursor
  cases haction : action r.cursor with
  | ok a c =>
      rw [haction] at h
      obtain ⟨hc, hgo, hQ⟩ := h
      have hcounted := Nat.le_trans hr.counted hgo.lastEnd_le
      exact ⟨hr.of_draft hc hgo rfl rfl hcounted, hgo, hQ, rfl⟩
  | error f c =>
      rw [haction] at h
      exact h

end Lands

/-! ## The steps of every reader -/

namespace Reader

variable {env : Setting} {lo : Nat} {r r' : Reading} {α : Type} {P : α → Reading → Prop}

theorem lands_bind_current {f : Token → Reader α} :
    Lands env lo (current >>= f) r P ↔ Lands env lo (f r.cursor.current) r P := .rfl

theorem lands_bind_here {f : Nat → Reader α} :
    Lands env lo (here >>= f) r P ↔ Lands env lo (f r.cursor.current.span.start) r P := .rfl

theorem lands_bind_lastEnd {f : Nat → Reader α} :
    Lands env lo (lastEnd >>= f) r P ↔ Lands env lo (f r.cursor.lastEnd) r P := .rfl

theorem lands_bind_atKeyword {k : Keyword} {f : Bool → Reader α} :
    Lands env lo (atKeyword k >>= f) r P ↔
      Lands env lo (f (r.cursor.current.isKeyword k)) r P := .rfl

theorem lands_bind_atSymbol {s : Symbol} {f : Bool → Reader α} :
    Lands env lo (atSymbol s >>= f) r P ↔ Lands env lo (f (r.cursor.current.isSymbol s)) r P := .rfl

theorem lands_bind_get {f : Reading → Reader α} :
    Lands env lo (get >>= f) r P ↔ Lands env lo (f r) r P := .rfl

theorem lands_bind_pure {β : Type} {a : β} {f : β → Reader α} :
    Lands env lo (pure a >>= f) r P ↔ Lands env lo (f a) r P := .rfl

theorem next_lands (hr : r.Placed env lo) (hend : r.cursor.current.isEnd = false) :
    Lands env lo next r fun _ r' => r.Over r' := by
  refine (Lands.onCursor hr (Cursor.lands_next hr.cursor hend)).imp ?_
  rintro _ r' - - ⟨hover, hmoved⟩
  exact ⟨hover, hmoved ▸ rfl⟩

/-- A token of a given kind that is not the end of the input. -/
theorem next_landsOf (hr : r.Placed env lo) {k : Kind} (hk : r.cursor.current.kind = k)
    (hend : k ≠ .endOfInput) : Lands env lo next r fun _ r' => r.Over r' :=
  next_lands hr (Token.isEnd_of_kind hk hend)

theorem peekNth_lands (hr : r.Placed env lo) (n : Nat) :
    Lands env lo (peekNth n) r fun t r' => r' = r ∧ r.cursor.lookAhead n = .ok t := by
  refine (Lands.onCursor hr (Cursor.lands_peekNth hr.cursor n)).imp ?_
  rintro t r' - - ⟨⟨hc, ht⟩, hmoved⟩
  rw [hc] at hmoved
  exact ⟨hmoved, ht⟩

theorem peek_lands (hr : r.Placed env lo) :
    Lands env lo peek r fun t r' => r' = r ∧ r.cursor.lookAhead 1 = .ok t := peekNth_lands hr 1

/-- Two tokens that were looked at before. -/
theorem nextTwo_lands (hr : r.Placed env lo) (hpair : r.cursor.AtPair) {f : Reader α}
    (hf : ∀ {r'}, r'.Placed env lo → r.cursor.Advances r'.cursor → r'.draft = r.draft →
      Lands env lo f r' P) :
    Lands env lo (do next; next; f) r P := by
  obtain ⟨hend, t, ht, hend'⟩ := hpair
  refine (next_lands hr hend).bind fun _ r₁ hr₁ _ hover₁ => ?_
  refine (next_lands hr₁ (hover₁.current_eq ht ▸ hend')).bind fun _ r₂ hr₂ hgo₂ hover₂ => ?_
  exact hf hr₂ (hover₁.toAdvances.goes hgo₂) (hover₂.draft_eq.trans hover₁.draft_eq)

/-- A look at a keyword and the token behind it. -/
theorem peekBehind_lands (hr : r.Placed env lo) {k : Keyword} {p : Token → Bool}
    (hp : ∀ t, p t = true → t.isEnd = false) {f : Bool → Reader α}
    (hf : ∀ found, (found = true → r.cursor.AtPair) → Lands env lo (f found) r P) :
    Lands env lo (if r.cursor.current.isKeyword k then do
        let t ← peek
        let found ← pure (p t)
        f found
      else do
        let found ← pure false
        f found) r P := by
  split
  · rename_i hk
    refine (peek_lands hr).bind ?_
    rintro t r₁ - - ⟨rfl, ht⟩
    exact hf _ fun h => ⟨Token.isEnd_of_isKeyword hk, t, ht, hp t h⟩
  · exact hf _ (by simp)

theorem skipOneOf_lands (hr : r.Placed env lo) {kinds : List Kind} (hkinds : .endOfInput ∉ kinds) :
    Lands env lo (onCursor (Cursor.skipOneOf kinds)) r fun b r' =>
      (b = true ∧ r.cursor.current.kind ∈ kinds ∧ r.Over r') ∨ (b = false ∧ r' = r) := by
  refine (Lands.onCursor hr (Cursor.lands_skipOneOf hr.cursor hkinds)).imp ?_
  rintro b r' - - ⟨⟨rfl, hkind, hover⟩ | ⟨rfl, hc⟩, hmoved⟩
  · exact .inl ⟨rfl, hkind, hover, hmoved ▸ rfl⟩
  · rw [hc] at hmoved
    exact .inr ⟨rfl, hmoved⟩

/-- One step that may consume a keyword leaves the scope alone. -/
theorem skipKeyword_lands (hr : r.Placed env lo) (k : Keyword) :
    Lands env lo (skipKeyword k) r fun _ r' => r'.draft = r.draft := by
  refine (skipOneOf_lands hr (by simp)).imp ?_
  rintro b r' - - (⟨-, -, hover⟩ | ⟨-, rfl⟩)
  · exact hover.draft_eq
  · rfl

theorem accept_lands (hr : r.Placed env lo) {kind : Kind} (hkind : kind ≠ .endOfInput) :
    Lands env lo (onCursor (Cursor.accept kind)) r fun t r' =>
      t = r.cursor.current ∧ r.cursor.current.kind = kind ∧ r.Over r' := by
  refine (Lands.onCursor hr (Cursor.lands_accept hr.cursor hkind)).imp ?_
  rintro t r' - - ⟨⟨rfl, hk, hover⟩, hmoved⟩
  exact ⟨rfl, hk, hover, hmoved ▸ rfl⟩

theorem acceptKeyword_lands (hr : r.Placed env lo) (k : Keyword) :
    Lands env lo (acceptKeyword k) r fun _ r' => r.Over r' :=
  (accept_lands hr (by simp)).imp fun _ _ _ _ h => h.2.2

theorem acceptSymbol_lands (hr : r.Placed env lo) (s : Symbol) :
    Lands env lo (acceptSymbol s) r fun t r' => r'.cursor.Met env t ∧ r.Over r' := by
  refine (accept_lands hr (by simp)).imp ?_
  rintro t r' - hgo ⟨rfl, -, hover⟩
  exact ⟨hr.cursor.met.goes hgo, hover⟩

theorem skipAnyOf_lands (hr : r.Placed env lo) (ks : List Keyword) :
    Lands env lo (skipAnyOf ks) r fun _ _ => True :=
  (skipOneOf_lands hr (by simp)).imp fun _ _ _ _ _ => trivial

theorem skipKeywords_lands (hr : r.Placed env lo) (ks : List Keyword) :
    Lands env lo (skipKeywords ks) r fun _ r' => r'.draft = r.draft := by
  refine (Lands.onCursor hr (Cursor.lands_skipWhile hr.cursor (by simp))).imp ?_
  rintro _ r' - - ⟨-, hmoved⟩
  exact hmoved ▸ rfl

theorem failExpected_lands (hr : r.Placed env lo) (what : String) :
    Lands env lo (failExpected what) r P :=
  (Lands.onCursor (Q := fun _ _ => False) hr (Cursor.lands_failExpected hr.cursor what)).imp
    fun _ _ _ _ h => h.1.elim

theorem failExpected_bind_lands {β : Type} (hr : r.Placed env lo) (what : String)
    {f : β → Reader α} : Lands env lo (failExpected what >>= f) r P :=
  (failExpected_lands (P := fun _ _ => False) hr what).bind fun _ _ _ _ h => h.elim

theorem failAt_lands {t : Token} (ht : r.cursor.Met env t) {cause : GrammarCause}
    (hcause : cause.concernsNumber = false) : Lands env lo (failAt t.span.start cause) r P :=
  ⟨⟨t, ht, rfl⟩, hcause⟩

theorem failHere_lands (hr : r.Placed env lo) {cause : GrammarCause}
    (hcause : cause.concernsNumber = false) : Lands env lo (failHere cause) r P :=
  ⟨⟨r.cursor.current, hr.cursor.met, rfl⟩, hcause⟩

theorem refuseNesting_lands (hr : r.Placed env lo) : Lands env lo (refuseNesting env) r P :=
  ⟨⟨r.cursor.current, hr.cursor.met, rfl⟩, rfl⟩

/-- What is nested lands one level deeper, and then the reader is back. -/
theorem nested_lands (hr : r.Placed env lo) {body : Reader α}
    (h : Lands env lo body r.deeper fun a r' => P a r'.shallower) :
    Lands env lo (nested env body) r P := by
  unfold Lands Ensures at h
  unfold Lands Ensures nested
  by_cases hdepth : env.limit ≤ r.nesting.depth
  · rw [if_pos hdepth]
    exact refuseNesting_lands (P := P) hr
  · rw [if_neg hdepth]
    cases hbody : body r.deeper with
    | ok a r₁ =>
        rw [hbody] at h
        exact ⟨h.1.onLevel _, h.2⟩
    | error f r₁ =>
        rw [hbody] at h
        exact h

/-- Changes of the draft that keep its tables and queries and its count. -/
theorem modify_lands (hr : r.Placed env lo) {f : Reading → Reading}
    (hcursor : (f r).cursor = r.cursor) (ht : (f r).draft.tables = r.draft.tables)
    (hs : (f r).draft.subqueries = r.draft.subqueries)
    (hp : (f r).draft.parameters = r.draft.parameters) {Q : Unit → Reading → Prop}
    (hQ : Q () (f r)) : Lands env lo (modify f) r Q := by
  have hgo : r.cursor.Goes (f r).cursor := by
    rw [hcursor]
    exact .rfl
  have hcounted : (f r).draft.parameters ≤ (f r).cursor.lastEnd := by
    rw [hp, hcursor]
    exact hr.counted
  exact ⟨hr.of_draft (hcursor ▸ hr.cursor) hgo ht hs hcounted, hgo, hQ⟩

theorem recordPassage_lands (hr : r.Placed env lo) (kind : Passage.Kind) (span : Span) :
    Lands env lo (recordPassage kind span) r fun _ r' =>
      r'.cursor = r.cursor ∧ r'.draft = r.draft :=
  modify_lands hr rfl rfl rfl rfl ⟨rfl, rfl⟩

/-- A `?` that was consumed is counted. -/
theorem nextParameter_lands (hr : r.Placed env lo)
    (hroom : r.draft.parameters < r.cursor.lastEnd) :
    Lands env lo nextParameter r fun _ r' => r'.cursor = r.cursor := by
  rw [nextParameter, lands_bind_get]
  refine Counter.ensures_up (Nat.lt_of_lt_of_le hroom hr.cursor.lastEnd_le_limit) ?_
  exact ⟨hr.of_draft hr.cursor .rfl rfl rfl hroom, .rfl, rfl⟩

/-- A `?` is counted and consumed then. -/
theorem countNext_lands (hr : r.Placed env lo) (hend : r.cursor.current.isEnd = false)
    {f : Nat → Reader α} (hf : ∀ {index r'}, r'.Placed env lo → r.cursor.Over r'.cursor →
      Lands env lo (f index) r' P) :
    Lands env lo (do let index ← nextParameter; next; f index) r P := by
  have hnext := Cursor.lands_next hr.cursor hend
  have hroom := Nat.lt_of_le_of_lt hr.counted (hr.cursor.lastEnd_lt_limit hend)
  have hcount : Ensures (fun f r' => env.Stops f r'.cursor) nextParameter r fun _ r₁ => r₁ =
      { r with draft := { r.draft with parameters := r.draft.parameters + 1 } } :=
    Counter.ensures_up (f := fun count => do
      modifyDraft fun d => { d with parameters := count }
      return r.draft.parameters) hroom rfl
  refine Ensures.bind hcount ?_
  rintro index _ rfl
  unfold Cursor.Lands Ensures at hnext
  refine Ensures.bind (P := fun _ r₁ => r₁.Placed env lo ∧ r.cursor.Over r₁.cursor) ?_ ?_
  · unfold Ensures next onCursor
    cases hc : Cursor.next r.cursor with
    | ok u c =>
        rw [hc] at hnext
        obtain ⟨hplaced, hgo, hover⟩ := hnext
        have hlt := hr.cursor.lastEnd_lt hover.toAdvances
        exact ⟨hr.of_draft hplaced hgo rfl rfl (Nat.succ_le_of_lt
          (Nat.lt_of_le_of_lt hr.counted hlt)), hover⟩
    | error f c =>
        rw [hc] at hnext
        exact hnext
  · intro _ r₁ ⟨hr₁, hover⟩
    refine Ensures.imp (hf hr₁ hover) fun a r' ⟨hr', hgo', hP⟩ => ⟨hr', ?_, hP⟩
    exact hover.toGoes.trans hgo'

theorem nameOf_lands (hr : r.Placed env lo) {t : Token} (ht : t ∈ env.page.tokens) :
    Lands env lo (nameOf t) r fun name r' => t.name? = some name ∧ r' = r := by
  unfold nameOf
  split
  · rename_i name hname
    exact .pure hr ⟨hname, rfl⟩
  · rename_i hnone
    exact ⟨t, ht, hnone⟩

theorem noteOwner_lands (hr : r.Placed env lo) {t : Token} (ht : t ∈ env.page.tokens) :
    Lands env lo (noteOwner t) r fun _ r' => r'.cursor = r.cursor := by
  refine (nameOf_lands hr ht).bind ?_
  rintro name r₁ hr₁ - ⟨-, rfl⟩
  exact modify_lands hr rfl rfl rfl rfl rfl

theorem passParentheses_lands (hr : r.Placed env lo) :
    Lands env lo passParentheses r fun _ r' =>
      r.cursor.Advances r'.cursor ∧ r'.draft = r.draft := by
  refine (Lands.onCursor hr (Cursor.lands_skipParentheses hr.cursor)).bind ?_
  rintro skipped r₁ hr₁ - ⟨hadv, hmoved⟩
  refine (recordPassage_lands hr₁ .hint skipped.span).imp ?_
  rintro _ r' - - ⟨hcursor, hdraft⟩
  rw [hcursor, hdraft]
  exact ⟨hadv, hmoved ▸ rfl⟩

theorem close_lands (hr : r.Placed env lo) {opening : Token} (ht : r.cursor.Met env opening) :
    Lands env lo (close opening) r fun _ r' => r.Over r' := by
  refine (skipOneOf_lands hr (by simp)).bind ?_
  rintro b r₁ hr₁ - (⟨rfl, -, hover⟩ | ⟨rfl, rfl⟩)
  · exact .pure hr₁ hover
  · rw [if_neg Bool.false_ne_true, lands_bind_current]
    split
    · exact failAt_lands ht rfl
    · exact failExpected_lands hr₁ _

theorem consume_lands (hr : r.Placed env lo) (hend : r.cursor.current.isEnd = false) :
    Lands env lo consume r fun _ r' => r.cursor.Advances r'.cursor := by
  have howner : ∀ {r₁ : Reading}, r₁.Placed env lo → r.cursor.Over r₁.cursor → Lands env lo (do
      if r.cursor.current.isName && (← atSymbol .dot) then noteOwner r.cursor.current) r₁
        fun _ r' => r.cursor.Advances r'.cursor := by
    intro r₁ hr₁ hover
    rw [lands_bind_atSymbol]
    split
    · refine (noteOwner_lands hr₁ hr.cursor.current_mem).imp ?_
      rintro _ r' - - hcursor
      rw [hcursor]
      exact hover.toAdvances
    · exact .pure hr₁ hover.toAdvances
  rw [consume, lands_bind_current]
  split
  · exact countNext_lands hr hend fun hr₁ hover => howner hr₁ hover
  · exact (next_lands hr hend).bind fun _ r₁ hr₁ _ hover => howner hr₁ hover.toOver

/-- Everything that was read from `s` to `r` is kept as source text. -/
theorem verbatimFrom_lands {s : Reading} (hs : s.Placed env lo) (hr : r.Placed env lo)
    (hadv : s.cursor.Advances r.cursor) :
    Completes env lo (Expr.Fills env.page) (verbatimFrom env s.cursor.current.span.start) s r := by
  unfold Completes
  rw [verbatimFrom, lands_bind_lastEnd]
  exact .pure hr ⟨hadv, rfl, hr.cursor.keeps hs.cursor.current_mem hadv.start_lt⟩

/-- A round of a repetition from `s` that moved on from `r₁` to `r`. -/
theorem again_lands {s r₁ : Reading} (hgo : s.cursor.Goes r₁.cursor)
    (hadv : r₁.cursor.Advances r.cursor) (hr : r.Placed env lo) :
    Lands env lo (pure (.again true) : Reader (Round Bool Bool)) r fun round r' =>
      round.Meets (fun found r' => r₁.cursor.Advances r'.cursor ∧ s.MovedIf found r')
        s.MovedIf r' :=
  .pure hr ⟨hadv, .inl ⟨rfl, hgo.advances hadv⟩⟩

/-! ## Lists with commas -/

/-- What `P` says of a list holds behind its last entry if every entry adds to it
and a comma does not matter. -/
theorem commaSeparated_lands {entry : Reader α} (hr : r.Placed env lo)
    (Q : List α → Cursor → Prop) (hnil : Q [] r.cursor)
    (hgoes : ∀ {as c c'}, Q as c → c.Goes c' → Q as c')
    (hentry : ∀ {as r₁}, r₁.Placed env lo → r.cursor.Goes r₁.cursor → Q as r₁.cursor →
      Lands env lo entry r₁ fun a r₂ =>
        r₁.cursor.Advances r₂.cursor ∧ Q (as ++ [a]) r₂.cursor) :
    Lands env lo (commaSeparated entry) r fun as r' =>
      r.cursor.Advances r'.cursor ∧ Q as r'.cursor := by
  refine Lands.repeating (fun as r₁ => Q as r₁.cursor) hr hnil ?_
  intro as r₁ hr₁ hgo hQ
  refine (hentry hr₁ hgo hQ).bind fun a r₂ hr₂ _ ⟨hadv, hQ₂⟩ => ?_
  refine (skipOneOf_lands hr₂ (by simp)).bind ?_
  rintro b r₃ hr₃ hgo₃ (⟨rfl, -, hover⟩ | ⟨rfl, rfl⟩)
  · exact .pure hr₃ ⟨hadv.goes hgo₃, hgoes hQ₂ hgo₃⟩
  · exact .pure hr₃ ⟨hgo.advances hadv, hQ₂⟩

/-- Entries with commas between them stand in a row. -/
theorem commaSeparated_builds {entry : Reader α} {span : α → Span} {sits : Span → α → Prop}
    (hs : Bounded span sits) (hr : r.Placed env lo)
    (hentry : ∀ {r₁}, r₁.Placed env lo → Builds env lo sits entry r₁) :
    Builds env lo (Row span sits) (commaSeparated entry) r := by
  refine commaSeparated_lands hr (fun as c => Row span sits (r.cursor.upTo c) as) .nil ?_ ?_
  · intro as c c' hrow hgo
    exact hrow.mono hs (Cursor.Goes.rfl.upTo_within hgo)
  · intro as r₁ hr₁ hgo hrow
    refine (hentry hr₁).imp fun a r₂ _ hgo₂ ⟨hadv, ha⟩ => ⟨hadv, ?_⟩
    exact hrow.snoc hs ha (Cursor.Goes.rfl.upTo_within hgo₂) (hgo.upTo_within .rfl)
      hr₁.cursor.behind

end Reader

end SqlMarkers
