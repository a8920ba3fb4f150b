/-
SqlMarkers.Proofs.Agreement — reading two statements side by side.

Two settings are twins (`Setting.Twin`) when they differ in nothing that a reader
looks at: in the catalogue, or in words that `w` does not tell apart. Two readings
are alike (`Reading.Alike`) when they stand at tokens of the same kinds and spans
whose texts `w` does not tell apart, have counted the same `?` and found queries
with the same outlines. Their declared tables, markers and owners may differ: no
reader looks at them before its statement ends, and then an outline drops what
they led to.

`Reader.Agree w R m m'` says that from readings that are alike the steps `m` and
`m'` both end with results that `R` relates, again in readings that are alike, or
both with faults that are alike, in readings that are alike. Agreement goes through sequences and
repetitions, so each reader agrees with itself as soon as its steps do.
-/
import Mathlib.Data.List.Forall2
import SqlMarkers.Proofs.Outline
import SqlMarkers.Reader.Statement

namespace SqlMarkers

/-! ## Two runs of a step -/

section Runs

variable {ε σ α β : Type}

/-- Two outcomes of a step: results that `R` relates in states that `S` relates, or
faults that `E` relates. -/
inductive Outcomes (E : ε → ε → Prop) (S : σ → σ → Prop) (R : α → α → Prop) :
    EStateM.Result ε σ α → EStateM.Result ε σ α → Prop
  | ok {a a' : α} {s s' : σ} (result : R a a') (state : S s s') :
      Outcomes E S R (.ok a s) (.ok a' s')
  | error {f f' : ε} {s s' : σ} (fault : E f f') (state : S s s') :
      Outcomes E S R (.error f s) (.error f' s')

/-- From states that `S` relates the two steps have related outcomes. -/
def Agree (E : ε → ε → Prop) (S : σ → σ → Prop) (R : α → α → Prop) (m m' : EStateM ε σ α) : Prop :=
  ∀ s s', S s s' → Outcomes E S R (m s) (m' s')

/-- Two rounds of a repetition that go on alike or stop alike. -/
inductive Round.Alike (B : β → β → Prop) (R : α → α → Prop) : Round β α → Round β α → Prop
  | again {b b' : β} (next : B b b') : Alike B R (.again b) (.again b')
  | stop {a a' : α} (result : R a a') : Alike B R (.stop a) (.stop a')

namespace Agree

variable {E : ε → ε → Prop} {S : σ → σ → Prop} {R : α → α → Prop} {m m' : EStateM ε σ α}

theorem pure {a a' : α} (h : R a a') : Agree E S R (Pure.pure a) (Pure.pure a') :=
  fun _ _ hs => .ok h hs

theorem throw {f f' : ε} (h : E f f') :
    Agree E S R (MonadExcept.throw f) (MonadExcept.throw f') :=
  fun _ _ hs => .error h hs

theorem bind {f f' : α → EStateM ε σ β} {Q : β → β → Prop} (h : Agree E S R m m')
    (hf : ∀ a a', R a a' → Agree E S Q (f a) (f' a')) : Agree E S Q (m >>= f) (m' >>= f') := by
  intro s s' hs
  change Outcomes E S Q (EStateM.bind m f s) (EStateM.bind m' f' s')
  have hm := h s s' hs
  unfold EStateM.bind
  revert hm
  generalize m s = x
  generalize m' s' = x'
  rintro (⟨hr, hs⟩ | ⟨hf', hs⟩)
  · exact hf _ _ hr _ _ hs
  · exact .error hf' hs

/-- Repetitions agree if their rounds do and their bounds are the same. -/
theorem repeatStep {size : σ → Nat} {stuck : ε} {step step' : β → EStateM ε σ (Round β α)}
    {B : β → β → Prop} (hsize : ∀ s s', S s s' → size s = size s') (hstuck : E stuck stuck)
    (hstep : ∀ b b', B b b' → Agree E S (Round.Alike B R) (step b) (step' b')) {b b' : β}
    (hb : B b b') : Agree E S R (repeatStep size stuck step b) (repeatStep size stuck step' b') := by
  have hrun : ∀ fuel b b', B b b' →
      Agree E S R (Round.run size stuck step fuel b) (Round.run size stuck step' fuel b') := by
    intro fuel
    induction fuel with
    | zero => exact fun _ _ _ => .throw hstuck
    | succ fuel ih =>
        intro b b' hb
        refine bind (R := S) (fun _ _ hs => .ok hs hs) fun s s' hs => ?_
        refine (hstep b b' hb).bind ?_
        rintro _ _ (hnext | hresult)
        · refine bind (R := S) (fun _ _ hs => .ok hs hs) fun s₁ s₁' hs₁ => ?_
          rw [hsize s s' hs, hsize s₁ s₁' hs₁]
          split
          · exact ih _ _ hnext
          · exact .throw hstuck
        · exact .pure hresult
  intro s s' hs
  change Outcomes E S R (Round.run size stuck step (size s + 1) b s)
    (Round.run size stuck step' (size s' + 1) b' s')
  rw [hsize s s' hs]
  exact hrun _ b b' hb s s' hs

end Agree

end Runs

/-! ## Tokens, cursors and readings that are alike -/

section Alike

variable (w : String → String)

/-- Two tokens that no reader tells apart, up to words that `w` does not tell apart. -/
structure Token.Alike (t t' : Token) : Prop where
  kind : t.kind = t'.kind
  span : t.span = t'.span
  text : w t.text = w t'.text
  folded : Text.folded t.text = Text.folded t'.text
  raised : ∀ verb, w (verb ++ " " ++ Text.raised t.text) = w (verb ++ " " ++ Text.raised t'.text)
  name : t.name?.map w = t'.name?.map w
  integer : t.integer? = t'.integer?
  real : t.real? = t'.real?
  chars : ∀ escapes, (t.chars? escapes).map w = (t'.chars? escapes).map w
  national : t.isNational = t'.isNational

/-- Two cursors at tokens that are alike. -/
structure Cursor.Alike (c c' : Cursor) : Prop where
  current : c.current.Alike w c'.current
  ahead : List.Forall₂ (Token.Alike w) c.ahead c'.ahead
  failure : c.failure = c'.failure
  lastEnd : c.lastEnd = c'.lastEnd

/-- Two readings that stand at tokens that are alike, and have counted and found
alike. -/
structure Reading.Alike (r r' : Reading) : Prop where
  cursor : r.cursor.Alike w r'.cursor
  parameters : r.draft.parameters = r'.draft.parameters
  subqueries : r.draft.subqueries.map (Query.outline w) = r'.draft.subqueries.map (Query.outline w)
  nesting : r.nesting = r'.nesting
  passages : r.passages = r'.passages

/-- A cause in other words. -/
def GrammarCause.outline : GrammarCause → GrammarCause
  | .expected what found => .expected what (found.map w)
  | .unsupported what => .unsupported (w what)
  | cause => cause

/-- A fault in other words. -/
def Fault.outline : Fault → Fault
  | .grammar offset cause => .grammar offset (cause.outline w)
  | f => f

/-- Two values that `f` does not tell apart. -/
def Same {α β : Type} (f : α → β) (a a' : α) : Prop := f a = f a'

theorem Same.eq {α β : Type} {f : α → β} {a a' : α} (h : Same f a a') : f a = f a' := h

theorem Same.snoc {α β : Type} {f : α → β} {as as' : List α} (h : Same (List.map f) as as')
    {a a' : α} (ha : Same f a a') : Same (List.map f) (as ++ [a]) (as' ++ [a']) := by
  rw [Same, List.map_append, List.map_append, h, List.map_singleton, List.map_singleton, ha]

/-- The two settings differ only in the catalogue and in words that `w` does not tell
apart. -/
structure Setting.Twin (env env' : Setting) : Prop where
  dialect : env.dialect = env'.dialect
  limit : env.limit = env'.limit
  text : ∀ start stop,
    w (Reader.sourceText env start stop) = w (Reader.sourceText env' start stop)

/-- Two steps on a cursor that agree. -/
def Cursor.Agree {α : Type} (R : α → α → Prop) (m m' : Cursor.Action α) : Prop :=
  SqlMarkers.Agree (Same (Fault.outline w)) (Cursor.Alike w) R m m'

/-- Two readers that agree. -/
def Reader.Agree {α : Type} (R : α → α → Prop) (m m' : Reader α) : Prop :=
  SqlMarkers.Agree (Same (Fault.outline w)) (Reading.Alike w) R m m'

/-- Two towers of nested readers that agree. -/
structure Inner.Agree (inner inner' : Inner) : Prop where
  query : Reader.Agree w (Same (Query.outline w)) inner.query inner'.query
  operand : Reader.Agree w Eq inner.operand inner'.operand
  predicate : Reader.Agree w (Same (Predicate.outline w)) inner.predicate inner'.predicate
  group : Reader.Agree w (Same (List.map (Condition.outline w))) inner.group inner'.group
  sources : Reader.Agree w (Same (List.map (TableSource.outline w))) inner.sources inner'.sources

end Alike

/-! ## Steps on a cursor -/

theorem forall₂_getElem? {α β : Type} {R : α → β → Prop} {as : List α} {bs : List β}
    (h : List.Forall₂ R as bs) (i : Nat) : Option.Rel R as[i]? bs[i]? := by
  induction h generalizing i with
  | nil => exact .none
  | cons hab _ ih =>
      cases i with
      | zero => exact .some hab
      | succ i => exact ih i

/-- Lists that are the same to `f`, element by element. -/
theorem forall₂_of_map_eq {α β : Type} {f : α → β} {R : α → α → Prop} {as bs : List α}
    (h : as.map f = bs.map f) (hR : ∀ a ∈ as, ∀ b ∈ bs, f a = f b → R a b) :
    List.Forall₂ R as bs := by
  induction as generalizing bs with
  | nil =>
      obtain rfl := List.map_eq_nil_iff.1 h.symm
      exact .nil
  | cons a as ih =>
      obtain ⟨b, bs, rfl, hb, hbs⟩ := List.map_eq_cons_iff.1 h.symm
      refine .cons (hR a (by simp) b (by simp) hb.symm) (ih hbs.symm fun a' ha' b' hb' => ?_)
      exact hR a' (List.mem_cons_of_mem _ ha') b' (List.mem_cons_of_mem _ hb')

section Token

variable {w : String → String} {t t' : Token}

theorem Token.Alike.isKeyword (h : t.Alike w t') (k : Keyword) : t.isKeyword k = t'.isKeyword k := by
  rw [Token.isKeyword, h.kind, Token.isKeyword]

theorem Token.Alike.isSymbol (h : t.Alike w t') (s : Symbol) : t.isSymbol s = t'.isSymbol s := by
  rw [Token.isSymbol, h.kind, Token.isSymbol]

theorem Token.Alike.isEnd (h : t.Alike w t') : t.isEnd = t'.isEnd := by
  rw [Token.isEnd, h.kind, Token.isEnd]

theorem Token.Alike.isName (h : t.Alike w t') : t.isName = t'.isName := by
  rw [Token.isName, h.kind, Token.isName]

theorem Token.Alike.isAnyKeyword (h : t.Alike w t') : t.isAnyKeyword = t'.isAnyKeyword := by
  rw [Token.isAnyKeyword, h.kind, Token.isAnyKeyword]

theorem Text.sameWord_congr {a b : String} (h : folded a = folded b) (word : String) :
    sameWord a word = sameWord b word := by
  rw [sameWord, String.ofList_injective h, sameWord]

theorem Token.Alike.isWord (h : t.Alike w t') (word : String) : t.isWord word = t'.isWord word := by
  rw [Token.isWord, h.kind, Text.sameWord_congr h.folded, Token.isWord]

end Token

namespace Counter

variable {w : String → String} {σ : Type} {S : σ → σ → Prop}

theorem up_agrees (n : Nat) : Agree (Same (Fault.outline w)) S Eq (up n) (up n) := by
  unfold up
  split
  · exact .pure rfl
  · exact .throw rfl

theorem down_agrees (n : Nat) : Agree (Same (Fault.outline w)) S Eq (down n) (down n) := by
  unfold down
  split
  · exact .pure rfl
  · exact .throw rfl

end Counter

namespace Cursor

variable {w : String → String} {c c' : Cursor}

theorem Alike.rest (h : c.Alike w c') :
    List.Forall₂ (Token.Alike w) (c.current :: c.ahead) (c'.current :: c'.ahead) :=
  .cons h.current h.ahead

theorem Alike.remaining (h : c.Alike w c') : c.remaining = c'.remaining := h.ahead.length_eq

theorem next_agrees : Cursor.Agree w Eq next next := by
  rintro ⟨t, ts, failure, lastEnd⟩ ⟨t', ts', failure', lastEnd'⟩ ⟨ht, hts, rfl, -⟩
  have hstop : t.span.stop = t'.span.stop := by rw [ht.span]
  cases hts with
  | cons hhead htail => exact .ok rfl ⟨hhead, htail, rfl, hstop⟩
  | nil =>
      cases failure with
      | some f => exact .error rfl ⟨ht, .nil, rfl, hstop⟩
      | none => exact .ok rfl ⟨ht, .nil, rfl, hstop⟩

theorem getLastD_alike {ts ts' : List Token} (h : List.Forall₂ (Token.Alike w) ts ts')
    {t t' : Token} (ht : t.Alike w t') : (ts.getLastD t).Alike w (ts'.getLastD t') := by
  induction h generalizing t t' with
  | nil => exact ht
  | cons hhead _ ih =>
      rw [List.getLastD_cons, List.getLastD_cons]
      exact ih hhead

theorem peekNth_agrees (n : Nat) : Cursor.Agree w (Token.Alike w) (peekNth n) (peekNth n) := by
  intro c c' hc
  have hat := forall₂_getElem? hc.rest n
  unfold peekNth lookAhead
  rw [hc.failure]
  revert hat
  generalize (c.current :: c.ahead)[n]? = x
  generalize (c'.current :: c'.ahead)[n]? = x'
  rintro (ht | _)
  · exact .ok ht hc
  · cases c'.failure with
    | some f => exact .error rfl hc
    | none => exact .ok (getLastD_alike hc.ahead hc.current) hc

theorem get_agrees : Cursor.Agree w (Cursor.Alike w) get get := fun _ _ hc => .ok hc hc

theorem failExpected_agrees {α : Type} {R : α → α → Prop} (what : String) :
    Cursor.Agree w R (failExpected what) (failExpected what) := by
  intro c c' hc
  refine .error ?_ hc
  have hfound : (if c.current.isEnd then none else some c.current.text).map w =
      (if c'.current.isEnd then none else some c'.current.text).map w := by
    rw [hc.current.isEnd]
    split
    · rfl
    · exact congrArg some hc.current.text
  simp only [Same, unexpected, fault, Fault.outline, GrammarCause.outline, hfound, hc.current.span]

theorem repeatStep_agrees {α β : Type} {B : β → β → Prop} {R : α → α → Prop}
    {step step' : β → Action (Round β α)}
    (hstep : ∀ b b', B b b' → Cursor.Agree w (Round.Alike B R) (step b) (step' b')) {b b' : β}
    (hb : B b b') :
    Cursor.Agree w R (repeatStep remaining .stalled step b)
      (repeatStep remaining .stalled step' b') :=
  Agree.repeatStep (E := Same (Fault.outline w)) (S := Cursor.Alike w)
    (fun _ _ hc => hc.remaining) rfl hstep hb

theorem skipOneOf_agrees (kinds : List Kind) :
    Cursor.Agree w Eq (skipOneOf kinds) (skipOneOf kinds) := by
  refine get_agrees.bind fun c c' hc => ?_
  rw [isOneOf, hc.current.kind, isOneOf]
  split
  · exact next_agrees.bind fun _ _ _ => .pure rfl
  · exact .pure rfl

theorem skipWhile_agrees (kinds : List Kind) :
    Cursor.Agree w Eq (skipWhile kinds) (skipWhile kinds) := by
  refine repeatStep_agrees (B := Eq) ?_ rfl
  rintro _ _ rfl
  refine (skipOneOf_agrees kinds).bind ?_
  rintro b _ rfl
  split
  · exact .pure (.again rfl)
  · exact .pure (.stop rfl)

theorem accept_agrees (kind : Kind) :
    Cursor.Agree w (Token.Alike w) (accept kind) (accept kind) := by
  refine get_agrees.bind fun c c' hc => ?_
  dsimp only
  rw [hc.current.kind]
  split
  · exact next_agrees.bind fun _ _ _ => .pure hc.current
  · exact failExpected_agrees _

theorem up_agrees (n : Nat) : Cursor.Agree w Eq (Counter.up n) (Counter.up n) :=
  Counter.up_agrees n

theorem down_agrees (n : Nat) : Cursor.Agree w Eq (Counter.down n) (Counter.down n) :=
  Counter.down_agrees n

theorem skipParentheses_agrees :
    Cursor.Agree w Eq skipParentheses skipParentheses := by
  refine (accept_agrees _).bind fun opening opening' hopening => ?_
  refine repeatStep_agrees (B := Eq) ?_ rfl
  rintro ⟨depth, placeholders⟩ _ rfl
  have hmove : ∀ again, Cursor.Agree w (Round.Alike Eq Eq)
      (do next; return .again again : Action (Round (Nat × Nat) Skipped))
      (do next; return .again again) :=
    fun again => next_agrees.bind fun _ _ _ => .pure (.again rfl)
  dsimp only
  split
  · refine get_agrees.bind fun c c' hc => .pure (.stop ?_)
    rw [hopening.span, hc.lastEnd]
  · refine get_agrees.bind fun c c' hc => ?_
    rw [hc.current.kind, hopening.span]
    split
    · exact .throw rfl
    · refine (up_agrees _).bind ?_
      rintro _ _ rfl
      exact hmove _
    · refine (down_agrees _).bind ?_
      rintro _ _ rfl
      exact hmove _
    · refine (up_agrees _).bind ?_
      rintro _ _ rfl
      exact hmove _
    · exact hmove _

end Cursor

/-! ## Steps of every reader -/

namespace Reader

variable {w : String → String} {α β : Type} {R : α → α → Prop} {t t' : Token} {env env' : Setting}

/-- Steps on the cursor leave the rest of the reading alone. -/
theorem onCursor_agrees {m m' : Cursor.Action α} (h : Cursor.Agree w R m m') :
    Reader.Agree w R (onCursor m) (onCursor m') := by
  intro r r' hr
  have hm := h r.cursor r'.cursor hr.cursor
  unfold onCursor
  revert hm
  generalize m r.cursor = x
  generalize m' r'.cursor = x'
  rintro (⟨hresult, hc⟩ | ⟨hfault, hc⟩)
  · exact .ok hresult ⟨hc, hr.parameters, hr.subqueries, hr.nesting, hr.passages⟩
  · exact .error hfault ⟨hc, hr.parameters, hr.subqueries, hr.nesting, hr.passages⟩

theorem get_agrees : Reader.Agree w (Reading.Alike w) get get := fun _ _ hr => .ok hr hr

/-- A look at the current token leaves the reading as it is. -/
theorem current_bind {r : Reading} (k : Token → Reader α) :
    (current >>= k) r = k r.cursor.current r := rfl

theorem current_agrees : Reader.Agree w (Token.Alike w) current current :=
  fun _ _ hr => .ok hr.cursor.current hr

theorem lastEnd_agrees : Reader.Agree w Eq lastEnd lastEnd :=
  fun _ _ hr => .ok hr.cursor.lastEnd hr

theorem here_agrees : Reader.Agree w Eq here here :=
  fun _ _ hr => .ok (congrArg Span.start hr.cursor.current.span) hr

theorem next_agrees : Reader.Agree w Eq next next := onCursor_agrees Cursor.next_agrees

theorem peekNth_agrees (n : Nat) : Reader.Agree w (Token.Alike w) (peekNth n) (peekNth n) :=
  onCursor_agrees (Cursor.peekNth_agrees n)

theorem peek_agrees : Reader.Agree w (Token.Alike w) peek peek := peekNth_agrees 1

theorem atKeyword_agrees (k : Keyword) : Reader.Agree w Eq (atKeyword k) (atKeyword k) :=
  current_agrees.bind fun _ _ ht => .pure (ht.isKeyword k)

/-- A look at a keyword and the token behind it. -/
theorem peekBehind_agrees {k : Keyword} {p : Token → Bool}
    (hp : ∀ t t', t.Alike w t' → p t = p t') {f f' : Bool → Reader α}
    (hf : ∀ found, Reader.Agree w R (f found) (f' found)) :
    Reader.Agree w R
      (do
        if ← atKeyword k then do
          let t ← peek
          let found ← pure (p t)
          f found
        else do
          let found ← pure false
          f found)
      (do
        if ← atKeyword k then do
          let t ← peek
          let found ← pure (p t)
          f' found
        else do
          let found ← pure false
          f' found) := by
  refine (atKeyword_agrees k).bind ?_
  rintro present _ rfl
  split
  · refine peek_agrees.bind fun t t' ht => ?_
    rw [hp t t' ht]
    exact hf (p t')
  · exact hf false

theorem atSymbol_agrees (s : Symbol) : Reader.Agree w Eq (atSymbol s) (atSymbol s) :=
  current_agrees.bind fun _ _ ht => .pure (ht.isSymbol s)

theorem skipKeyword_agrees (k : Keyword) : Reader.Agree w Eq (skipKeyword k) (skipKeyword k) :=
  onCursor_agrees (Cursor.skipOneOf_agrees _)

theorem skipAnyOf_agrees (ks : List Keyword) : Reader.Agree w Eq (skipAnyOf ks) (skipAnyOf ks) :=
  onCursor_agrees (Cursor.skipOneOf_agrees _)

theorem skipSymbol_agrees (s : Symbol) : Reader.Agree w Eq (skipSymbol s) (skipSymbol s) :=
  onCursor_agrees (Cursor.skipOneOf_agrees _)

theorem skipKeywords_agrees (ks : List Keyword) :
    Reader.Agree w Eq (skipKeywords ks) (skipKeywords ks) :=
  onCursor_agrees (Cursor.skipWhile_agrees _)

theorem acceptKeyword_agrees (k : Keyword) :
    Reader.Agree w (Token.Alike w) (acceptKeyword k) (acceptKeyword k) :=
  onCursor_agrees (Cursor.accept_agrees _)

theorem acceptSymbol_agrees (s : Symbol) :
    Reader.Agree w (Token.Alike w) (acceptSymbol s) (acceptSymbol s) :=
  onCursor_agrees (Cursor.accept_agrees _)

theorem failExpected_agrees (what : String) :
    Reader.Agree w R (failExpected what) (failExpected what) :=
  onCursor_agrees (Cursor.failExpected_agrees what)

theorem failAt_agrees (offset : Nat) (cause : GrammarCause) :
    Reader.Agree w R (failAt offset cause) (failAt offset cause) := .throw rfl

theorem failHere_agrees {cause cause' : GrammarCause} (h : cause.outline w = cause'.outline w) :
    Reader.Agree w R (failHere cause) (failHere cause') := by
  refine get_agrees.bind fun r r' hr => .throw ?_
  simp only [Same, Cursor.fault, Fault.outline, h, hr.cursor.current.span]

/-- A check that fails if something else had to come. -/
theorem failUnless_agrees {c : Bool} {what : String} {k k' : Reader α}
    (hk : Reader.Agree w R k k') :
    Reader.Agree w R (if c then do failExpected (α := PUnit) what; k else k)
      (if c then do failExpected (α := PUnit) what; k' else k') := by
  split
  · exact (failExpected_agrees (R := Eq) what).bind fun _ _ _ => hk
  · exact hk

theorem recordPassage_agrees (kind : Passage.Kind) (span : Span) :
    Reader.Agree w Eq (recordPassage kind span) (recordPassage kind span) :=
  fun _ _ hr => .ok rfl ⟨hr.cursor, hr.parameters, hr.subqueries, hr.nesting,
    congrArg (⟨kind, span⟩ :: ·) hr.passages⟩

theorem passParentheses_agrees : Reader.Agree w Eq passParentheses passParentheses := by
  refine (onCursor_agrees Cursor.skipParentheses_agrees).bind ?_
  rintro skipped _ rfl
  exact recordPassage_agrees _ _

theorem repeating_agrees {B : β → β → Prop} {step step' : β → Reader (Round β α)}
    (hstep : ∀ b b', B b b' → Reader.Agree w (Round.Alike B R) (step b) (step' b')) {b b' : β}
    (hb : B b b') : Reader.Agree w R (repeating step b) (repeating step' b') :=
  Agree.repeatStep (E := Same (Fault.outline w)) (S := Reading.Alike w)
    (fun _ _ hr => hr.cursor.remaining) rfl hstep hb

/-- Entries that agree give lists that do. -/
theorem commaSeparated_agrees {f : α → β} {entry entry' : Reader α}
    (hentry : Reader.Agree w (Same f) entry entry') :
    Reader.Agree w (Same (List.map f)) (commaSeparated entry) (commaSeparated entry') := by
  refine repeating_agrees (B := Same (List.map f)) (fun done done' hdone => ?_) rfl
  refine hentry.bind fun a a' ha => ?_
  have hsnoc := hdone.snoc ha
  refine (skipSymbol_agrees _).bind ?_
  rintro b _ rfl
  split
  · exact .pure (.again hsnoc)
  · exact .pure (.stop hsnoc)

theorem close_agrees {opening opening' : Token} (h : opening.Alike w opening') :
    Reader.Agree w Eq (close opening) (close opening') := by
  refine (skipSymbol_agrees _).bind ?_
  rintro b _ rfl
  split
  · exact .pure rfl
  · refine current_agrees.bind fun t t' ht => ?_
    rw [ht.isEnd, h.span]
    split
    · exact failAt_agrees _ _
    · exact failExpected_agrees _

/-! ### The scope -/

theorem modifyDraft_agrees {f f' : Draft → Draft}
    (hf : ∀ d d', d.parameters = d'.parameters →
      d.subqueries.map (Query.outline w) = d'.subqueries.map (Query.outline w) →
      (f d).parameters = (f' d').parameters ∧
        (f d).subqueries.map (Query.outline w) = (f' d').subqueries.map (Query.outline w)) :
    Reader.Agree w Eq (modifyDraft f) (modifyDraft f') := by
  intro r r' hr
  obtain ⟨hparameters, hsubqueries⟩ := hf r.draft r'.draft hr.parameters hr.subqueries
  exact .ok rfl ⟨hr.cursor, hparameters, hsubqueries, hr.nesting, hr.passages⟩

theorem up_agrees (n : Nat) : Reader.Agree w Eq (Counter.up n) (Counter.up n) :=
  Counter.up_agrees n

theorem down_agrees (n : Nat) : Reader.Agree w Eq (Counter.down n) (Counter.down n) :=
  Counter.down_agrees n

theorem nextParameter_agrees : Reader.Agree w Eq nextParameter nextParameter := by
  refine get_agrees.bind fun r r' hr => ?_
  rw [hr.parameters]
  refine (up_agrees _).bind ?_
  rintro count _ rfl
  have hcount : Reader.Agree w Eq (modifyDraft fun d => { d with parameters := count })
      (modifyDraft fun d => { d with parameters := count }) :=
    modifyDraft_agrees fun _ _ _ hsub => ⟨rfl, hsub⟩
  exact hcount.bind fun _ _ _ => .pure rfl

theorem nameOf_agrees (h : t.Alike w t') : Reader.Agree w (Same w) (nameOf t) (nameOf t') := by
  have hname := h.name
  unfold nameOf
  revert hname
  cases t.name? <;> cases t'.name? <;> intro hname
  · exact .throw rfl
  · cases hname
  · cases hname
  · exact .pure (Option.some.inj hname)

theorem noteOwner_agrees (h : t.Alike w t') : Reader.Agree w Eq (noteOwner t) (noteOwner t') :=
  (nameOf_agrees h).bind fun _ _ _ => modifyDraft_agrees fun _ _ hparam hsub => ⟨hparam, hsub⟩

theorem consume_agrees : Reader.Agree w Eq consume consume := by
  refine current_agrees.bind fun t t' ht => ?_
  have hmove : Reader.Agree w Eq
      (do next; if t.isName && (← atSymbol .dot) then noteOwner t)
      (do next; if t'.isName && (← atSymbol .dot) then noteOwner t') := by
    refine next_agrees.bind fun _ _ _ => (atSymbol_agrees _).bind ?_
    rintro dot _ rfl
    rw [ht.isName]
    split
    · exact noteOwner_agrees ht
    · exact .pure rfl
  rw [ht.isSymbol]
  split
  · exact nextParameter_agrees.bind fun _ _ _ => hmove
  · exact hmove

/-! ### Source text -/

theorem verbatimFrom_agrees (h : env.Twin w env') (start : Nat) :
    Reader.Agree w (Same (Expr.outline w)) (verbatimFrom env start) (verbatimFrom env' start) := by
  refine lastEnd_agrees.bind ?_
  rintro stop _ rfl
  refine .pure ?_
  rw [Same, Expr.outline, Expr.outline, h.text]

theorem isRegexp_congr (h : env.Twin w env') (ht : t.Alike w t') :
    isRegexp env t = isRegexp env' t' := by
  rw [isRegexp, h.dialect, Token.isRegexp, ht.isWord, ht.isWord, isRegexp, Token.isRegexp]

end Reader

/-! ## Nesting -/

theorem Reading.Alike.onLevel {w : String → String} {r r' : Reading} (h : r.Alike w r')
    {s s' : Nesting} (hs : s = s') :
    Reading.Alike w { r with nesting := s } { r' with nesting := s' } :=
  ⟨h.cursor, h.parameters, h.subqueries, hs, h.passages⟩

namespace Reader

variable {w : String → String} {α : Type} {R : α → α → Prop} {env env' : Setting}

theorem refuseNesting_agrees (h : env.Twin w env') :
    Reader.Agree w R (refuseNesting env) (refuseNesting env') := by
  intro r r' hr
  refine .error ?_ (hr.onLevel (by rw [hr.nesting]))
  simp only [Same, Cursor.fault, Fault.outline, h.limit, hr.cursor.current.span]

/-- What is nested agrees one level deeper, and both readers come back. -/
theorem nested_agrees (h : env.Twin w env') {m m' : Reader α} (hm : Reader.Agree w R m m') :
    Reader.Agree w R (nested env m) (nested env' m') := by
  intro r r' hr
  have hbody := hm r.deeper r'.deeper (hr.onLevel (by rw [hr.nesting]))
  unfold nested
  rw [h.limit, hr.nesting]
  split
  · exact refuseNesting_agrees h r r' hr
  · revert hbody
    generalize m r.deeper = x
    generalize m' r'.deeper = x'
    rintro (⟨hresult, hstate⟩ | ⟨hfault, hstate⟩)
    · exact .ok hresult (hstate.onLevel (by rw [hstate.nesting]))
    · exact .error hfault (hstate.onLevel (by rw [hstate.nesting]))

end Reader

/-! ## Nested queries -/

theorem Query.parameters_of_outline {w : String → String} {q q' : Query}
    (h : q.outline w = q'.outline w) : q.scope.parameters = q'.scope.parameters := by
  rw [Query.outline_eq, Query.outline_eq] at h
  exact congrArg (fun q => q.scope.parameters) h

/-- A nested query is read from an empty scope, and hands on its count. -/
theorem Inner.Agree.embed {w : String → String} {inner inner' : Inner}
    (h : inner.Agree w inner') :
    Reader.Agree w (Same (Query.outline w)) inner.embed inner'.embed := by
  intro r r' hr
  have hq := h.query { r with draft := Draft.startingAt r.draft.parameters }
    { r' with draft := Draft.startingAt r'.draft.parameters }
    ⟨hr.cursor, hr.parameters, rfl, hr.nesting, hr.passages⟩
  unfold Inner.embed
  revert hq
  generalize inner.query _ = x
  generalize inner'.query _ = x'
  rintro (⟨hresult, hstate⟩ | ⟨hfault, hstate⟩)
  · exact .ok hresult ⟨hstate.cursor, Query.parameters_of_outline hresult, hr.subqueries,
      hstate.nesting, hstate.passages⟩
  · exact .error hfault hstate

end SqlMarkers
