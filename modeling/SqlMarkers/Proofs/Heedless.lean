/-
SqlMarkers.Proofs.Heedless — what no reader looks at.

Two readings are apart by `D` (`Reading.Apart D`) when they stand at the same token,
on the same level, and `D` relates what they gathered; the passages behind them may be
any. A reader is heedless of `D` when from readings that are apart by `D` it ends
alike: with the same result or the same fault, in readings that are apart by `D`.

`Draft.Link D` collects what `D` has to keep. Two relations of this kind matter.
Equality, where only the passages differ: every reader of a query is heedless of it
(`SqlMarkers.Proofs.Heedless.Query`). And `Draft.Abreast`, where the owners, the
tables and the markers differ as well: the readers of operands are heedless of it,
since a query among the operands is read from an empty scope.

The rules are tagged for `grind`, which goes through the steps of a reader with them.
-/
import SqlMarkers.Proofs.Agreement

namespace SqlMarkers

/-- A relation between scopes that is kept when both go on alike. -/
structure Draft.Link (D : Draft → Draft → Prop) : Prop where
  refl (d : Draft) : D d d
  parameters {d d' : Draft} : D d d' → d.parameters = d'.parameters
  count {d d' : Draft} (n : Nat) : D d d' → D { d with parameters := n } { d' with parameters := n }
  attach {d d' : Draft} (q : Query) : D d d' →
    D { d with subqueries := d.subqueries ++ [q] } { d' with subqueries := d'.subqueries ++ [q] }
  note {d d' : Draft} (os : List Owner) : D d d' →
    D { d with owners := d.owners ++ os } { d' with owners := d'.owners ++ os }

/-- The two scopes have counted the same `?` and found the same queries. -/
structure Draft.Abreast (d d' : Draft) : Prop where
  parameters : d.parameters = d'.parameters
  subqueries : d.subqueries = d'.subqueries

@[grind .]
theorem Draft.link_eq : Draft.Link Eq := by
  constructor <;> grind

theorem Draft.link_abreast : Draft.Link Draft.Abreast where
  refl _ := ⟨rfl, rfl⟩
  parameters h := h.parameters
  count _ h := ⟨rfl, h.subqueries⟩
  attach q h := ⟨h.parameters, congrArg (· ++ [q]) h.subqueries⟩
  note _ h := ⟨h.parameters, h.subqueries⟩

/-- The two readings differ in their passages and in what `D` leaves open. -/
structure Reading.Apart (D : Draft → Draft → Prop) (r r' : Reading) : Prop where
  cursor : r.cursor = r'.cursor
  nesting : r.nesting = r'.nesting
  draft : D r.draft r'.draft

theorem Reading.Apart.onLevel {D : Draft → Draft → Prop} {r r' : Reading} (h : r.Apart D r')
    {s s' : Nesting} (hs : s = s') :
    Reading.Apart D { r with nesting := s } { r' with nesting := s' } :=
  ⟨h.cursor, hs, h.draft⟩

namespace Reader

variable {D : Draft → Draft → Prop} {α β : Type}

/-- From readings that are apart by `D` the reader ends alike, in readings that are. -/
def Heedless (D : Draft → Draft → Prop) (m : Reader α) : Prop :=
  SqlMarkers.Agree Eq (Reading.Apart D) Eq m m

/-! ## Sequences and repetitions -/

namespace Heedless

@[grind ←]
theorem pure (a : α) : Heedless D (Pure.pure a) := fun _ _ hr => .ok rfl hr

@[grind ←]
theorem throw (f : Fault) : Heedless D (MonadExcept.throw f : Reader α) :=
  fun _ _ hr => .error rfl hr

@[grind ←]
theorem bind {m : Reader α} {f : α → Reader β} (h : Heedless D m) (hf : ∀ a, Heedless D (f a)) :
    Heedless D (m >>= f) :=
  Agree.bind (R := Eq) h fun a _ ha => ha ▸ hf a

theorem round_alike {x x' : Round β α} (h : x = x') : Round.Alike Eq Eq x x' := by
  subst h
  cases x with
  | again b => exact .again rfl
  | stop a => exact .stop rfl

@[grind ←]
theorem repeating {step : β → Reader (Round β α)} (h : ∀ b, Heedless D (step b)) (b : β) :
    Heedless D (repeating step b) := by
  refine Agree.repeatStep (E := Eq) (S := Reading.Apart D) (B := Eq)
    (fun _ _ hr => by rw [hr.cursor]) rfl ?_ rfl
  rintro b _ rfl r r' hr
  have hb := h b r r' hr
  revert hb
  generalize step b r = x
  generalize step b r' = x'
  rintro (⟨hround, hs⟩ | ⟨hfault, hs⟩)
  · exact .ok (round_alike hround) hs
  · exact .error hfault hs

@[grind ←]
theorem onCursor (m : Cursor.Action α) : Heedless D (onCursor m) := by
  intro r r' hr
  unfold Reader.onCursor
  rw [hr.cursor]
  split
  · exact .ok rfl ⟨rfl, hr.nesting, hr.draft⟩
  · exact .error rfl ⟨rfl, hr.nesting, hr.draft⟩

theorem modifyDraft {f : Draft → Draft} (hf : ∀ d d', D d d' → D (f d) (f d')) :
    Heedless D (modifyDraft f) :=
  fun _ _ hr => .ok rfl ⟨hr.cursor, hr.nesting, hf _ _ hr.draft⟩

/-- What the cursor decides. -/
theorem getCursor {f : Cursor → Reader α} (hf : ∀ c, Heedless D (f c)) :
    Heedless D (get >>= fun r => f r.cursor) := by
  intro r r' hr
  show Outcomes _ _ _ (f r.cursor r) (f r'.cursor r')
  rw [hr.cursor]
  exact hf _ r r' hr

/-- What the scope decides, where `D` leaves nothing open. -/
theorem getDraft {f : Draft → Reader α} (hf : ∀ d, Heedless Eq (f d)) :
    Heedless Eq (get >>= fun r => f r.draft) := by
  intro r r' hr
  show Outcomes _ _ _ (f r.draft r) (f r'.draft r')
  rw [hr.draft]
  exact hf _ r r' hr

end Heedless

/-! ## Steps of every reader -/

@[grind ←]
theorem current_heedless : Heedless D current := .getCursor fun c => .pure c.current

@[grind ←]
theorem lastEnd_heedless : Heedless D lastEnd := .getCursor fun c => .pure c.lastEnd

@[grind ←]
theorem here_heedless : Heedless D here := .bind current_heedless fun t => .pure t.span.start

@[grind ←]
theorem next_heedless : Heedless D next := .onCursor _

@[grind ←]
theorem peekNth_heedless (n : Nat) : Heedless D (peekNth n) := .onCursor _

@[grind ←]
theorem peek_heedless : Heedless D peek := .onCursor _

@[grind ←]
theorem atKeyword_heedless (k : Keyword) : Heedless D (atKeyword k) :=
  .bind current_heedless fun _ => .pure _

@[grind ←]
theorem atSymbol_heedless (s : Symbol) : Heedless D (atSymbol s) :=
  .bind current_heedless fun _ => .pure _

@[grind ←]
theorem skipKeyword_heedless (k : Keyword) : Heedless D (skipKeyword k) := .onCursor _

@[grind ←]
theorem skipAnyOf_heedless (ks : List Keyword) : Heedless D (skipAnyOf ks) := .onCursor _

@[grind ←]
theorem skipSymbol_heedless (s : Symbol) : Heedless D (skipSymbol s) := .onCursor _

@[grind ←]
theorem skipKeywords_heedless (ks : List Keyword) : Heedless D (skipKeywords ks) := .onCursor _

@[grind ←]
theorem acceptKeyword_heedless (k : Keyword) : Heedless D (acceptKeyword k) := .onCursor _

@[grind ←]
theorem acceptSymbol_heedless (s : Symbol) : Heedless D (acceptSymbol s) := .onCursor _

@[grind ←]
theorem failExpected_heedless (what : String) : Heedless D (failExpected what : Reader α) :=
  .onCursor _

@[grind ←]
theorem failHere_heedless (cause : GrammarCause) : Heedless D (failHere cause : Reader α) :=
  .getCursor fun c => .throw (c.fault cause)

@[grind ←]
theorem failAt_heedless (offset : Nat) (cause : GrammarCause) :
    Heedless D (failAt offset cause : Reader α) := .throw _

@[grind ←]
theorem recordPassage_heedless (kind : Passage.Kind) (span : Span) :
    Heedless D (recordPassage kind span) :=
  fun _ _ hr => .ok rfl ⟨hr.cursor, hr.nesting, hr.draft⟩

@[grind ←]
theorem passParentheses_heedless : Heedless D passParentheses :=
  .bind (.onCursor _) fun skipped => recordPassage_heedless .hint skipped.span

@[grind ←]
theorem commaSeparated_heedless {entry : Reader α} (h : Heedless D entry) :
    Heedless D (commaSeparated entry) := by
  grind [commaSeparated]

@[grind ←]
theorem close_heedless (opening : Token) : Heedless D (close opening) := by
  grind [close]

@[grind ←]
theorem up_heedless (n : Nat) : Heedless D (Counter.up n : Reader Nat) := by
  grind [Counter.up]

@[grind ←]
theorem down_heedless (n : Nat) : Heedless D (Counter.down n : Reader Nat) := by
  grind [Counter.down]

@[grind ←]
theorem nameOf_heedless (t : Token) : Heedless D (nameOf t) := by
  grind [nameOf]

@[grind ←]
theorem verbatimFrom_heedless (env : Setting) (start : Nat) :
    Heedless D (verbatimFrom env start) := by
  grind [verbatimFrom]

@[grind ←]
theorem nextParameter_heedless (hD : Draft.Link D) : Heedless D nextParameter := by
  have hcount : ∀ index : Nat, Heedless D (do
      let count ← Counter.up index
      modifyDraft fun d => { d with parameters := count }
      return index) :=
    fun index => .bind (up_heedless index) fun count =>
      .bind (.modifyDraft fun _ _ => hD.count count) fun _ => .pure index
  intro r r' hr
  have hrun := hcount r.draft.parameters r r' hr
  rw [show nextParameter r' = (do
    let count ← Counter.up r.draft.parameters
    modifyDraft fun d => { d with parameters := count }
    return r.draft.parameters) r' by rw [hD.parameters hr.draft]; rfl]
  exact hrun

@[grind ←]
theorem noteOwner_heedless (hD : Draft.Link D) (t : Token) : Heedless D (noteOwner t) :=
  .bind (nameOf_heedless t) fun _ => .modifyDraft fun _ _ => hD.note _

@[grind ←]
theorem consume_heedless (hD : Draft.Link D) : Heedless D consume := by
  grind [consume]

/-! ## Nesting -/

@[grind ←]
theorem refuseNesting_heedless (env : Setting) : Heedless D (refuseNesting env : Reader α) := by
  intro r r' hr
  refine .error ?_ (hr.onLevel (by rw [hr.nesting]))
  rw [hr.cursor]

@[grind ←]
theorem nested_heedless (env : Setting) {m : Reader α} (hm : Heedless D m) :
    Heedless D (nested env m) := by
  intro r r' hr
  have hbody := hm r.deeper r'.deeper (hr.onLevel (by rw [hr.nesting]))
  unfold nested
  rw [hr.nesting]
  split
  · exact refuseNesting_heedless env r r' hr
  · revert hbody
    generalize m r.deeper = x
    generalize m r'.deeper = x'
    rintro (⟨hresult, hstate⟩ | ⟨hfault, hstate⟩)
    · exact .ok hresult (hstate.onLevel (by rw [hstate.nesting]))
    · exact .error hfault (hstate.onLevel (by rw [hstate.nesting]))

end Reader

/-- None of the nested readers looks at the passages, and what is left of a scope at an
operand is of no matter either. -/
structure Inner.Heedless (inner : Inner) : Prop where
  query : inner.query.Heedless Eq
  operand : ∀ {D}, Draft.Link D → inner.operand.Heedless D
  predicate : inner.predicate.Heedless Eq
  group : inner.group.Heedless Eq
  sources : inner.sources.Heedless Eq

section Operands

variable {D : Draft → Draft → Prop} {inner : Inner} (hin : inner.Heedless) (hD : Draft.Link D)
include hin hD

/-- A nested query is read from an empty scope, so it is the same query whatever the
scopes around it are. -/
@[grind ←]
theorem Inner.Heedless.embed : inner.embed.Heedless D := by
  intro r r' hr
  have hq := hin.query { r with draft := Draft.startingAt r.draft.parameters }
    { r' with draft := Draft.startingAt r'.draft.parameters }
    ⟨hr.cursor, hr.nesting, by rw [hD.parameters hr.draft]⟩
  unfold Inner.embed
  revert hq
  generalize inner.query _ = x
  generalize inner.query _ = x'
  rintro (@⟨q, _, s, s', rfl, hstate⟩ | ⟨hfault, hstate⟩)
  · refine .ok rfl ⟨hstate.cursor, hstate.nesting, ?_⟩
    dsimp only
    rw [hstate.draft]
    exact hD.note s'.draft.unresolved (hD.count q.scope.parameters hr.draft)
  · exact .error hfault ⟨hstate.cursor, hstate.nesting, hstate.draft ▸ hD.refl _⟩

/-! ## Operands -/

namespace Reader

@[grind ←]
theorem parentheses_heedless : Heedless D (parentheses inner) := by
  refine .bind (acceptSymbol_heedless _) fun opening => .repeating (fun depth => ?_) _
  have hquery : Heedless D (do
      let q ← inner.embed
      modifyDraft fun d => { d with subqueries := d.subqueries ++ [q] }
      return .again depth : Reader (Round Nat Span)) :=
    .bind (hin.embed hD) fun q => .bind (.modifyDraft fun _ _ => hD.attach q) fun _ => .pure _
  grind

@[grind ←]
theorem caseBlock_heedless : Heedless D (caseBlock inner) := by
  grind [caseBlock]

omit hin hD in
@[grind ←]
theorem atCall_heedless : Heedless D atCall := by
  grind [atCall]

omit hin hD in
@[grind ←]
theorem signs_heedless : Heedless D signs := by
  grind [signs]

@[grind ←]
theorem operand_heedless : Heedless D (operand inner) := by
  refine .bind signs_heedless fun _ => .bind current_heedless fun t => ?_
  have hoperand := hin.operand hD
  split <;> grind

@[grind ←]
theorem continuation_heedless : Heedless D (continuation inner) := by
  grind [continuation]

@[grind ←]
theorem fullOperand_heedless : Heedless D (fullOperand inner) := by
  grind [fullOperand]

end Reader

end Operands

end SqlMarkers
