/-
SqlMarkers.Proofs.Agreement.Statement — whole statements in twin settings.

The readers at the nesting limit all fail in the same way, and each level of
nesting agrees because the level below does (`Inner.upTo_agrees`). So two runs from
tokens that are alike end with the same outline and the same passages, or with
faults that are alike (`Setting.Twin.run`).

The outline of a statement shows of its scope what was counted and found, that is parameters
and nested queries, and neither tables nor markers (`outline_finish`). This is what makes the
catalogue invisible in it, although the scope is resolved with the catalogue at its end.
-/
import SqlMarkers.Proofs.Agreement.Clause

namespace SqlMarkers

namespace Reader

variable {w : String → String} {env env' : Setting} {inner inner' : Inner}

/-- A finished scope shows what was counted and found, and nothing else of it is
left in an outline. -/
theorem outline_finish {r r' : Reading} (hr : r.Alike w r') :
    r.draft.finish.outline w = r'.draft.finish.outline w := by
  simp only [Scope.outline, Draft.finish, Query.outlines_eq_map, hr.parameters, hr.subqueries]

/-! ## Queries -/

/-- `DISTINCT`, `DISTINCTROW` and `ALL` are told apart by their kinds. -/
theorem distinctness_agrees : Reader.Agree w Eq distinctness distinctness := by
  refine current_agrees.bind fun t t' ht => ?_
  rw [ht.kind]
  split
  · exact next_agrees.bind fun _ _ _ => .pure rfl
  · exact next_agrees.bind fun _ _ _ => .pure rfl
  · exact next_agrees.bind fun _ _ _ => .pure rfl
  · exact .pure rfl

/-- `NOWAIT` and `SKIP LOCKED` are no keywords but names that are compared without case; alike
tokens pass this comparison together. -/
theorem lockWait_agrees : Reader.Agree w Eq lockWait lockWait := by
  refine current_agrees.bind fun t t' ht => ?_
  rw [ht.isWord, ht.isWord]
  split
  · exact next_agrees
  · split
    · refine peek_agrees.bind fun u u' hu => ?_
      rw [hu.isWord]
      split
      · exact next_agrees.bind fun _ _ _ => next_agrees
      · exact .pure rfl
    · exact .pure rfl

/-- Locks are told by keywords and are equal. The text of `OPTION (...)` is cut out of two texts,
so it agrees in the words of `w` only. -/
theorem trailingOptions_agrees (h : env.Twin w env') :
    Reader.Agree w (Same (Prod.map id (Option.map w))) (trailingOptions env)
      (trailingOptions env') := by
  refine repeating_agrees (B := Same (Prod.map id (Option.map w))) ?_ rfl
  rintro ⟨lock, option⟩ ⟨lock', option'⟩ hsame
  obtain ⟨hlock, hoption⟩ := Prod.mk.inj hsame
  obtain rfl : lock = lock' := hlock
  refine current_agrees.bind fun t t' ht => ?_
  rw [ht.kind]
  split
  · refine next_agrees.bind fun _ _ _ => current_agrees.bind fun u u' hu => ?_
    extract_lets again again'
    have hagain : ∀ lock lock' : Lock, lock = lock' →
        Reader.Agree w (Round.Alike (Same (Prod.map id (Option.map w)))
          (Same (Prod.map id (Option.map w)))) (again lock) (again' lock') := by
      rintro lock _ rfl
      exact next_agrees.bind fun _ _ _ => lockWait_agrees.bind fun _ _ _ =>
        .pure (.again (Prod.ext rfl hoption))
    rw [hu.kind]
    split
    · exact hagain _ _ rfl
    · exact hagain _ _ rfl
    · exact (failExpected_agrees _).bind hagain
  · exact next_agrees.bind fun _ _ _ => (acceptKeyword_agrees _).bind fun _ _ _ =>
      (acceptKeyword_agrees _).bind fun _ _ _ => (acceptKeyword_agrees _).bind fun _ _ _ =>
        .pure (.again (Prod.ext rfl hoption))
  · refine peek_agrees.bind fun u u' hu => ?_
    rw [hu.isSymbol]
    split
    · refine next_agrees.bind fun _ _ _ => passParentheses_agrees.bind fun _ _ _ => ?_
      refine lastEnd_agrees.bind ?_
      rintro stop _ rfl
      refine .pure (.again (Prod.ext rfl ?_))
      simp only [Prod.map, Option.map_some, ht.span, h.text]
    · exact .pure (.stop (Prod.ext rfl hoption))
  · exact .pure (.stop (Prod.ext rfl hoption))

theorem refuseSetOperation_agrees : Reader.Agree w Eq refuseSetOperation refuseSetOperation := by
  refine current_agrees.bind fun t t' ht => ?_
  rw [ht.kind]
  split
  · exact failHere_agrees rfl
  · exact failHere_agrees rfl
  · exact failHere_agrees rfl
  · exact .pure rfl

/-- A query, clause by clause, with the scope that it finished. -/
theorem query_agrees (h : env.Twin w env') (hin : inner.Agree w inner') :
    Reader.Agree w (Same (Query.outline w)) (query env inner) (query env' inner') := by
  refine here_agrees.bind ?_
  rintro start _ rfl
  refine (acceptKeyword_agrees _).bind fun _ _ _ => distinctness_agrees.bind ?_
  rintro distinct _ rfl
  extract_lets body body'
  have hbody : ∀ u u' : Unit, u = u' →
      Reader.Agree w (Same (Query.outline w)) (body u) (body' u') := by
    rintro u _ rfl
    refine (optionalTop_agrees h).bind ?_
    rintro top _ rfl
    refine (commaSeparated_agrees (selectItem_agrees h hin)).bind fun items items' hitems => ?_
    refine (fromClause_agrees h hin).bind fun sources sources' hsources => ?_
    refine (conditionClause_agrees h hin _).bind fun filter filter' hfilter => ?_
    refine (groupBy_agrees h hin).bind fun groups groups' hgroups => ?_
    refine (conditionClause_agrees h hin _).bind fun having having' hhaving => ?_
    refine (orderBy_agrees h hin).bind fun orders orders' horders => here_agrees.bind ?_
    rintro pagingStart _ rfl
    refine optionalPaging_agrees.bind ?_
    rintro paging _ rfl
    extract_lets tail tail'
    have htail : ∀ u u' : Unit, u = u' →
        Reader.Agree w (Same (Query.outline w)) (tail u) (tail' u') := by
      rintro u _ rfl
      refine (trailingOptions_agrees h).bind ?_
      rintro ⟨lock, option⟩ ⟨lock', option'⟩ hoptions
      obtain ⟨hlock, hoption⟩ := Prod.mk.inj hoptions
      obtain rfl : lock = lock' := hlock
      refine refuseSetOperation_agrees.bind fun _ _ _ => lastEnd_agrees.bind ?_
      rintro stop _ rfl
      refine get_agrees.bind fun r r' hr => .pure ?_
      simp only [Same, Query.outline_eq, hitems.eq, hsources.eq, hfilter.eq, hgroups.eq,
        hhaving.eq, horders.eq, hoption, outline_finish hr]
    split
    · exact (failAt_agrees _ _).bind htail
    · exact htail () () rfl
  rw [h.dialect]
  split
  · exact (skipKeywords_agrees _).bind hbody
  · exact hbody () () rfl

/-! ## Changes -/

theorem finishedScope_agrees : Reader.Agree w (Same (Scope.outline w)) finishedScope finishedScope :=
  get_agrees.bind fun _ _ hr => .pure (outline_finish hr)

theorem exprTuple_agrees (h : env.Twin w env') (hin : inner.Agree w inner') :
    Reader.Agree w (Same (List.map (Expr.outline w))) (exprTuple env inner)
      (exprTuple env' inner') := by
  refine (acceptSymbol_agrees _).bind fun opening opening' hopening => ?_
  have hclose : ∀ es es', Same (List.map (Expr.outline w)) es es' →
      Reader.Agree w (Same (List.map (Expr.outline w))) (do close opening; return es)
        (do close opening'; return es') :=
    fun es es' hes => (close_agrees hopening).bind fun _ _ _ => .pure hes
  refine (atSymbol_agrees _).bind ?_
  rintro empty _ rfl
  split
  · exact hclose [] [] rfl
  · exact (commaSeparated_agrees (expression_agrees h hin)).bind hclose

theorem valuesRow_agrees (h : env.Twin w env') (hin : inner.Agree w inner') :
    Reader.Agree w (Same (ValuesRow.outline w)) (valuesRow env inner) (valuesRow env' inner') := by
  refine here_agrees.bind ?_
  rintro start _ rfl
  refine (exprTuple_agrees h hin).bind fun es es' hes => lastEnd_agrees.bind ?_
  rintro stop _ rfl
  refine .pure ?_
  simp only [Same, ValuesRow.outline, hes.eq]

theorem assignments_agrees (h : env.Twin w env') (hin : inner.Agree w inner') :
    Reader.Agree w (Same (List.map (Assignment.outline w))) (assignments env inner)
      (assignments env' inner') := by
  refine commaSeparated_agrees ?_
  refine (expression_agrees h hin).bind fun column column' hcolumn => ?_
  refine (acceptSymbol_agrees _).bind fun _ _ _ => ?_
  refine (expression_agrees h hin).bind fun value value' hvalue => .pure ?_
  simp only [Same, Assignment.outline, hcolumn.eq, hvalue.eq]

theorem insertColumns_agrees (h : env.Twin w env') (hin : inner.Agree w inner') :
    Reader.Agree w (Same (List.map (Expr.outline w))) (insertColumns env inner)
      (insertColumns env' inner') := by
  refine (atSymbol_agrees _).bind ?_
  rintro paren _ rfl
  split
  · refine peek_agrees.bind fun t t' ht => ?_
    rw [ht.isKeyword]
    split
    · exact .pure rfl
    · exact exprTuple_agrees h hin
  · exact .pure rfl

/-- The rows of an `INSERT`, told apart by the kind of the first token. -/
theorem insertSource_agrees (h : env.Twin w env') (hin : inner.Agree w inner') :
    Reader.Agree w (Same (InsertSource.outline w)) (insertSource env inner)
      (insertSource env' inner') := by
  have hrows : Reader.Agree w (Same (InsertSource.outline w)) (insertSource.rows env inner)
      (insertSource.rows env' inner') :=
    next_agrees.bind fun _ _ _ => (commaSeparated_agrees (valuesRow_agrees h hin)).bind
      fun _ _ hrows => .pure (congrArg InsertSource.values hrows)
  refine current_agrees.bind fun t t' ht => ?_
  rw [ht.kind]
  split
  · exact hrows
  · exact hrows
  · exact next_agrees.bind fun _ _ _ => (assignments_agrees h hin).bind
      fun _ _ has => .pure (congrArg InsertSource.set has)
  · exact hin.embed.bind fun _ _ hq => .pure (congrArg InsertSource.query hq)
  · exact (acceptSymbol_agrees _).bind fun _ _ hopening => hin.embed.bind fun _ _ hq =>
      (close_agrees hopening).bind fun _ _ _ => .pure (congrArg InsertSource.query hq)
  · exact failExpected_agrees _

/-- `ON` begins the clause if `DUPLICATE` follows. Otherwise nothing is consumed. -/
theorem onDuplicate_agrees (h : env.Twin w env') (hin : inner.Agree w inner') :
    Reader.Agree w (Same (List.map (Assignment.outline w))) (onDuplicate env inner)
      (onDuplicate env' inner') := by
  refine peekBehind_agrees (fun t t' ht => ht.isKeyword _) fun present => ?_
  split
  · exact next_agrees.bind fun _ _ _ => next_agrees.bind fun _ _ _ =>
      (acceptKeyword_agrees _).bind fun _ _ _ => (acceptKeyword_agrees _).bind fun _ _ _ =>
        assignments_agrees h hin
  · exact .pure rfl

theorem insert_agrees (h : env.Twin w env') (hin : inner.Agree w inner') :
    Reader.Agree w (Same (Insert.outline w)) (insert env inner) (insert env' inner') := by
  refine here_agrees.bind ?_
  rintro start _ rfl
  refine (acceptKeyword_agrees _).bind fun _ _ _ => (skipKeywords_agrees _).bind fun _ _ _ => ?_
  refine (skipKeyword_agrees _).bind fun _ _ _ => ?_
  refine (tableReference_agrees h).bind fun table table' htable => ?_
  refine (insertColumns_agrees h hin).bind fun columns columns' hcolumns => ?_
  refine (insertSource_agrees h hin).bind fun source source' hsource => ?_
  refine (onDuplicate_agrees h hin).bind fun extra extra' hextra => lastEnd_agrees.bind ?_
  rintro stop _ rfl
  refine finishedScope_agrees.bind fun scope scope' hscope => .pure ?_
  simp only [Same, Insert.outline, htable.eq, hcolumns.eq, hsource.eq, hextra.eq, hscope.eq]

theorem update_agrees (h : env.Twin w env') (hin : inner.Agree w inner') :
    Reader.Agree w (Same (Update.outline w)) (update env inner) (update env' inner') := by
  refine here_agrees.bind ?_
  rintro start _ rfl
  refine (acceptKeyword_agrees _).bind fun _ _ _ => (skipKeywords_agrees _).bind fun _ _ _ => ?_
  refine (tableReference_agrees h).bind fun table table' htable => ?_
  refine (acceptKeyword_agrees _).bind fun _ _ _ => ?_
  refine (assignments_agrees h hin).bind fun changes changes' hchanges => ?_
  refine (conditionClause_agrees h hin _).bind fun filter filter' hfilter => ?_
  refine (orderBy_agrees h hin).bind fun orders orders' horders => optionalPaging_agrees.bind ?_
  rintro paging _ rfl
  refine lastEnd_agrees.bind ?_
  rintro stop _ rfl
  refine finishedScope_agrees.bind fun scope scope' hscope => .pure ?_
  simp only [Same, Update.outline, htable.eq, hchanges.eq, hfilter.eq, horders.eq, hscope.eq]

theorem delete_agrees (h : env.Twin w env') (hin : inner.Agree w inner') :
    Reader.Agree w (Same (Delete.outline w)) (delete env inner) (delete env' inner') := by
  refine here_agrees.bind ?_
  rintro start _ rfl
  refine (acceptKeyword_agrees _).bind fun _ _ _ => (skipKeywords_agrees _).bind fun _ _ _ => ?_
  refine (skipKeyword_agrees _).bind fun _ _ _ => ?_
  refine (tableReference_agrees h).bind fun table table' htable => ?_
  refine (conditionClause_agrees h hin _).bind fun filter filter' hfilter => ?_
  refine (orderBy_agrees h hin).bind fun orders orders' horders => optionalPaging_agrees.bind ?_
  rintro paging _ rfl
  refine lastEnd_agrees.bind ?_
  rintro stop _ rfl
  refine finishedScope_agrees.bind fun scope scope' hscope => .pure ?_
  simp only [Same, Delete.outline, htable.eq, hfilter.eq, horders.eq, hscope.eq]

/-! ## Definitions -/

theorem definitionTarget_agrees (verb : Keyword) :
    Reader.Agree w Eq (definitionTarget verb) (definitionTarget verb) := by
  refine (skipKeyword_agrees _).bind ?_
  rintro present _ rfl
  split
  · exact .pure rfl
  · refine current_agrees.bind fun t t' ht => ?_
    rw [ht.isEnd]
    split
    · exact failExpected_agrees _
    · exact failHere_agrees (congrArg GrammarCause.unsupported (ht.raised _))

theorem definitionHead_agrees : Reader.Agree w Eq definitionHead definitionHead := by
  refine current_agrees.bind fun t t' ht => ?_
  rw [ht.kind]
  split
  · refine next_agrees.bind fun _ _ _ => (skipKeyword_agrees _).bind fun _ _ _ => ?_
    refine (definitionTarget_agrees _).bind fun _ _ _ => (skipKeyword_agrees _).bind ?_
    rintro guarded _ rfl
    split
    · exact (acceptKeyword_agrees _).bind fun _ _ _ => (acceptKeyword_agrees _).bind fun _ _ _ =>
        .pure rfl
    · exact .pure rfl
  · exact next_agrees.bind fun _ _ _ => (skipKeyword_agrees _).bind fun _ _ _ =>
      (definitionTarget_agrees _).bind fun _ _ _ => .pure rfl
  · refine next_agrees.bind fun _ _ _ => (skipKeyword_agrees _).bind fun _ _ _ => ?_
    refine (definitionTarget_agrees _).bind fun _ _ _ => (skipKeyword_agrees _).bind ?_
    rintro guarded _ rfl
    split
    · exact (acceptKeyword_agrees _).bind fun _ _ _ => .pure rfl
    · exact .pure rfl
  · exact next_agrees.bind fun _ _ _ => (skipKeyword_agrees _).bind fun _ _ _ => .pure rfl

theorem definedTable_agrees :
    Reader.Agree w (Same (Table.outline w)) (definedTable env) (definedTable env') := by
  refine tableName_agrees.bind ?_
  rintro ⟨t, token⟩ ⟨t', token'⟩ ht
  exact (declare_agrees _ _ _ _).bind fun _ _ _ => .pure ht

theorem remainder_agrees (hin : inner.Agree w inner') :
    Reader.Agree w Eq (remainder inner) (remainder inner') := by
  refine repeating_agrees (B := Eq) ?_ rfl
  rintro _ _ rfl
  refine current_agrees.bind fun t t' ht => ?_
  rw [ht.isEnd, ht.isSymbol, ht.isSymbol]
  split
  · exact .pure (.stop rfl)
  · split
    · exact (parentheses_agrees hin).bind fun _ _ _ => .pure (.again rfl)
    · exact consume_agrees.bind fun _ _ _ => .pure (.again rfl)

theorem definition_agrees (h : env.Twin w env') (hin : inner.Agree w inner') :
    Reader.Agree w (Same (Definition.outline w)) (definition env inner) (definition env' inner') := by
  refine here_agrees.bind ?_
  rintro start _ rfl
  refine definitionHead_agrees.bind ?_
  rintro kind _ rfl
  extract_lets rest rest'
  have hrest : ∀ tables tables', Same (List.map (Table.outline w)) tables tables' →
      Reader.Agree w (Same (Definition.outline w)) (rest tables) (rest' tables') := by
    intro tables tables' htables
    refine (remainder_agrees hin).bind fun _ _ _ => lastEnd_agrees.bind ?_
    rintro stop _ rfl
    refine finishedScope_agrees.bind fun scope scope' hscope => .pure ?_
    simp only [Same, Definition.outline, htables.eq, h.text, hscope.eq]
  split
  · exact (commaSeparated_agrees definedTable_agrees).bind hrest
  · exact definedTable_agrees.bind fun t t' ht => hrest [t] [t'] (congrArg (fun t => [t]) ht)

/-! ## Statements -/

theorem statement_agrees (h : env.Twin w env') (hin : inner.Agree w inner') :
    Reader.Agree w (Same (Statement.outline w)) (statement env inner) (statement env' inner') := by
  have hdefine : Reader.Agree w (Same (Statement.outline w))
      (do return .define (← definition env inner)) (do return .define (← definition env' inner')) :=
    (definition_agrees h hin).bind fun _ _ hs => .pure (congrArg Statement.define hs)
  refine current_agrees.bind fun t t' ht => ?_
  rw [ht.kind]
  split
  · exact (query_agrees h hin).bind fun _ _ hs => .pure (congrArg Statement.select hs)
  · exact (insert_agrees h hin).bind fun _ _ hs => .pure (congrArg Statement.insert hs)
  · exact (update_agrees h hin).bind fun _ _ hs => .pure (congrArg Statement.update hs)
  · exact (delete_agrees h hin).bind fun _ _ hs => .pure (congrArg Statement.delete hs)
  · exact hdefine
  · exact hdefine
  · exact hdefine
  · exact hdefine
  · exact failExpected_agrees _

theorem wholeStatement_agrees (h : env.Twin w env') (hin : inner.Agree w inner') :
    Reader.Agree w (Same (Statement.outline w)) (wholeStatement env inner)
      (wholeStatement env' inner') := by
  refine (statement_agrees h hin).bind fun st st' hst => (skipSymbol_agrees _).bind fun _ _ _ => ?_
  refine current_agrees.bind fun t t' ht => ?_
  rw [ht.isEnd]
  split
  · exact .pure hst
  · exact failExpected_agrees _

end Reader

/-! ## Nesting -/

theorem Inner.upTo_agrees {w : String → String} {env env' : Setting} (h : env.Twin w env')
    (n : Nat) : (Inner.upTo env n).Agree w (Inner.upTo env' n) := by
  induction n with
  | zero => constructor <;> exact Reader.refuseNesting_agrees h
  | succ n ih =>
      constructor
      · exact Reader.nested_agrees h (Reader.query_agrees h ih)
      · exact Reader.nested_agrees h (Reader.operand_agrees ih)
      · exact Reader.nested_agrees h (Reader.predicate_agrees h ih)
      · exact Reader.nested_agrees h (Reader.group_agrees h ih)
      · exact Reader.nested_agrees h (Reader.tableSources_agrees h ih)

/-! ## Runs -/

/-- Two streams of tokens that are alike, up to the same fault. -/
structure TokenStream.Alike (w : String → String) (s s' : TokenStream) : Prop where
  tokens : List.Forall₂ (Token.Alike w) s.tokens s'.tokens
  failure : s.failure = s'.failure

/-- Two outcomes that are results related by `R` or faults related by `E`. -/
inductive Verdicts {ε α : Type} (E : ε → ε → Prop) (R : α → α → Prop) :
    Except ε α → Except ε α → Prop
  | ok {a a' : α} (result : R a a') : Verdicts E R (.ok a) (.ok a')
  | error {f f' : ε} (fault : E f f') : Verdicts E R (.error f) (.error f')

/-- Both outcomes are results, or both are faults. -/
theorem Verdicts.exists_eq {ε α : Type} {E : ε → ε → Prop} {R : α → α → Prop} {x x' : Except ε α}
    (h : Verdicts E R x x') :
    (∃ a a', x = .ok a ∧ x' = .ok a' ∧ R a a') ∨ ∃ f f', x = .error f ∧ x' = .error f' ∧ E f f' := by
  cases h with
  | ok hresult => exact .inl ⟨_, _, rfl, rfl, hresult⟩
  | error hfault => exact .inr ⟨_, _, rfl, rfl, hfault⟩

/-- Twin settings whose tokens are alike give statements with one outline, along the
same passages, or faults that are alike. -/
theorem Setting.Twin.run {w : String → String} {env env' : Setting} (h : env.Twin w env')
    (htokens : (TokenStream.ofText env.dialect env.source).Alike w
      (TokenStream.ofText env'.dialect env'.source)) :
    Verdicts (Same (Fault.outline w))
      (fun x x' : Statement × Reading =>
        x.1.outline w = x'.1.outline w ∧ x.2.passages = x'.2.passages)
      env.run env'.run := by
  have hcursor : Verdicts (Same (Fault.outline w)) (Cursor.Alike w)
      (Cursor.ofText env.dialect env.source) (Cursor.ofText env'.dialect env'.source) := by
    unfold Cursor.ofText
    revert htokens
    generalize TokenStream.ofText env.dialect env.source = s
    generalize TokenStream.ofText env'.dialect env'.source = s'
    obtain ⟨ts, failure⟩ := s
    obtain ⟨ts', failure'⟩ := s'
    rintro ⟨hts, hfailure⟩
    obtain rfl : failure = failure' := hfailure
    cases hts with
    | cons ht hts => exact .ok ⟨ht, hts, rfl, rfl⟩
    | nil => cases failure <;> exact .error rfl
  unfold Setting.run
  revert hcursor
  generalize Cursor.ofText env.dialect env.source = x
  generalize Cursor.ofText env'.dialect env'.source = x'
  rintro (hc | hfault)
  · rename_i c c'
    have hrun := Reader.wholeStatement_agrees h (Inner.upTo_agrees h env.limit) (Reading.start c)
      (Reading.start c') ⟨hc, rfl, rfl, rfl, rfl⟩
    rw [h.limit] at hrun ⊢
    dsimp only
    revert hrun
    generalize Reader.wholeStatement env _ _ = y
    generalize Reader.wholeStatement env' _ _ = y'
    rintro (⟨hst, hr⟩ | ⟨hfault, -⟩)
    · exact .ok ⟨hst, hr.passages⟩
    · exact .error hfault
  · exact .error hfault

end SqlMarkers
