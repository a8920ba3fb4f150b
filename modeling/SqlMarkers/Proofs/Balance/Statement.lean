/-
SqlMarkers.Proofs.Balance.Statement — the parentheses of whole statements.

The text behind the head of a definition is read token by token, so a closing parenthesis
there may be a stray; all other statements keep parentheses in pairs from the first token
to the last (`Reader.statement_opens`). In the end nothing is open, and the tokens of a
statement are balanced unless there are strays among them
(`pairsParentheses_of_tokenize`).
-/
import SqlMarkers.Proofs.Balance.Clause
import SqlMarkers.Proofs.Outcomes

namespace SqlMarkers

variable {env : Setting} {inner : Inner}

namespace Reader

/-! ## Changes -/

theorem finishedScope_keeps : Keeps finishedScope := get_keeps.bind fun _ => keeps_pure _

theorem exprTuple_keeps (hi : inner.Pairing) : Keeps (exprTuple env inner) := by
  intro i
  refine openParen_shifts.bind fun opening => (atSymbol_keeps _ _).bind fun empty => ?_
  have hclose : ∀ values : List Expr, Shifts (i + 1) i (do close opening; return values) :=
    fun _ => (close_shifts opening).bind fun _ => keeps_pure _ i
  split
  · exact hclose []
  · exact (commaSeparated_keeps (expression_keeps hi) _).bind hclose

theorem assignments_keeps (hi : inner.Pairing) : Keeps (assignments env inner) := by
  refine commaSeparated_keeps ?_
  exact (expression_keeps hi).bind fun _ => (acceptSymbol_keeps rfl).bind fun _ =>
    (expression_keeps hi).bind fun _ => keeps_pure _

theorem insertColumns_keeps (hi : inner.Pairing) : Keeps (insertColumns env inner) := by
  refine (atSymbol_keeps _).bind fun paren => ?_
  split
  · refine peek_keeps.bind fun t => ?_
    split
    · exact keeps_pure _
    · exact exprTuple_keeps hi
  · exact keeps_pure _

theorem insertSource_keeps (hi : inner.Pairing) : Keeps (insertSource env inner) := by
  have hrow : Keeps (valuesRow env inner) :=
    here_keeps.bind fun _ => (exprTuple_keeps hi).bind fun _ => lastEnd_keeps.bind fun _ =>
      keeps_pure _
  have hrows : ∀ {i : Nat} {r : Reading} {k : Keyword}, r.cursor.current.kind = .keyword k →
      ShiftsAt i i (insertSource.rows env inner) r :=
    fun hk => (next_shiftsOf hk rfl).bind fun _ => (commaSeparated_keeps hrow _).bind fun _ =>
      keeps_pure _ _
  refine keeps_current fun i r => ?_
  split
  · rename_i hk
    exact hrows hk
  · rename_i hk
    exact hrows hk
  · rename_i hk
    exact (next_shiftsOf hk rfl).bind fun _ => (assignments_keeps hi i).bind fun _ => keeps_pure _ i
  · exact ((embed_keeps hi).bind fun _ => keeps_pure _) i r
  · exact (openParen_shifts.bind fun opening => (embed_keeps hi _).bind fun q =>
      (close_shifts opening).bind fun _ => keeps_pure _ i) r
  · exact failExpected_keeps _ i r

theorem onDuplicate_keeps (hi : inner.Pairing) : Keeps (onDuplicate env inner) := by
  intro i
  refine peekBehind_shifts fun r present hpresent => ?_
  split
  · rename_i htrue
    exact twoKeywords_shifts (hpresent htrue).1 (hpresent htrue).2
      ((acceptKeyword_keeps _).bind fun _ => (acceptKeyword_keeps _).bind fun _ =>
        assignments_keeps hi)
  · exact keeps_pure _ i r

theorem insert_keeps (hi : inner.Pairing) : Keeps (insert env inner) := by
  refine here_keeps.bind fun _ => (acceptKeyword_keeps _).bind fun _ => ?_
  refine (skipKeywords_keeps _).bind fun _ => (skipKeyword_keeps _).bind fun _ => ?_
  refine tableReference_keeps.bind fun _ => (insertColumns_keeps hi).bind fun _ => ?_
  refine (insertSource_keeps hi).bind fun _ => (onDuplicate_keeps hi).bind fun _ => ?_
  exact lastEnd_keeps.bind fun _ => finishedScope_keeps.bind fun _ => keeps_pure _

theorem update_keeps (hi : inner.Pairing) : Keeps (update env inner) := by
  refine here_keeps.bind fun _ => (acceptKeyword_keeps _).bind fun _ => ?_
  refine (skipKeywords_keeps _).bind fun _ => tableReference_keeps.bind fun _ => ?_
  refine (acceptKeyword_keeps _).bind fun _ => (assignments_keeps hi).bind fun _ => ?_
  refine (conditionClause_keeps hi _).bind fun _ => (orderBy_keeps hi).bind fun _ => ?_
  refine optionalPaging_keeps.bind fun _ => lastEnd_keeps.bind fun _ => ?_
  exact finishedScope_keeps.bind fun _ => keeps_pure _

theorem delete_keeps (hi : inner.Pairing) : Keeps (delete env inner) := by
  refine here_keeps.bind fun _ => (acceptKeyword_keeps _).bind fun _ => ?_
  refine (skipKeywords_keeps _).bind fun _ => (skipKeyword_keeps _).bind fun _ => ?_
  refine tableReference_keeps.bind fun _ => (conditionClause_keeps hi _).bind fun _ => ?_
  refine (orderBy_keeps hi).bind fun _ => optionalPaging_keeps.bind fun _ => ?_
  exact lastEnd_keeps.bind fun _ => finishedScope_keeps.bind fun _ => keeps_pure _

/-! ## Definitions -/

theorem definitionTarget_keeps (verb : Keyword) : Keeps (definitionTarget verb) := by
  refine (skipKeyword_keeps _).bind fun present => ?_
  split
  · exact keeps_pure _
  · refine keeps_current fun i r => ?_
    split
    · exact failExpected_keeps _ i r
    · exact failHere_keeps _ i r

/-- The first word of a definition is a keyword. -/
theorem definitionHead_shifts {i : Nat} {r : Reading} {k : Keyword}
    (hk : r.cursor.current.kind = .keyword k) : ShiftsAt i i definitionHead r := by
  refine shiftsAt_current ?_
  split
  · refine (next_shiftsOf hk rfl).bind fun _ => (skipKeyword_keeps _ i).bind fun _ => ?_
    refine (definitionTarget_keeps _ i).bind fun _ => (skipKeyword_keeps _ i).bind fun guarded => ?_
    split
    · exact (acceptKeyword_keeps _ i).bind fun _ => (acceptKeyword_keeps _ i).bind fun _ =>
        keeps_pure _ i
    · exact keeps_pure _ i
  · exact (next_shiftsOf hk rfl).bind fun _ => (skipKeyword_keeps _ i).bind fun _ =>
      (definitionTarget_keeps _ i).bind fun _ => keeps_pure _ i
  · refine (next_shiftsOf hk rfl).bind fun _ => (skipKeyword_keeps _ i).bind fun _ => ?_
    refine (definitionTarget_keeps _ i).bind fun _ => (skipKeyword_keeps _ i).bind fun guarded => ?_
    split
    · exact (acceptKeyword_keeps _ i).bind fun _ => keeps_pure _ i
    · exact keeps_pure _ i
  · exact (next_shiftsOf hk rfl).bind fun _ => (skipKeyword_keeps _ i).bind fun _ => keeps_pure _ i

theorem definedTable_keeps : Keeps (definedTable env) :=
  tableName_keeps.bind fun _ => (declare_keeps _ _).bind fun _ => keeps_pure _

/-- Where nothing is open, the step leaves nothing open; closing parentheses that close
nothing are let through. -/
def KeepsOutside {α : Type} (m : Reader α) : Prop :=
  ∀ ⦃s r a r'⦄, Cursor.Opens true s 0 r.cursor → Yields m r a r' → Cursor.Opens true s 0 r'.cursor

theorem Keeps.outside {α : Type} {m : Reader α} (h : Keeps m) : KeepsOutside m :=
  fun _ r _ _ hs hn => h 0 r hs hn

theorem KeepsOutside.bind {α β : Type} {m : Reader α} {f : α → Reader β} (h : KeepsOutside m)
    (hf : ∀ a, KeepsOutside (f a)) : KeepsOutside (m >>= f) := by
  intro s r b r' hs hn
  obtain ⟨a, r₁, hm, hn⟩ := yields_bind.1 hn
  exact hf a (h hs hm) hn

theorem remainder_outside (hi : inner.Pairing) : KeepsOutside (remainder inner) := by
  intro s r u r' hs hn
  refine repeatStep_yields (fun _ r => Cursor.Opens true s 0 r.cursor)
    (fun _ r => Cursor.Opens true s 0 r.cursor) ?_ hs hn
  intro _ r₁ round r₂ hs₁ hround
  replace hround := bind_current hround
  rcases yields_ite.1 hround with ⟨-, hround⟩ | ⟨hgoes, hround⟩
  · obtain ⟨rfl, rfl⟩ := yields_pure.1 hround
    exact hs₁
  · rcases yields_ite.1 hround with ⟨-, hround⟩ | ⟨hleft, hround⟩
    · obtain ⟨_, hparens, rfl⟩ := yields_map.1 hround
      exact parentheses_keeps hi 0 r₁ hs₁ hparens
    · obtain ⟨_, hconsume, rfl⟩ := yields_map.1 hround
      obtain ⟨c, hc, hr₂⟩ := consume_yields_next hconsume
      rw [Round.meets_again, hr₂]
      by_cases hright : r₁.cursor.current.kind = .symbol .rightParen
      · exact hs₁.stray hright hc
      · refine hs₁.flat (Kind.isFlat_of (fun hend => hgoes ?_) (fun h => hleft ?_) hright) hc
        · rw [Token.isEnd, hend]
          rfl
        · exact Token.isSymbol_iff.2 h

theorem definition_outside (hi : inner.Pairing) {s : Cursor} {r r' : Reading} {d : Definition}
    {k : Keyword} (hk : r.cursor.current.kind = .keyword k) (hs : Cursor.Opens true s 0 r.cursor)
    (hn : Yields (definition env inner) r d r') : Cursor.Opens true s 0 r'.cursor := by
  replace hn := bind_here hn
  obtain ⟨kind, r₁, hhead, hn⟩ := yields_bind.1 hn
  have hs₁ : Cursor.Opens true s 0 r₁.cursor := definitionHead_shifts (i := 0) hk hs hhead
  have hrest : ∀ tables, KeepsOutside (do
      remainder inner
      let stop ← lastEnd
      return { kind, tables, text := sourceText env r.cursor.current.span.start stop
               scope := ← finishedScope, span := ⟨r.cursor.current.span.start, stop⟩ } :
        Reader Definition) :=
    fun tables => (remainder_outside hi).bind fun _ => lastEnd_keeps.outside.bind fun _ =>
      finishedScope_keeps.outside.bind fun _ => (keeps_pure _).outside
  rcases yields_ite.1 hn with ⟨-, hn⟩ | ⟨-, hn⟩
  · exact ((commaSeparated_keeps definedTable_keeps).outside.bind hrest) hs₁ hn
  · exact (definedTable_keeps.outside.bind fun t => hrest [t]) hs₁ hn

/-! ## Statements -/

end Reader

/-- Whether the statement defines tables. -/
def Statement.isDefinition : Statement → Bool
  | .define _ => true
  | _ => false

namespace Reader

theorem statement_opens (hi : inner.Pairing) {r r' : Reading} {st : Statement}
    (hn : Yields (statement env inner) r st r') :
    Cursor.Opens st.isDefinition r.cursor 0 r'.cursor := by
  have hstart : ∀ {loose}, Cursor.Opens loose r.cursor 0 r.cursor := .refl _
  have hdefine : ∀ {k : Keyword}, r.cursor.current.kind = .keyword k →
      Yields (do return .define (← definition env inner) : Reader Statement) r st r' →
      Cursor.Opens st.isDefinition r.cursor 0 r'.cursor := by
    intro k hk hn
    obtain ⟨d, hdefine, rfl⟩ := yields_map.1 hn
    exact definition_outside hi hk hstart hdefine
  replace hn := bind_current hn
  split at hn
  · obtain ⟨q, hquery, rfl⟩ := yields_map.1 hn
    exact query_keeps hi 0 r hstart hquery
  · obtain ⟨i, hinsert, rfl⟩ := yields_map.1 hn
    exact insert_keeps hi 0 r hstart hinsert
  · obtain ⟨u, hupdate, rfl⟩ := yields_map.1 hn
    exact update_keeps hi 0 r hstart hupdate
  · obtain ⟨d, hdelete, rfl⟩ := yields_map.1 hn
    exact delete_keeps hi 0 r hstart hdelete
  -- `CREATE`, `ALTER`, `DROP` and `TRUNCATE`.
  iterate 4
    · rename_i hk
      exact hdefine hk hn
  · exact (yields_failExpected.1 hn).elim

theorem wholeStatement_opens (hi : inner.Pairing) {r r' : Reading} {st : Statement}
    (hn : Yields (wholeStatement env inner) r st r') :
    Cursor.Opens st.isDefinition r.cursor 0 r'.cursor ∧ r'.cursor.current.isEnd = true := by
  obtain ⟨st₁, r₁, hst, hn⟩ := yields_bind.1 hn
  have hs₁ := statement_opens hi hst
  obtain ⟨semicolon, r₂, hskip, hn⟩ := yields_bind.1 hn
  have hs₂ : Cursor.Opens st₁.isDefinition r.cursor 0 r₂.cursor :=
    skipSymbol_keeps rfl 0 r₁ hs₁ hskip
  replace hn := bind_current hn
  rcases yields_ite.1 hn with ⟨hend, hn⟩ | ⟨-, hn⟩
  · obtain ⟨rfl, rfl⟩ := yields_pure.1 hn
    exact ⟨hs₂, hend⟩
  · exact (yields_failExpected.1 hn).elim

end Reader

/-! ## The tower -/

theorem Reader.nested_keeps {α : Type} {m : Reader α} (h : Reader.Keeps m) :
    Reader.Keeps (Reader.nested env m) := by
  intro i r loose s n a r' hs hn
  obtain ⟨r₁, hbody, rfl⟩ := Reader.nested_yields hn
  have hs₁ : Cursor.Opens loose s (n + i) r₁.cursor := h i r.deeper hs hbody
  exact hs₁

/-- The readers of what is nested keep parentheses in pairs at every depth. -/
theorem Inner.pairing_upTo (env : Setting) (n : Nat) : (Inner.upTo env n).Pairing := by
  induction n with
  | zero =>
      have hrefused : ∀ {α : Type}, Reader.Keeps (Reader.refuseNesting env : Reader α) :=
        fun {α} i => Reader.shifts_of_fails Reader.yields_refuseNesting.1
      exact ⟨hrefused, hrefused, hrefused, hrefused, hrefused⟩
  | succ n ih =>
      exact ⟨Reader.nested_keeps (Reader.query_keeps ih),
        Reader.nested_keeps (Reader.operand_keeps ih),
        Reader.nested_keeps (Reader.predicate_keeps ih),
        Reader.nested_keeps (Reader.group_keeps ih),
        Reader.nested_keeps (Reader.tableSources_keeps ih)⟩

/-! ## Parsing -/

/-- How the parentheses are paired among the tokens of a statement that is accepted. -/
structure WellPaired (definition : Bool) (tokens : List Token) : Prop where
  /-- No opening parenthesis is left open. -/
  closed : ∀ us, us <:+ tokens → openings us ≤ closings us
  /-- A closing parenthesis closes an opening one or is a stray, and strays are all that
  can be wrong. -/
  paired : ∃ strays, Paired definition 0 tokens strays ∧ (Balanced tokens ↔ strays = [])
  /-- Strays are only found behind `CASE` and in definitions. -/
  balanced : definition = false → (∀ t ∈ tokens, t.isKeyword .CASE = false) → Balanced tokens

theorem Paired.wellPaired {loose : Bool} {ts strays : List Token} (h : Paired loose 0 ts strays) :
    WellPaired loose ts where
  closed := h.openings_le
  paired := ⟨strays, h, h.balanced_iff⟩
  balanced := by
    intro hloose hcase
    refine h.balanced_iff.2 (by_contra fun hstrays => ?_)
    obtain ⟨t, ht, hkind⟩ := h.exists_case hloose hstrays
    have := hcase t ht
    rw [Token.isKeyword_iff.2 hkind] at this
    cases this

/-- What an outcome of parsing says about the parentheses among the tokens of the text. -/
structure PairsParentheses (tokens : List Token) (outcome : Except Failure Parsed) : Prop where
  accepted : ∀ p, outcome = .ok p → WellPaired p.statement.isDefinition tokens
  /-- A text that is not accepted is refused by the grammar. -/
  refused : ∀ e, outcome = .error (.error e) → e.kind = .grammar
  /-- The one exception is a text with a name that cannot be decoded. -/
  undecodable : outcome = .error .undecodable → ∃ t ∈ tokens, t.name? = none

/-- The tokens of a statement that is read are those of its reading and the end. -/
theorem Setting.run_paired {env : Setting} {st : Statement} {r : Reading}
    (h : env.run = .ok (st, r)) :
    ∃ strays, Paired st.isDefinition 0 (TokenStream.ofText env.dialect env.source).tokens strays := by
  unfold Setting.run at h
  split at h
  · cases h
  · rename_i c hc
    split at h
    · rename_i st₁ r₁ hread
      cases h
      obtain ⟨ho, htokens, -⟩ := Cursor.orderly_ofText hc
      obtain ⟨⟨ts, strays, hsteps, hpaired⟩, hend⟩ :=
        Reader.wholeStatement_opens (Inner.pairing_upTo env env.limit) hread
      have hrest := (hsteps.orderly ho).rest_of_isEnd hend
      refine ⟨strays, ?_⟩
      have hall : c.rest = ts ++ r.cursor.rest := hsteps.rest_eq ho
      rw [htokens, hall, hrest]
      refine hpaired.flat ?_
      rw [Token.isEnd, beq_iff_eq] at hend
      rw [Token.isParenthesis, Token.isSymbol, Token.isSymbol, hend]
      rfl
    · cases h

/-- A text with tokens is accepted only if its parentheses are in pairs, but for strays. -/
theorem pairsParentheses_of_tokenize {config : Config} {catalogue : Catalogue} {source : String}
    {tokens : List Token} (h : tokenize config.dialect source = .ok tokens) :
    PairsParentheses tokens (parse config catalogue source) := by
  have hagrees := lexicallyAgrees_parse config catalogue source
  have htokens : (TokenStream.ofText config.dialect source.toList).tokens = tokens := by
    simp only [tokenize] at h
    split at h
    · exact Except.ok.inj h
    · cases h
  constructor
  · intro p hparse
    obtain ⟨-, -, r, hrun⟩ := parse_ok hparse
    obtain ⟨strays, hpaired⟩ := Setting.run_paired hrun
    rw [← htokens]
    exact hpaired.wellPaired
  · intro e hparse
    rw [hparse] at hagrees
    cases hkind : e.kind with
    | grammar => rfl
    | lexical =>
        simp only [LexicallyAgrees, hkind] at hagrees
        rw [h] at hagrees
        cases hagrees
  · intro hparse
    rw [hparse] at hagrees
    rw [← htokens]
    exact hagrees

/-- Parentheses of calls, groups and lists, and some that are read over. -/
theorem pairsParentheses_select : ∃ tokens,
    tokenize .standard "SELECT f((1)), CASE (a) END FROM (t) WHERE (b IN (2))" = .ok tokens ∧
      PairsParentheses tokens
        (parse {} Catalogue.everyName "SELECT f((1)), CASE (a) END FROM (t) WHERE (b IN (2))") := by
  obtain ⟨tokens, h, -⟩ : ∃ tokens,
      tokenize .standard "SELECT f((1)), CASE (a) END FROM (t) WHERE (b IN (2))" = .ok tokens ∧
        True :=
    exists_of_any (by decide +kernel)
  exact ⟨tokens, h, pairsParentheses_of_tokenize h⟩

/-- A closing parenthesis between `CASE` and `END` closes nothing and is accepted. -/
theorem unbalanced_case : ∃ p tokens,
    parse {} Catalogue.everyName "SELECT CASE ) END FROM t" = .ok p ∧
      tokenize .standard "SELECT CASE ) END FROM t" = .ok tokens ∧ ¬Balanced tokens := by
  obtain ⟨p, hparse, -⟩ : ∃ p,
      parse {} Catalogue.everyName "SELECT CASE ) END FROM t" = .ok p ∧ True :=
    exists_of_any (by decide +kernel)
  obtain ⟨tokens, htokens, hunequal⟩ : ∃ tokens,
      tokenize .standard "SELECT CASE ) END FROM t" = .ok tokens ∧
        openings tokens ≠ closings tokens :=
    exists_of_any (by decide +kernel)
  exact ⟨p, tokens, hparse, htokens, fun hbalanced => hunequal hbalanced.2⟩

end SqlMarkers
