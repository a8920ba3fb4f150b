/-
SqlMarkers.Proofs.Shifting.Statement — whole statements further on in a text.

The readers at the nesting limit all fail in the same way, and each level of nesting shifts
because the level below does (`Inner.upTo_slides`). The scope of a statement is resolved at
its end, out of draft entries that have all moved (`Draft.shift_finish`).

A statement is read from a cursor that has consumed nothing yet, in both texts from offset
zero. But every statement starts with a keyword that is consumed before anything asks where
the last token ended (`Reader.Fresh`, `Reader.fresh_statement`), so the first cursor may as
well be a solid one.
-/
import SqlMarkers.Proofs.Limits
import SqlMarkers.Proofs.Shifting.Clause

namespace SqlMarkers

namespace Reader

variable {n : Nat} {env env' : Setting} {inner inner' : Inner}

/-! ## Queries -/

theorem distinctness_slides : Reader.Slides n id distinctness distinctness := by
  refine current_slides.bind fun t => ?_
  rw [Token.shift_kind]
  split
  · exact next_slides.bind fun _ => .pure rfl
  · exact next_slides.bind fun _ => .pure rfl
  · exact next_slides.bind fun _ => .pure rfl
  · exact .pure rfl

theorem lockWait_slides : Reader.Slides n id lockWait lockWait := by
  refine current_slides.bind fun t => ?_
  rw [Token.shift_isWord, Token.shift_isWord]
  split
  · exact next_slides
  · split
    · refine peek_slides.bind fun u => ?_
      rw [Token.shift_isWord]
      split
      · exact next_slides.bind fun _ => next_slides
      · exact .pure rfl
    · exact .pure rfl

/-- Locks and options behind a query, in any order. The text of the options is cut out of the
moved text by a moved span, so it is the same one. -/
theorem trailingOptions_slides (h : env.Behind n env') :
    Reader.Slides n id (trailingOptions env) (trailingOptions env') := by
  refine Follows.repeating (k := id) ?_ (none, none)
  rintro ⟨lock, option⟩
  refine current_slides.follows fun t => ?_
  rw [Token.shift_kind]
  split
  -- `FOR UPDATE` and `FOR SHARE`, with `NOWAIT` or `SKIP LOCKED`.
  · refine next_slides.follows fun _ => current_slides.follows fun u => ?_
    extract_lets again
    have hagain : ∀ lock : Lock, Reader.Follows n
        (Round.Alike (fun b b' => b' = id b) (fun a a' => a' = id a)) (again lock) (again lock) :=
      fun lock => next_slides.follows fun _ => lockWait_slides.follows fun _ =>
        Agree.pure (.again rfl)
    rw [Token.shift_kind]
    split
    · exact hagain _
    · exact hagain _
    · exact (failExpected_slides (g := id) _).follows hagain
  -- `LOCK IN SHARE MODE`.
  · exact next_slides.follows fun _ => (acceptKeyword_slides _).follows fun _ =>
      (acceptKeyword_slides _).follows fun _ => (acceptKeyword_slides _).follows fun _ =>
        Agree.pure (.again rfl)
  · refine peek_slides.follows fun u => ?_
    rw [Token.shift_isSymbol]
    split
    · refine next_slides.follows fun _ => passParentheses_slides.follows fun _ => ?_
      refine lastEnd_slides.follows fun stop => Agree.pure (.again ?_)
      rw [Token.shift_span, Span.shift_start, h.text]
      rfl
    · exact Agree.pure (.stop rfl)
  · exact Agree.pure (.stop rfl)

theorem refuseSetOperation_slides :
    Reader.Slides n id refuseSetOperation refuseSetOperation := by
  refine current_slides.bind fun t => ?_
  rw [Token.shift_kind]
  split
  · exact failHere_slides _
  · exact failHere_slides _
  · exact failHere_slides _
  · exact .pure rfl

/-- A query, clause by clause. `TOP` and a paging clause exclude each other: the fault for having
both is moved with the start of the second one. -/
theorem query_slides (h : env.Behind n env') (hin : inner.Slides n inner') :
    Reader.Slides n (Query.shift n) (query env inner) (query env' inner') := by
  refine here_slides.bind fun start => (acceptKeyword_slides _).bind fun _ => ?_
  refine distinctness_slides.bindSame fun distinct => ?_
  extract_lets body body'
  have hbody : ∀ u, Reader.Slides n (Query.shift n) (body u) (body' u) := by
    intro u
    refine (optionalTop_slides h).bind fun top => ?_
    refine (commaSeparated_slides (selectItem_slides h hin)).bind fun items => ?_
    refine (fromClause_slides h hin).bind fun sources => ?_
    refine (conditionClause_slides h hin _).bind fun filter => ?_
    refine (groupBy_slides h hin).bind fun groupBy => ?_
    refine (conditionClause_slides h hin _).bind fun having => ?_
    refine (orderBy_slides h hin).bind fun orderBy => here_slides.bind fun pagingStart => ?_
    refine optionalPaging_slides.bind fun paging => ?_
    extract_lets tail tail'
    have htail : ∀ u, Reader.Slides n (Query.shift n) (tail u) (tail' u) := by
      intro u
      refine (trailingOptions_slides h).bindSame ?_
      rintro ⟨lock, option⟩
      refine refuseSetOperation_slides.bind fun _ => lastEnd_slides.bind fun stop => ?_
      refine get_slides.bind fun r => .pure ?_
      have hpaging : (paging.map (Paging.shift n) <|> top.map (Paging.shift n)) =
          (paging <|> top).map (Paging.shift n) := by
        cases paging <;> rfl
      rw [Query.shift_eq, hpaging]
      dsimp only [Reading.shift]
      rw [Draft.shift_finish]
      rfl
    rw [Option.isSome_map, Option.isSome_map]
    split
    · exact (failAt_slides _ _).bindSame htail
    · exact htail ()
  rw [h.dialect]
  split
  · exact (skipKeywords_slides _).bindSame hbody
  · exact hbody ()

/-! ## Changes -/

/-- A moved draft is resolved to the moved scope. -/
theorem finishedScope_slides : Reader.Slides n (Scope.shift n) finishedScope finishedScope :=
  get_slides.bind fun r => .pure r.draft.shift_finish

theorem exprTuple_slides (h : env.Behind n env') (hin : inner.Slides n inner') :
    Reader.Slides n (List.map (Expr.shift n)) (exprTuple env inner) (exprTuple env' inner') := by
  refine (acceptSymbol_slides _).bind fun opening => ?_
  have hclose : ∀ values, Reader.Slides n (List.map (Expr.shift n))
      (do close opening; return values)
      (do close (opening.shift n); return values.map (Expr.shift n)) :=
    fun values => (close_slides opening).bind fun _ => .pure rfl
  refine (atSymbol_slides _).bindSame fun empty => ?_
  split
  · exact hclose []
  · exact (commaSeparated_slides (expression_slides h hin)).bind hclose

theorem valuesRow_slides (h : env.Behind n env') (hin : inner.Slides n inner') :
    Reader.Slides n (ValuesRow.shift n) (valuesRow env inner) (valuesRow env' inner') :=
  here_slides.bind fun _ => (exprTuple_slides h hin).bind fun _ =>
    lastEnd_slides.bind fun _ => .pure rfl

theorem assignments_slides (h : env.Behind n env') (hin : inner.Slides n inner') :
    Reader.Slides n (List.map (Assignment.shift n)) (assignments env inner)
      (assignments env' inner') :=
  commaSeparated_slides ((expression_slides h hin).bind fun _ =>
    (acceptSymbol_slides _).bind fun _ => (expression_slides h hin).bind fun _ => .pure rfl)

theorem insertColumns_slides (h : env.Behind n env') (hin : inner.Slides n inner') :
    Reader.Slides n (List.map (Expr.shift n)) (insertColumns env inner)
      (insertColumns env' inner') := by
  refine (atSymbol_slides _).bindSame fun paren => ?_
  split
  · refine peek_slides.bind fun t => ?_
    rw [Token.shift_isKeyword]
    split
    · exact .pure rfl
    · exact exprTuple_slides h hin
  · exact .pure rfl

/-- The rows of an `INSERT`: values, assignments, or a query with or without parentheses. -/
theorem insertSource_slides (h : env.Behind n env') (hin : inner.Slides n inner') :
    Reader.Slides n (InsertSource.shift n) (insertSource env inner) (insertSource env' inner') := by
  have hrows : Reader.Slides n (InsertSource.shift n) (insertSource.rows env inner)
      (insertSource.rows env' inner') :=
    next_slides.bind fun _ => (commaSeparated_slides (valuesRow_slides h hin)).bind fun _ =>
      .pure rfl
  refine current_slides.bind fun t => ?_
  rw [Token.shift_kind]
  split
  · exact hrows
  · exact hrows
  · exact next_slides.bind fun _ => (assignments_slides h hin).bind fun _ => .pure rfl
  · exact hin.embed.bind fun _ => .pure rfl
  · exact (acceptSymbol_slides _).bind fun opening => hin.embed.bind fun _ =>
      (close_slides opening).bind fun _ => .pure rfl
  · exact failExpected_slides _

theorem onDuplicate_slides (h : env.Behind n env') (hin : inner.Slides n inner') :
    Reader.Slides n (List.map (Assignment.shift n)) (onDuplicate env inner)
      (onDuplicate env' inner') := by
  refine peekBehind_slides (fun _ => rfl) fun present => ?_
  split
  · exact next_slides.bind fun _ => next_slides.bind fun _ => (acceptKeyword_slides _).bind fun _ =>
      (acceptKeyword_slides _).bind fun _ => assignments_slides h hin
  · exact .pure rfl

theorem insert_slides (h : env.Behind n env') (hin : inner.Slides n inner') :
    Reader.Slides n (Insert.shift n) (insert env inner) (insert env' inner') := by
  refine here_slides.bind fun start => (acceptKeyword_slides _).bind fun _ => ?_
  refine (skipKeywords_slides _).bind fun _ => (skipKeyword_slides _).bind fun _ => ?_
  refine (tableReference_slides h).bind fun table => (insertColumns_slides h hin).bind fun cols => ?_
  refine (insertSource_slides h hin).bind fun source => (onDuplicate_slides h hin).bind fun extra => ?_
  exact lastEnd_slides.bind fun stop => finishedScope_slides.bind fun scope => .pure rfl

theorem update_slides (h : env.Behind n env') (hin : inner.Slides n inner') :
    Reader.Slides n (Update.shift n) (update env inner) (update env' inner') := by
  refine here_slides.bind fun start => (acceptKeyword_slides _).bind fun _ => ?_
  refine (skipKeywords_slides _).bind fun _ => (tableReference_slides h).bind fun table => ?_
  refine (acceptKeyword_slides _).bind fun _ => (assignments_slides h hin).bind fun changes => ?_
  refine (conditionClause_slides h hin _).bind fun filter => (orderBy_slides h hin).bind fun orders => ?_
  refine optionalPaging_slides.bind fun paging => lastEnd_slides.bind fun stop => ?_
  exact finishedScope_slides.bind fun scope => .pure rfl

theorem delete_slides (h : env.Behind n env') (hin : inner.Slides n inner') :
    Reader.Slides n (Delete.shift n) (delete env inner) (delete env' inner') := by
  refine here_slides.bind fun start => (acceptKeyword_slides _).bind fun _ => ?_
  refine (skipKeywords_slides _).bind fun _ => (skipKeyword_slides _).bind fun _ => ?_
  refine (tableReference_slides h).bind fun table => ?_
  refine (conditionClause_slides h hin _).bind fun filter => (orderBy_slides h hin).bind fun orders => ?_
  refine optionalPaging_slides.bind fun paging => lastEnd_slides.bind fun stop => ?_
  exact finishedScope_slides.bind fun scope => .pure rfl

/-! ## Definitions -/

/-- Behind `CREATE` and the like only `TABLE` is known. The fault for another word quotes its
text, which is the same in both places. -/
theorem definitionTarget_slides (verb : Keyword) :
    Reader.Slides n id (definitionTarget verb) (definitionTarget verb) := by
  refine (skipKeyword_slides _).bindSame fun present => ?_
  split
  · exact .pure rfl
  · refine current_slides.bind fun t => ?_
    rw [Token.shift_isEnd, Token.shift_text]
    split
    · exact failExpected_slides _
    · exact failHere_slides _

theorem definitionHead_slides : Reader.Slides n id definitionHead definitionHead := by
  refine current_slides.bind fun t => ?_
  rw [Token.shift_kind]
  split
  · refine next_slides.bind fun _ => (skipKeyword_slides _).bind fun _ => ?_
    refine (definitionTarget_slides _).bind fun _ => (skipKeyword_slides _).bindSame fun guarded => ?_
    split
    · exact (acceptKeyword_slides _).bind fun _ => (acceptKeyword_slides _).bind fun _ => .pure rfl
    · exact .pure rfl
  · exact next_slides.bind fun _ => (skipKeyword_slides _).bind fun _ =>
      (definitionTarget_slides _).bind fun _ => .pure rfl
  · refine next_slides.bind fun _ => (skipKeyword_slides _).bind fun _ => ?_
    refine (definitionTarget_slides _).bind fun _ => (skipKeyword_slides _).bindSame fun guarded => ?_
    split
    · exact (acceptKeyword_slides _).bind fun _ => .pure rfl
    · exact .pure rfl
  · exact next_slides.bind fun _ => (skipKeyword_slides _).bind fun _ => .pure rfl

theorem definedTable_slides (h : env.Behind n env') :
    Reader.Slides n (Table.shift n) (definedTable env) (definedTable env') := by
  refine tableName_slides.bind ?_
  rintro ⟨t, token⟩
  exact (declare_slides h t token).bind fun _ => .pure rfl

/-- The rest of a definition is passed without a look at what it says. -/
theorem remainder_slides (hin : inner.Slides n inner') :
    Reader.Slides n id (remainder inner) (remainder inner') := by
  refine Follows.repeating (k := id) (fun _ => ?_) ()
  refine current_slides.follows fun t => ?_
  rw [Token.shift_isEnd, Token.shift_isSymbol, Token.shift_isSymbol]
  split
  · exact Agree.pure (.stop rfl)
  · split
    · exact (parentheses_slides hin).follows fun _ => Agree.pure (.again rfl)
    · exact consume_slides.follows fun _ => Agree.pure (.again rfl)

/-- A definition keeps its text from its start to where it ends, as its text is the same in both
places. -/
theorem definition_slides (h : env.Behind n env') (hin : inner.Slides n inner') :
    Reader.Slides n (Definition.shift n) (definition env inner) (definition env' inner') := by
  refine here_slides.bind fun start => definitionHead_slides.bindSame fun kind => ?_
  extract_lets rest rest'
  have hrest : ∀ tables, Reader.Slides n (Definition.shift n) (rest tables)
      (rest' (tables.map (Table.shift n))) := by
    intro tables
    refine (remainder_slides hin).bind fun _ => lastEnd_slides.bind fun stop => ?_
    refine finishedScope_slides.bind fun scope => .pure ?_
    rw [h.text]
    rfl
  split
  · exact (commaSeparated_slides (definedTable_slides h)).bind hrest
  · exact (definedTable_slides h).bind fun t => hrest [t]

/-! ## Statements -/

theorem statement_slides (h : env.Behind n env') (hin : inner.Slides n inner') :
    Reader.Slides n (Statement.shift n) (statement env inner) (statement env' inner') := by
  have hdefine : Reader.Slides n (Statement.shift n)
      (do return .define (← definition env inner)) (do return .define (← definition env' inner')) :=
    (definition_slides h hin).bind fun _ => .pure rfl
  refine current_slides.bind fun t => ?_
  rw [Token.shift_kind]
  split
  · exact (query_slides h hin).bind fun _ => .pure rfl
  · exact (insert_slides h hin).bind fun _ => .pure rfl
  · exact (update_slides h hin).bind fun _ => .pure rfl
  · exact (delete_slides h hin).bind fun _ => .pure rfl
  · exact hdefine
  · exact hdefine
  · exact hdefine
  · exact hdefine
  · exact failExpected_slides _

/-- Behind a statement and an optional `;` the input ends, or both runs fail there. -/
theorem wholeStatement_slides (h : env.Behind n env') (hin : inner.Slides n inner') :
    Reader.Slides n (Statement.shift n) (wholeStatement env inner)
      (wholeStatement env' inner') := by
  refine (statement_slides h hin).bind fun s => (skipSymbol_slides _).bind fun _ => ?_
  refine current_slides.bind fun t => ?_
  rw [Token.shift_isEnd]
  split
  · exact .pure rfl
  · exact failExpected_slides _

end Reader

/-! ## Nesting -/

theorem Inner.upTo_slides {n : Nat} {env env' : Setting} (h : env.Behind n env') (levels : Nat) :
    (Inner.upTo env levels).Slides n (Inner.upTo env' levels) := by
  induction levels with
  | zero => constructor <;> exact Reader.refuseNesting_slides h
  | succ levels ih =>
      constructor
      · exact Reader.nested_slides h (Reader.query_slides h ih)
      · exact Reader.nested_slides h (Reader.operand_slides ih)
      · exact Reader.nested_slides h (Reader.predicate_slides h ih)
      · exact Reader.nested_slides h (Reader.group_slides h ih)
      · exact Reader.nested_slides h (Reader.tableSources_slides h ih)

/-! ## The start of a statement -/

/-- The reading `r`, with the token consumed last taken to end at `stop`. -/
def Reading.endingAt (r : Reading) (stop : Nat) : Reading :=
  { r with cursor := { r.cursor with lastEnd := stop } }

namespace Reader

variable {env : Setting} {inner : Inner} {α β : Type} {m : Reader α} {r r' : Reading}

/-- The reader consumes a token before it asks where the last one ended, or fails where it
stands. -/
def Fresh (m : Reader α) : Prop := ∀ (r : Reading) (stop : Nat),
  m (r.endingAt stop) = m r ∨
    ∃ f, m r = .error f r ∧ m (r.endingAt stop) = .error f (r.endingAt stop)

/-- Only the first step counts: what follows it starts behind a token, or is not reached. -/
theorem Fresh.bind (h : Fresh m) (f : α → Reader β) : Fresh (m >>= f) := by
  intro r stop
  change EStateM.bind m f _ = EStateM.bind m f _ ∨
    ∃ e, EStateM.bind m f _ = _ ∧ EStateM.bind m f _ = _
  unfold EStateM.bind
  rcases h r stop with h | ⟨e, h, h'⟩
  · rw [h]
    exact .inl rfl
  · rw [h, h']
    exact .inr ⟨e, rfl, rfl⟩

theorem fresh_current {f : Token → Reader α} (h : ∀ t, Fresh (f t)) : Fresh (current >>= f) :=
  fun r stop => h r.cursor.current r stop

theorem fresh_here {f : Nat → Reader α} (h : ∀ start, Fresh (f start)) : Fresh (here >>= f) :=
  fun r stop => h r.cursor.current.span.start r stop

theorem fresh_next : Fresh next := fun _ _ => .inl rfl

theorem fresh_failExpected (what : String) : Fresh (failExpected (α := α) what) :=
  fun _ _ => .inr ⟨_, rfl, rfl⟩

theorem fresh_acceptKeyword (k : Keyword) : Fresh (acceptKeyword k) := by
  intro r stop
  have haccept : ∀ c : Cursor, Cursor.accept (.keyword k) c =
      (if c.current.kind = .keyword k then do Cursor.next; return c.current
        else Cursor.failExpected (Kind.describe (.keyword k)) : Cursor.Action Token) c :=
    fun _ => rfl
  have hcurrent : (r.endingAt stop).cursor.current = r.cursor.current := rfl
  unfold acceptKeyword onCursor
  rw [haccept, haccept, hcurrent]
  by_cases hk : r.cursor.current.kind = .keyword k
  · rw [if_pos hk]
    exact .inl rfl
  · rw [if_neg hk]
    exact .inr ⟨_, rfl, rfl⟩

theorem fresh_definition : Fresh (definition env inner) := by
  have hhead : Fresh definitionHead := by
    refine fresh_current fun t => ?_
    split <;> exact fresh_next.bind _
  exact fresh_here fun _ => hhead.bind _

theorem fresh_statement : Fresh (statement env inner) := by
  refine fresh_current fun t => ?_
  split
  -- Queries and changes.
  iterate 4 exact Fresh.bind (fresh_here fun _ => (fresh_acceptKeyword _).bind _) _
  -- Definitions.
  iterate 4 exact fresh_definition.bind _
  · exact fresh_failExpected _

theorem fresh_wholeStatement : Fresh (wholeStatement env inner) := fresh_statement.bind _

/-- What a reader gives, without the reading that it leaves. -/
def verdict (m : Reader α) (r : Reading) : Except Fault α := (m.outcome r).map Prod.fst

/-- A fresh reader gives the same wherever the token consumed last is taken to end. -/
theorem Fresh.verdict_eq (h : Fresh m) (r : Reading) (stop : Nat) :
    verdict m (r.endingAt stop) = verdict m r := by
  unfold verdict outcome
  rcases h r stop with h | ⟨f, h, h'⟩
  · rw [h]
  · rw [h, h']

/-- Nothing is read at the end of the input. -/
theorem verdict_end (h : r.cursor.current.kind = .endOfInput) :
    verdict (wholeStatement env inner) r =
      .error (r.cursor.unexpected "SELECT, INSERT, UPDATE, DELETE or DDL statement") := by
  have hstatement : statement env inner r =
      .error (r.cursor.unexpected "SELECT, INSERT, UPDATE, DELETE or DDL statement") r := by
    unfold statement
    rw [current_bind, h]
    rfl
  have hwhole : wholeStatement env inner r =
      .error (r.cursor.unexpected "SELECT, INSERT, UPDATE, DELETE or DDL statement") r := by
    change EStateM.bind (statement env inner) _ r = _
    rw [EStateM.bind, hstatement]
  rw [verdict, outcome, hwhole]
  rfl

end Reader

/-! ## Runs -/

/-- A stream of tokens `n` bytes further on. -/
def TokenStream.shift (n : Nat) (s : TokenStream) : TokenStream :=
  ⟨s.tokens.map (Token.shift n), s.failure.map (LexicalFault.shift n)⟩

/-- In an orderly text, nothing but an end of input at its start ends at zero. -/
theorem Cursor.Orderly.solid {c : Cursor} (h : c.Orderly) (hend : c.current.isEnd = false)
    {stop : Nat} (hstop : 0 < stop) : Cursor.Solid { c with lastEnd := stop } := by
  have hfirst : 0 < c.current.span.stop :=
    Nat.zero_lt_of_lt (h.wide c.current (List.mem_cons_self ..) hend)
  refine ⟨hstop, fun t ht => ?_⟩
  rcases List.mem_cons.1 ht with rfl | hahead
  · exact hfirst
  · have hbehind := (List.pairwise_cons.1 h.apart).1 t hahead
    exact Nat.lt_of_lt_of_le hfirst (Nat.le_trans hbehind (h.upright t ht))

theorem Cursor.ofStream_shift (n : Nat) (s : TokenStream) :
    ofStream (s.shift n) =
      match ofStream s with
      | .ok c => .ok { c.shift n with lastEnd := 0 }
      | .error f => .error (f.shift n) := by
  obtain ⟨_ | ⟨t, ts⟩, failure⟩ := s
  · cases failure <;> rfl
  · rfl

theorem Setting.read_eq {env : Setting} {c : Cursor}
    (h : Cursor.ofText env.dialect env.source = .ok c) :
    env.read = Reader.verdict (Reader.wholeStatement env (Inner.upTo env env.limit))
      (Reading.start c) := by
  rw [Setting.read, Setting.run_of_cursor env h, Reader.verdict]

/-- From tokens that stand further on, the same statement or fault is read further on. -/
theorem Setting.Behind.read {n : Nat} {env env' : Setting} (h : env.Behind n env')
    (htokens : TokenStream.ofText env'.dialect env'.source =
      (TokenStream.ofText env.dialect env.source).shift n) :
    env'.read =
      match env.read with
      | .ok s => .ok (s.shift n)
      | .error f => .error (f.shift n) := by
  have hcursors : Cursor.ofText env'.dialect env'.source =
      match Cursor.ofText env.dialect env.source with
      | .ok c => .ok { c.shift n with lastEnd := 0 }
      | .error f => .error (f.shift n) := by
    rw [Cursor.ofText, htokens, Cursor.ofStream_shift, Cursor.ofText]
  cases hcursor : Cursor.ofText env.dialect env.source with
  | error f =>
      rw [hcursor] at hcursors
      rw [Setting.read, Setting.read, Setting.run, Setting.run, hcursors, hcursor]
      rfl
  | ok c =>
      rw [hcursor] at hcursors
      rw [Setting.read_eq hcursors, Setting.read_eq hcursor, h.limit]
      cases hend : c.current.isEnd with
      | true =>
          have hkind : c.current.kind = .endOfInput := by simpa [Token.isEnd] using hend
          rw [Reader.verdict_end hkind, Reader.verdict_end hkind]
          rfl
      | false =>
          -- Both runs may as well start behind something that was consumed.
          have hsolid := (Cursor.orderly_ofText hcursor).1.solid hend Nat.one_pos
          have hwhole := Reader.wholeStatement_slides h (Inner.upTo_slides h env.limit)
            ((Reading.start c).endingAt 1) _ ⟨hsolid, rfl⟩
          rw [← Reader.fresh_wholeStatement.verdict_eq (Reading.start c) 1,
            ← Reader.fresh_wholeStatement.verdict_eq _ (1 + n)]
          change Reader.verdict _ (((Reading.start c).endingAt 1).shift n) = _
          unfold Reader.verdict Reader.outcome
          revert hwhole
          generalize Reader.wholeStatement env _ _ = x
          generalize Reader.wholeStatement env' _ _ = x'
          rintro (⟨rfl, -⟩ | ⟨rfl, -⟩) <;> rfl

end SqlMarkers
