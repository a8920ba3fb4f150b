/-
SqlMarkers.Proofs.Nesting.Statement — the tower of nested readers, and whole
statements, under a nesting limit.

`Inner.upTo_capped` goes up the tower: readers that may nest `n` levels deeper do what
those of a higher tower under a higher limit do, unless they are refused. With a tower
compared to itself, the same says that every nested reader leaves the level of the
reading as it was.

A statement is no query, but has a scope of its own as a query has: what is attached to it
counts for its height, and it is at most as high as the tower reaches.
-/
import SqlMarkers.Proofs.Nesting.Clause

namespace SqlMarkers

variable {cap : Cap} {n room : Nat} {env : Setting} {inner inner' : Inner}

namespace Reader

/-! ## Changes -/

/-- The scope of a statement, whose queries are in bounds. -/
theorem finishedScope_capped :
    Capped cap room (fun scope => Query.heightIn scope.subqueries ≤ room) finishedScope
      finishedScope :=
  get_capped.bind fun _ hr => .pure hr

theorem exprTuple_capped (hin : inner.Capped cap n room inner') :
    Capped cap room (fun _ => True) (exprTuple env inner) (exprTuple env inner') := by
  refine (acceptSymbol_level _).bind fun opening _ => (atSymbol_level _).bind fun empty _ => ?_
  have hclose : ∀ values : List Expr, Level cap room (do close opening; return values) :=
    fun _ => (close_level opening).bind fun _ _ => .pure trivial
  split
  · exact hclose []
  · exact (commaSeparated_capped (expression_capped hin)).bind fun values _ => hclose values

theorem assignments_capped (hin : inner.Capped cap n room inner') :
    Capped cap room (fun _ => True) (assignments env inner) (assignments env inner') := by
  have hassignment : Capped cap room (fun _ => True) (assignment env inner)
      (assignment env inner') :=
    (expression_capped hin).bind fun _ _ => (acceptSymbol_level _).bind fun _ _ =>
      (expression_capped hin).bind fun _ _ => .pure trivial
  exact (commaSeparated_capped hassignment).imp fun _ _ => trivial

theorem insertColumns_capped (hin : inner.Capped cap n room inner') :
    Capped cap room (fun _ => True) (insertColumns env inner) (insertColumns env inner') := by
  refine (atSymbol_level _).bind fun paren _ => ?_
  split
  · refine peek_level.bind fun t _ => ?_
    split
    · exact .pure trivial
    · exact exprTuple_capped hin
  · exact .pure trivial

/-- The query of an `INSERT` is one level down; rows and assignments have no height. -/
theorem insertSource_capped (hin : inner.Capped cap n room inner') :
    Capped cap room (fun source => source.height ≤ n) (insertSource env inner)
      (insertSource env inner') := by
  have hrow : Capped cap room (fun _ => True) (valuesRow env inner) (valuesRow env inner') :=
    here_level.bind fun _ _ => (exprTuple_capped hin).bind fun _ _ => lastEnd_level.bind fun _ _ =>
      .pure trivial
  have hrows : Capped cap room (fun source => source.height ≤ n) (insertSource.rows env inner)
      (insertSource.rows env inner') :=
    next_level.bind fun _ _ => (commaSeparated_capped hrow).bind fun _ _ => .pure (Nat.zero_le n)
  refine current_level.bind fun t _ => ?_
  split
  · exact hrows
  · exact hrows
  · exact next_level.bind fun _ _ => (assignments_capped hin).bind fun _ _ => .pure (Nat.zero_le n)
  · exact hin.embed.bind fun _ hq => .pure hq
  · exact (acceptSymbol_level _).bind fun _ _ => hin.embed.bind fun _ hq =>
      (close_level _).bind fun _ _ => .pure hq
  · exact failExpected_capped _

theorem onDuplicate_capped (hin : inner.Capped cap n room inner') :
    Capped cap room (fun _ => True) (onDuplicate env inner) (onDuplicate env inner') := by
  refine peekBehind_capped fun present => ?_
  split
  · exact next_level.bind fun _ _ => next_level.bind fun _ _ => (acceptKeyword_level _).bind
      fun _ _ => (acceptKeyword_level _).bind fun _ _ => assignments_capped hin
  · exact .pure trivial

/-- An `INSERT` is as high as its rows and the queries of its scope. -/
theorem insert_capped (hin : inner.Capped cap n n inner') :
    Capped cap n (fun s => (Statement.insert s).height ≤ n) (insert env inner)
      (insert env inner') := by
  refine here_level.bind fun _ _ => (acceptKeyword_level _).bind fun _ _ => ?_
  refine (skipKeywords_level _).bind fun _ _ => (skipKeyword_level _).bind fun _ _ => ?_
  refine tableReference_level.bind fun _ _ => (insertColumns_capped hin).bind fun _ _ => ?_
  refine (insertSource_capped hin).bind fun source hsource => ?_
  refine (onDuplicate_capped hin).bind fun _ _ => lastEnd_level.bind fun _ _ => ?_
  exact finishedScope_capped.bind fun scope hscope => .pure (Nat.max_le.2 ⟨hsource, hscope⟩)

theorem update_capped (hin : inner.Capped cap n n inner') :
    Capped cap n (fun s => (Statement.update s).height ≤ n) (update env inner)
      (update env inner') := by
  refine here_level.bind fun _ _ => (acceptKeyword_level _).bind fun _ _ => ?_
  refine (skipKeywords_level _).bind fun _ _ => tableReference_level.bind fun _ _ => ?_
  refine (acceptKeyword_level _).bind fun _ _ => (assignments_capped hin).bind fun _ _ => ?_
  refine (conditionClause_capped hin _).bind fun filter hfilter => ?_
  refine (orderBy_capped hin).bind fun _ _ => optionalPaging_level.bind fun _ _ => ?_
  refine lastEnd_level.bind fun _ _ => finishedScope_capped.bind fun scope hscope => ?_
  exact .pure (Nat.max_le.2 ⟨hfilter, hscope⟩)

theorem delete_capped (hin : inner.Capped cap n n inner') :
    Capped cap n (fun s => (Statement.delete s).height ≤ n) (delete env inner)
      (delete env inner') := by
  refine here_level.bind fun _ _ => (acceptKeyword_level _).bind fun _ _ => ?_
  refine (skipKeywords_level _).bind fun _ _ => (skipKeyword_level _).bind fun _ _ => ?_
  refine tableReference_level.bind fun _ _ => ?_
  refine (conditionClause_capped hin _).bind fun filter hfilter => ?_
  refine (orderBy_capped hin).bind fun _ _ => optionalPaging_level.bind fun _ _ => ?_
  refine lastEnd_level.bind fun _ _ => finishedScope_capped.bind fun scope hscope => ?_
  exact .pure (Nat.max_le.2 ⟨hfilter, hscope⟩)

/-! ## Definitions -/

/-- The head of a definition nests nothing. -/
theorem definitionTarget_level (verb : Keyword) : Level cap room (definitionTarget verb) := by
  refine (skipKeyword_level _).bind fun present _ => ?_
  split
  · exact .pure trivial
  · refine current_level.bind fun t _ => ?_
    split
    · exact failExpected_capped _
    · exact failHere_capped (by simp)

theorem definitionHead_level : Level cap room definitionHead := by
  refine current_level.bind fun t _ => ?_
  split
  · refine next_level.bind fun _ _ => (skipKeyword_level _).bind fun _ _ => ?_
    refine (definitionTarget_level _).bind fun _ _ => (skipKeyword_level _).bind fun guarded _ => ?_
    split
    · exact (acceptKeyword_level _).bind fun _ _ => (acceptKeyword_level _).bind fun _ _ =>
        .pure trivial
    · exact .pure trivial
  · exact next_level.bind fun _ _ => (skipKeyword_level _).bind fun _ _ =>
      (definitionTarget_level _).bind fun _ _ => .pure trivial
  · refine next_level.bind fun _ _ => (skipKeyword_level _).bind fun _ _ => ?_
    refine (definitionTarget_level _).bind fun _ _ => (skipKeyword_level _).bind fun guarded _ => ?_
    split
    · exact (acceptKeyword_level _).bind fun _ _ => .pure trivial
    · exact .pure trivial
  · exact next_level.bind fun _ _ => (skipKeyword_level _).bind fun _ _ => .pure trivial

theorem definedTable_level : Level cap room (definedTable env) :=
  tableName_level.bind fun _ _ => (declare_level _ _).bind fun _ _ => .pure trivial

/-- The rest of a definition is passed. Queries in its parentheses go to the scope, which is
where a definition gets its height. -/
theorem remainder_capped (hin : inner.Capped cap n room inner') :
    Capped cap room (fun _ => True) (remainder inner) (remainder inner') := by
  refine Capped.repeating (fun _ => True) (fun _ _ => ?_) trivial
  refine current_level.bind fun t _ => ?_
  split
  · exact .pure trivial
  · split
    · exact (parentheses_capped hin).bind fun _ _ => .pure trivial
    · exact consume_level.bind fun _ _ => .pure trivial

/-- A definition is as high as the queries of its scope. -/
theorem definition_capped (hin : inner.Capped cap n n inner') :
    Capped cap n (fun s => (Statement.define s).height ≤ n) (definition env inner)
      (definition env inner') := by
  refine here_level.bind fun start _ => definitionHead_level.bind fun kind _ => ?_
  extract_lets rest rest'
  have hrest : ∀ tables,
      Capped cap n (fun s => (Statement.define s).height ≤ n) (rest tables) (rest' tables) :=
    fun tables => (remainder_capped hin).bind fun _ _ => lastEnd_level.bind fun _ _ =>
      finishedScope_capped.bind fun _ hscope => .pure hscope
  split
  · exact (commaSeparated_capped definedTable_level).bind fun tables _ => hrest tables
  · exact definedTable_level.bind fun t _ => hrest [t]

/-! ## Statements -/

/-- A statement is at most `n` high, with `n` the reach of the nested readers. -/
theorem statement_capped (hin : inner.Capped cap n n inner') :
    Capped cap n (fun s => s.height ≤ n) (statement env inner) (statement env inner') := by
  have hdefine : Capped cap n (fun s => s.height ≤ n)
      (do return .define (← definition env inner) : Reader Statement)
      (do return .define (← definition env inner')) :=
    (definition_capped hin).bind fun _ hs => .pure hs
  refine current_level.bind fun t _ => ?_
  split
  · exact (query_capped hin).bind fun _ hs => .pure hs
  · exact (insert_capped hin).bind fun _ hs => .pure hs
  · exact (update_capped hin).bind fun _ hs => .pure hs
  · exact (delete_capped hin).bind fun _ hs => .pure hs
  · exact hdefine
  · exact hdefine
  · exact hdefine
  · exact hdefine
  · exact failExpected_capped _

theorem wholeStatement_capped (hin : inner.Capped cap n n inner') :
    Capped cap n (fun s => s.height ≤ n) (wholeStatement env inner)
      (wholeStatement env inner') := by
  refine (statement_capped hin).bind fun s hs => (skipSymbol_level _).bind fun _ _ => ?_
  refine current_level.bind fun t _ => ?_
  split
  · exact .pure hs
  · exact failExpected_capped _

end Reader

/-! ## The tower -/

/-- The same setting under another nesting limit. -/
def Setting.withLimit (env : Setting) (limit : Nat) : Setting := { env with limit }

/-- A nested query has a scope of its own, so there its own height is the bound. -/
theorem Inner.embed_capped {P : Query → Prop}
    (h : Reader.Capped cap n P inner.query inner'.query) :
    Reader.Capped cap room P inner.embed inner'.embed := by
  intro r hr
  have hquery := h { r with draft := Draft.startingAt r.draft.parameters }
    ⟨hr.level, Nat.zero_le n⟩
  unfold Inner.embed
  revert hquery
  generalize inner.query _ = x
  generalize inner'.query _ = x'
  rintro (⟨hq, hadmitted, hnesting⟩ | ⟨hother, hnesting⟩ | ⟨hnesting, hsame⟩)
  · exact .ok hq ⟨hadmitted.level, hr.height⟩ hnesting
  · exact .fault hother hnesting
  · refine .refused hnesting fun h => ?_
    rw [hsame h]

/-- Readers that may nest `n` levels deeper do what those of a higher tower do under a
higher limit, or are refused. -/
theorem Inner.upTo_capped {limit n n' : Nat} (hlimit : env.limit ≤ limit) (hn : n ≤ n') :
    ∀ room, n ≤ room →
      (Inner.upTo env n).Capped (.below env.limit) n room (Inner.upTo (env.withLimit limit) n') := by
  induction n generalizing n' with
  | zero =>
      intro room hroom
      constructor
      · exact hroom
      · exact fun _ _ => .refused rfl False.elim
      all_goals exact Reader.refuseNesting_capped env _
  | succ n ih =>
      obtain ⟨m, rfl⟩ : ∃ m, n' = m + 1 := ⟨n' - 1, by omega⟩
      intro room hroom
      have htower := ih (Nat.le_of_succ_le_succ hn)
      have hown := htower n (Nat.le_refl n)
      have hin := htower room (Nat.le_of_succ_le hroom)
      have hnested : ∀ {room : Nat} {α : Type} {P : α → Prop} {m m' : Reader α},
          Reader.Capped (.below env.limit) room P m m' →
            Reader.Capped (.below env.limit) room P (Reader.nested env m)
              (Reader.nested (env.withLimit limit) m') :=
        fun h => Reader.nested_capped hlimit rfl rfl False.elim (fun _ _ => trivial) h
      constructor
      · exact hroom
      · exact Inner.embed_capped
          (hnested ((Reader.query_capped hown).imp fun _ hq => Nat.lt_succ_of_le hq))
      · exact hnested (Reader.operand_capped hin)
      · exact hnested ((Reader.predicate_capped hin).imp fun _ hp => Nat.lt_succ_of_le hp)
      · exact hnested ((Reader.group_capped hin).imp fun _ hcs => Nat.lt_succ_of_le hcs)
      · exact hnested ((Reader.tableSources_capped hin).imp fun _ hss => Nat.lt_succ_of_le hss)

end SqlMarkers
