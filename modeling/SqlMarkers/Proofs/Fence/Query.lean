/-
SqlMarkers.Proofs.Fence.Query — queries behind a fence.

Every reader of a query does in its place what it does in a fenced reading of the text alone,
down the whole tower of nested readers (`Stage.nested_upTo`). So a query that stands in a kept
text is read in its place as it was read when the text was read alone.

One reader does not simply go through its steps: a group of conditions is tried, and given up
if it fails (`attemptGroup_follows`). If the first run fails there so that it is given up, so
does the second one, since failures that say nothing of the second run are never given up.
-/
import SqlMarkers.Proofs.Fence.Operand

namespace SqlMarkers

/-! ## Rests of paging clauses -/

namespace Reader

/-- What follows the offset of `OFFSET ... FETCH`. -/
def fetchRest (offset : Option PagingValue) : Reader Paging := do
  if ← skipKeyword .FETCH then
    if !(← skipAnyOf [.FIRST, .NEXT]) then failExpected "FIRST or NEXT"
    let count ← pagingValue
    if !(← skipAnyOf [.ROW, .ROWS]) then failExpected "ROW or ROWS"
    let _ ← acceptKeyword .ONLY
    return { form := .offsetFetch, offset, rowCount := some count }
  else return { form := .offsetFetch, offset }

/-- What is read behind the count of `TOP` and `PERCENT`. -/
def tiesRest (count : PagingValue) (percent : Bool) : Reader (Option Paging) := do
  let withTies ← if ← atKeyword .WITH then pure ((← peek).isKeyword .TIES) else pure false
  if withTies then
    next
    next
  return some { form := .top, rowCount := some count, percent, withTies }

/-- What is read behind the count of `TOP`. -/
def topRest (count : PagingValue) : Reader (Option Paging) := do
  let percent ← skipKeyword .PERCENT
  tiesRest count percent

end Reader

namespace Stage

open Reader

variable {s : Stage} {inner inner' : Inner} {α : Type}

/-! ## Tables and paging -/

theorem nameToken_follows (what : String) :
    s.Follows (Token.Moved s.shift) (nameToken what) (nameToken what) := by
  refine current_follows.bind fun t t' ht => ?_
  rw [ht.isName]
  split
  · exact next_follows.andThen fun _ _ => .pure ht
  · exact failExpected_follows _

/-- The token of a table name is the same; the table has another span. -/
theorem tableName_follows :
    s.Follows (fun a b => a.2.Moved s.shift b.2) tableName tableName := by
  refine (nameToken_follows _).bind fun first first' hfirst => ?_
  refine (atSymbol_follows _).bindEq fun dot => ?_
  split
  · exact next_follows.andThen fun _ _ => (nameToken_follows _).bind fun second second' hsecond =>
      (nameOf_follows hfirst).andThen fun _ _ => (nameOf_follows hsecond).andThen fun _ _ =>
        .pure hsecond
  · exact (nameOf_follows hfirst).andThen fun _ _ => .pure hfirst

/-- Which tables are declared is a matter of the scope. -/
theorem declare_follows (t t' : Table) (token token' : Token) :
    s.Follows Any (declare s.alone t token) (declare s.env t' token') := by
  have hstep : ∀ (env : Setting) (t : Table) (token : Token),
      ∃ f, declare env t token = modifyDraft f := by
    intro env t token
    unfold declare
    split
    · exact ⟨_, rfl⟩
    · exact ⟨id, rfl⟩
  obtain ⟨f, hf⟩ := hstep s.alone t token
  obtain ⟨f', hf'⟩ := hstep s.env t' token'
  rw [hf, hf']
  exact modifyDraft_follows f f'

/-- A hint is recognized by its word and the one behind it. -/
theorem atIndexHint_follows : s.Follows Eq atIndexHint atIndexHint := by
  refine current_follows.bind fun t t' ht => ?_
  simp only [ht.isKeyword]
  split
  · exact peek_follows.bind fun _ _ ht => .pure (by simp only [ht.isKeyword])
  · exact .pure rfl

/-- `WITH (...)` is a hint in one dialect, and the dialect is the same. -/
theorem atTableHint_follows : s.Follows Eq (atTableHint s.alone) (atTableHint s.env) := by
  unfold atTableHint
  rw [s.dialect]
  split
  · refine (atKeyword_follows _).bindEq fun present => ?_
    split
    · exact peek_follows.bind fun _ _ ht => .pure (ht.isSymbol _).symm
    · exact .pure rfl
  · exact .pure rfl

theorem hintPurpose_follows : s.Follows Any hintPurpose hintPurpose := by
  have hby : s.Follows Any (do let _ ← acceptKeyword .BY) (do let _ ← acceptKeyword .BY) :=
    (acceptKeyword_follows _).andThen fun _ _ => .pure trivial
  refine (skipKeyword_follows _).bindEq fun present => ?_
  split
  · refine (skipKeyword_follows _).bindEq fun join => ?_
    split
    · refine (skipKeyword_follows _).bindEq fun order => ?_
      split
      · exact (acceptKeyword_follows _).andThen fun _ _ => hby
      · exact hby
    · exact .pure trivial
  · exact .pure trivial

/-- Hints are passed over one by one. -/
theorem tableHints_follows : s.Follows Any (tableHints s.alone) (tableHints s.env) := by
  refine .repeating (B := Any) (fun _ _ _ => ?_) trivial
  refine atIndexHint_follows.bindEq fun index => ?_
  split
  · exact next_follows.andThen fun _ _ => next_follows.andThen fun _ _ =>
      hintPurpose_follows.andThen fun _ _ => passParentheses_follows.andThen fun _ _ =>
        .pure (.again trivial)
  · refine atTableHint_follows.bindEq fun hint => ?_
    split
    · exact next_follows.andThen fun _ _ => passParentheses_follows.andThen fun _ _ =>
        .pure (.again trivial)
    · exact .pure (.stop trivial)

/-- A table with its alias, its hints and its declaration. -/
theorem tableReference_follows :
    s.Follows Any (tableReference s.alone) (tableReference s.env) :=
  tableName_follows.andThen fun _ _ => optionalAlias_follows.andThen fun _ _ =>
    tableHints_follows.andThen fun _ _ => (declare_follows _ _ _ _).andThen fun _ _ => .pure trivial

/-- A value is in range in both runs, or in none. -/
theorem pagingValue_follows : s.Follows Any pagingValue pagingValue := by
  refine current_follows.bind fun t t' ht => ?_
  rw [ht.kind]
  split
  · exact nextParameter_follows.andThen fun _ _ => next_follows.andThen fun _ _ => .pure trivial
  iterate 2
    rw [ht.integer?]
    split
    · exact next_follows.andThen fun _ _ => .pure trivial
    · exact failAt_follows _ _ _ _
  · exact failExpected_follows _

/-- The offset does not matter for what is read behind it. -/
theorem fetchRest_follows (offset offset' : Option PagingValue) :
    s.Follows Any (fetchRest offset) (fetchRest offset') := by
  refine (skipKeyword_follows _).bindEq fun present => ?_
  split
  · refine (skipAnyOf_follows _).bindEq fun first => ?_
    split
    · exact failExpected_bind_follows _ _ _
    · refine pagingValue_follows.andThen fun _ _ => (skipAnyOf_follows _).bindEq fun rows => ?_
      split
      · exact failExpected_bind_follows _ _ _
      · exact (acceptKeyword_follows _).andThen fun _ _ => .pure trivial
  · exact .pure trivial

theorem offsetFetch_follows : s.Follows Any offsetFetch offsetFetch := by
  refine (skipKeyword_follows _).bindEq fun present => ?_
  split
  · exact pagingValue_follows.andThen fun v v' => (skipAnyOf_follows _).andThen fun _ _ =>
      fetchRest_follows (some v) (some v')
  · exact fetchRest_follows none none

/-- Whether there is a paging clause is stated as equal, since `TOP` and such a clause exclude
each other. -/
theorem optionalPaging_follows :
    s.Follows (Same Option.isSome) optionalPaging optionalPaging := by
  have hfetch : s.Follows (Same Option.isSome) (do return some (← offsetFetch))
      (do return some (← offsetFetch)) := offsetFetch_follows.andThen fun _ _ => .pure rfl
  refine current_follows.bind fun t t' ht => ?_
  rw [ht.kind]
  split
  · refine next_follows.andThen fun _ _ => pagingValue_follows.andThen fun _ _ => ?_
    refine (skipSymbol_follows _).bindEq fun comma => ?_
    split
    · exact pagingValue_follows.andThen fun _ _ => .pure rfl
    · refine (skipKeyword_follows _).bindEq fun offset => ?_
      split
      · exact pagingValue_follows.andThen fun _ _ => .pure rfl
      · exact .pure rfl
  · exact hfetch
  · exact hfetch
  · exact .pure rfl

/-- Only whether a paging clause was read is asked later, not which one. -/
theorem topRest_follows (count count' : PagingValue) :
    s.Follows (Same Option.isSome) (topRest count) (topRest count') := by
  refine (skipKeyword_follows _).bindEq fun percent => ?_
  unfold tiesRest
  extract_lets rest rest'
  have hrest : ∀ withTies, s.Follows (Same Option.isSome) (rest withTies) (rest' withTies) := by
    intro withTies
    simp only [rest, rest']
    split
    · exact next_follows.andThen fun _ _ => next_follows.andThen fun _ _ => .pure rfl
    · exact .pure rfl
  refine (atKeyword_follows _).bindEq fun present => ?_
  split
  · refine peek_follows.bind fun t t' ht => ?_
    rw [ht.isKeyword]
    exact hrest _
  · exact hrest false

theorem optionalTop_follows :
    s.Follows (Same Option.isSome) (optionalTop s.alone) (optionalTop s.env) := by
  unfold optionalTop
  rw [s.dialect]
  split
  · exact .pure rfl
  · refine (skipKeyword_follows _).bindEq fun present => ?_
    split
    · exact .pure rfl
    · refine (atSymbol_follows _).bindEq fun paren => ?_
      split
      · exact (acceptSymbol_follows _).andThen fun _ _ => pagingValue_follows.andThen fun _ _ =>
          (close_follows _ _).andThen fun _ _ => topRest_follows _ _
      · exact pagingValue_follows.andThen topRest_follows

theorem optionalDirection_follows : s.Follows Any optionalDirection optionalDirection := by
  refine current_follows.bind fun t t' ht => ?_
  rw [ht.kind]
  split
  · exact next_follows.andThen fun _ _ => .pure trivial
  · exact next_follows.andThen fun _ _ => .pure trivial
  · exact .pure trivial

/-- `NULLS` has to have a place behind it, in both runs. -/
theorem optionalNulls_follows : s.Follows Any optionalNulls optionalNulls := by
  refine (skipKeyword_follows _).bindEq fun present => ?_
  split
  · refine current_follows.bind fun t t' ht => ?_
    rw [ht.kind]
    split
    · exact next_follows.andThen fun _ _ => .pure trivial
    · exact next_follows.andThen fun _ _ => .pure trivial
    · exact failExpected_follows _
  · exact .pure trivial

/-! ## Conditions -/

section Conditions

theorem comparisonAt?_moved {t t' : Token} (h : t.Moved s.shift t') :
    comparisonAt? t' = comparisonAt? t := by
  rw [comparisonAt?, h.kind, comparisonAt?]

/-- What follows a group decides alike whether it was an operand. -/
theorem operandGoesOn_follows : s.Follows Eq (operandGoesOn s.alone) (operandGoesOn s.env) := by
  refine current_follows.bind fun t t' ht => ?_
  rw [ht.kind, s.isRegexp_moved ht]
  split
  · exact .pure rfl
  · exact peek_follows.bind fun _ _ ht => .pure (by simp only [ht.isKeyword, s.isRegexp_moved ht])
  · exact .pure rfl
  · exact .pure rfl

variable (hin : s.Nested inner inner')
include hin

/-- A query or values behind `IN`, told apart by the first token. -/
theorem membership_follows (left left' : Expr) (negated : Bool) :
    s.Follows Any (membership s.alone inner left negated)
      (membership s.env inner' left' negated) := by
  refine (acceptSymbol_follows _).andThen fun _ _ => (atKeyword_follows _).bindEq fun query => ?_
  split
  · exact hin.embed.andThen fun _ _ => (close_follows _ _).andThen fun _ _ => .pure trivial
  · exact (commaSeparated_follows (expression_follows hin)).andThen fun _ _ =>
      (close_follows _ _).andThen fun _ _ => .pure trivial

/-- `ALL` is a comparand if a parenthesis follows it, which is seen one token ahead. -/
theorem comparand_follows :
    s.Follows Any (comparand s.alone inner) (comparand s.env inner') := by
  have hall : ∀ (start start' : Nat) (all : Bool), s.Follows Any
      (do
        if all then
          next
          let _ ← parentheses inner
          verbatimFrom s.alone start
        else expression s.alone inner)
      (do
        if all then
          next
          let _ ← parentheses inner'
          verbatimFrom s.env start'
        else expression s.env inner') := by
    intro start start' all
    split
    · exact next_follows.andThen fun _ _ => (parentheses_follows hin).andThen fun _ _ =>
        verbatimFrom_follows _ _ _ _
    · exact expression_follows hin
  refine here_follows.andThen fun start start' => (atKeyword_follows _).bindEq fun all => ?_
  split
  · refine peek_follows.bind fun t t' ht => ?_
    rw [ht.isSymbol]
    exact hall start start' _
  · exact hall start start' false

/-- Behind `IS` there is `NULL` or an operand. The predicate is another one then, but that does not
matter. -/
theorem nullTest_follows (left left' : Expr) :
    s.Follows Any (nullTest s.alone inner left) (nullTest s.env inner' left') := by
  refine (skipKeyword_follows _).andThen fun _ _ => (skipKeyword_follows _).bindEq fun null => ?_
  split
  · exact .pure trivial
  · exact (operand_follows hin).andThen fun _ _ => (verbatimFrom_follows _ _ _ _).andThen
      fun _ _ => .pure trivial

/-- The operator behind an operand is seen from its word. -/
theorem matching_follows (left left' : Expr) :
    s.Follows Any (matching s.alone inner left) (matching s.env inner' left') := by
  have hexpr := expression_follows hin
  refine (skipKeyword_follows _).bindEq fun negated => current_follows.bind fun t t' ht => ?_
  rw [ht.kind, s.isRegexp_moved ht]
  split
  · exact next_follows.andThen fun _ _ => membership_follows hin _ _ _
  · exact next_follows.andThen fun _ _ => hexpr.andThen fun _ _ =>
      (acceptKeyword_follows _).andThen fun _ _ => hexpr.andThen fun _ _ => .pure trivial
  · refine next_follows.andThen fun _ _ => hexpr.andThen fun _ _ =>
      (skipKeyword_follows _).bindEq fun escape => ?_
    split
    · exact hexpr.andThen fun _ _ => .pure trivial
    · exact .pure trivial
  · split
    · exact next_follows.andThen fun _ _ => hexpr.andThen fun _ _ =>
        (verbatimFrom_follows _ _ _ _).andThen fun _ _ => .pure trivial
    · split
      · exact failExpected_follows _
      · exact .pure trivial

theorem operandPredicate_follows :
    s.Follows Any (operandPredicate s.alone inner) (operandPredicate s.env inner') := by
  refine (expression_follows hin).andThen fun left left' => current_follows.bind fun t t' ht => ?_
  rw [comparisonAt?_moved ht, ht.isKeyword]
  split
  · exact next_follows.andThen fun _ _ => (comparand_follows hin).andThen fun _ _ => .pure trivial
  · split
    · exact next_follows.andThen fun _ _ => nullTest_follows hin _ _
    · exact matching_follows hin _ _

/-- A group that is given up in the first run is given up in the second one, too: a failure that
says nothing of the second run is none of those that a group is given up for. -/
theorem attemptGroup_follows :
    s.Follows (Same Option.isSome) (attemptGroup s.alone inner) (attemptGroup s.env inner') := by
  intro k begun u r hr
  have hgroup := hin.group k begun u r hr
  have hlasting := @Nested.lasting _ _ _ hin u
  unfold attemptGroup
  revert hgroup hlasting
  generalize inner.group u = x
  generalize inner'.group r = x'
  rintro (@⟨_, _, u', r', -, hs⟩ | @⟨f, f', u', r', hfault, hlevel⟩ | @⟨f, u', _, hvoid⟩ |
    @⟨f, r', _, hunmet⟩) hlasting
  · have hbehind := operandGoesOn_follows k begun u' r' hs
    revert hbehind
    dsimp only
    generalize operandGoesOn s.alone u' = y
    generalize operandGoesOn s.env r' = y'
    rintro (@⟨goesOn, _, u'', r'', rfl, hs'⟩ | ⟨hfault, hlevel⟩ | hvoid | hunmet)
    · cases goesOn with
      | false => exact .ok rfl hs'
      | true => exact .ok rfl (hr.congr rfl rfl hs'.level)
    · exact .error hfault hlevel
    · exact .void hvoid
    · exact .unmet hunmet
  · dsimp only
    rw [hfault, hlevel.1, hlevel.2]
    by_cases hf : f.isRecoverable = true
    · rw [hf]
      exact .ok rfl (hr.congr rfl rfl hlevel)
    · rw [Bool.not_eq_true] at hf
      rw [hf]
      exact .void (.inr (.inl hf))
  · have hkept : (f.isRecoverable && !u'.nesting.exhausted) = false := by
      rcases hvoid with hf | hf | hf
      · rw [hlasting rfl hf, Bool.not_true, Bool.and_false]
      · rw [hf, Bool.false_and]
      · rw [hf, Bool.not_true, Bool.and_false]
    dsimp only
    rw [hkept]
    exact .void hvoid
  · have hkept : f.isRecoverable = false := by
      rcases hunmet with rfl | rfl <;> rfl
    dsimp only
    rw [hkept]
    exact .unmet hunmet

/-- A predicate is recognized by its first token, and in front of a parenthesis by what the attempt
at a group came to. -/
theorem predicate_follows :
    s.Follows Any (predicate s.alone inner) (predicate s.env inner') := by
  refine current_follows.bind fun t t' ht => ?_
  rw [ht.kind]
  split
  · exact next_follows.andThen fun _ _ => hin.predicate.andThen fun _ _ => .pure trivial
  · refine next_follows.andThen fun _ _ => (acceptSymbol_follows _).andThen fun _ _ => ?_
    refine (atKeyword_follows _).bindEq fun query => ?_
    split
    · exact failExpected_bind_follows _ _ _
    · exact hin.embed.andThen fun _ _ => (close_follows _ _).andThen fun _ _ => .pure trivial
  · refine peek_follows.bind fun t t' ht => ?_
    rw [ht.isKeyword]
    split
    · exact operandPredicate_follows hin
    · refine (attemptGroup_follows hin).bind fun tried tried' htried => ?_
      cases tried with
      | none =>
          cases tried' with
          | none => exact operandPredicate_follows hin
          | some _ => cases htried
      | some _ =>
          cases tried' with
          | none => cases htried
          | some _ => exact .pure trivial
  · exact operandPredicate_follows hin

/-- Conditions go on in both runs or end in both. -/
theorem conditions_follows :
    s.Follows Any (conditions s.alone inner) (conditions s.env inner') := by
  refine .repeating (B := Any) ?_ trivial
  rintro ⟨connector, done⟩ ⟨connector', done'⟩ -
  refine here_follows.andThen fun _ _ => (predicate_follows hin).andThen fun _ _ =>
    lastEnd_follows.andThen fun _ _ => current_follows.bind fun t t' ht => ?_
  rw [ht.kind]
  split
  · exact again_follows trivial
  · exact .pure (.stop trivial)

theorem group_follows : s.Follows Any (group s.alone inner) (group s.env inner') :=
  (acceptSymbol_follows _).andThen fun _ _ => (conditions_follows hin).andThen fun _ _ =>
    (acceptSymbol_follows _).andThen fun _ _ => .pure trivial

theorem conditionClause_follows (keyword : Keyword) :
    s.Follows Any (conditionClause s.alone inner keyword)
      (conditionClause s.env inner' keyword) := by
  refine (skipKeyword_follows _).bindEq fun present => ?_
  split
  · exact here_follows.andThen fun _ _ => (conditions_follows hin).andThen fun _ _ =>
      lastEnd_follows.andThen fun _ _ => .pure trivial
  · exact .pure trivial

end Conditions

/-! ## Sources and orders -/

/-- The words of a join are the same, so its kind is. -/
theorem joinKind_follows (natural : Bool) :
    s.Follows Eq (joinKind natural) (joinKind natural) := by
  have houter : ∀ kind, s.Follows Eq (joinKind.outer kind) (joinKind.outer kind) := fun _ =>
    next_follows.andThen fun _ _ => (skipKeyword_follows _).andThen fun _ _ =>
      (acceptKeyword_follows _).andThen fun _ _ => .pure rfl
  refine current_follows.bind fun t t' ht => ?_
  rw [ht.kind]
  split
  · exact next_follows.andThen fun _ _ => .pure rfl
  · exact next_follows.andThen fun _ _ => .pure rfl
  · exact next_follows.andThen fun _ _ => (acceptKeyword_follows _).andThen fun _ _ => .pure rfl
  · exact next_follows.andThen fun _ _ => (acceptKeyword_follows _).andThen fun _ _ => .pure rfl
  · exact houter _
  · exact houter _
  · exact houter _
  · split
    · exact failExpected_follows _
    · exact .pure rfl

theorem usingColumns_follows : s.Follows Any usingColumns usingColumns := by
  have hcolumn : s.Follows Eq usingColumn usingColumn :=
    (nameToken_follows _).bind fun _ _ ht => nameOf_follows ht
  exact (acceptSymbol_follows _).andThen fun _ _ => (commaSeparated_follows hcolumn).andThen
    fun _ _ => (close_follows _ _).andThen fun _ _ => .pure trivial

section Sources

variable (hin : s.Nested inner inner')
include hin

/-- Behind a parenthesis there are sources or a query, told apart by the first token. -/
theorem tableFactor_follows :
    s.Follows Any (tableFactor s.alone inner) (tableFactor s.env inner') := by
  refine (atSymbol_follows _).bindEq fun paren => ?_
  split
  · refine here_follows.andThen fun _ _ => (acceptSymbol_follows _).andThen fun _ _ =>
      (atKeyword_follows _).bindEq fun query => ?_
    split
    · exact hin.embed.andThen fun _ _ => (close_follows _ _).andThen fun _ _ =>
        lastEnd_follows.andThen fun _ _ => optionalAlias_follows.andThen fun _ _ => .pure trivial
    · exact hin.sources.andThen fun _ _ => (close_follows _ _).andThen fun _ _ => .pure trivial
  · exact tableReference_follows.andThen fun _ _ => .pure trivial

/-- Whether there is a join is stated as equal; which one does not matter. -/
theorem optionalJoin_follows :
    s.Follows (Same Option.isSome) (optionalJoin s.alone inner) (optionalJoin s.env inner') := by
  refine (skipKeyword_follows _).bindEq fun natural => (joinKind_follows _).bindEq fun kind => ?_
  split
  · exact .pure rfl
  · refine (tableFactor_follows hin).andThen fun _ _ => (skipKeyword_follows _).bindEq fun on => ?_
    split
    · exact (conditions_follows hin).andThen fun _ _ => .pure rfl
    · refine (skipKeyword_follows _).bindEq fun columns => ?_
      split
      · exact usingColumns_follows.andThen fun _ _ => .pure rfl
      · exact .pure rfl

/-- Joins are read as long as there are any. -/
theorem tableSource_follows :
    s.Follows Any (tableSource s.alone inner) (tableSource s.env inner') := by
  refine (tableFactor_follows hin).andThen fun _ _ =>
    .repeating (B := Any) (fun _ _ _ => ?_) trivial
  refine (optionalJoin_follows hin).bind fun join join' hjoin => ?_
  cases join with
  | none =>
      cases join' with
      | none => exact .pure (.stop trivial)
      | some _ => cases hjoin
  | some _ =>
      cases join' with
      | none => cases hjoin
      | some _ => exact .pure (.again trivial)

theorem tableSources_follows :
    s.Follows Any (tableSources s.alone inner) (tableSources s.env inner') :=
  commaSeparated_follows (tableSource_follows hin)

theorem fromClause_follows :
    s.Follows Any (fromClause s.alone inner) (fromClause s.env inner') := by
  refine (skipKeyword_follows _).bindEq fun present => ?_
  split
  · exact (tableSources_follows hin).andThen fun _ _ => .pure trivial
  · exact .pure trivial

theorem orderItems_follows :
    s.Follows Any (commaSeparated (orderItem s.alone inner))
      (commaSeparated (orderItem s.env inner')) :=
  commaSeparated_follows <| (expression_follows hin).andThen fun _ _ =>
    optionalDirection_follows.andThen fun _ _ => optionalNulls_follows.andThen fun _ _ =>
      .pure (R := Any) trivial

theorem orderBy_follows : s.Follows Any (orderBy s.alone inner) (orderBy s.env inner') := by
  refine (skipKeyword_follows _).bindEq fun present => ?_
  split
  · exact (acceptKeyword_follows _).andThen fun _ _ => orderItems_follows hin
  · exact .pure trivial

/-- `WITH ROLLUP` is looked for one token ahead. -/
theorem groupBy_follows : s.Follows Any (groupBy s.alone inner) (groupBy s.env inner') := by
  refine (skipKeyword_follows _).bindEq fun present => ?_
  split
  · refine (acceptKeyword_follows _).andThen fun _ _ => (orderItems_follows hin).andThen
      fun items items' => ?_
    have hrollup : ∀ rollup : Bool, s.Follows Any
        (do
          if rollup then
            next
            next
          return items)
        (do
          if rollup then
            next
            next
          return items') := by
      intro rollup
      split
      · exact next_follows.andThen fun _ _ => next_follows.andThen fun _ _ => .pure trivial
      · exact .pure trivial
    refine (atKeyword_follows _).bindEq fun present => ?_
    split
    · refine peek_follows.bind fun t t' ht => ?_
      rw [ht.isKeyword]
      exact hrollup _
    · exact hrollup false
  · exact .pure trivial

end Sources

/-! ## Queries -/

theorem distinctness_follows : s.Follows Any distinctness distinctness := by
  refine current_follows.bind fun t t' ht => ?_
  rw [ht.kind]
  split
  iterate 3 exact next_follows.andThen fun _ _ => .pure trivial
  exact .pure trivial

theorem lockWait_follows : s.Follows Any lockWait lockWait := by
  refine current_follows.bind fun t t' ht => ?_
  simp only [ht.isWord]
  split
  · exact next_follows
  · split
    · refine peek_follows.bind fun t t' ht => ?_
      rw [ht.isWord]
      split
      · exact next_follows.andThen fun _ _ => next_follows
      · exact .pure trivial
    · exact .pure trivial

/-- Locks and options are read as long as there are any, in whatever order they come. -/
theorem trailingOptions_follows :
    s.Follows Any (trailingOptions s.alone) (trailingOptions s.env) := by
  refine .repeating (B := Any) ?_ trivial
  rintro ⟨lock, option⟩ ⟨lock', option'⟩ -
  refine current_follows.bind fun t t' ht => ?_
  rw [ht.kind]
  split
  · refine next_follows.andThen fun _ _ => current_follows.bind fun t t' ht => ?_
    have hlock : ∀ l l' : Lock, s.Follows (Round.Alike Any Any)
        (do next; lockWait; return .again (some l, option) :
          Reader (Round (Option Lock × Option String) (Option Lock × Option String)))
        (do next; lockWait; return .again (some l', option')) := fun _ _ =>
      next_follows.andThen fun _ _ => lockWait_follows.andThen fun _ _ => .pure (.again trivial)
    rw [ht.kind]
    split
    · exact hlock _ _
    · exact hlock _ _
    · exact failExpected_bind_follows _ _ _
  · exact next_follows.andThen fun _ _ => (acceptKeyword_follows _).andThen fun _ _ =>
      (acceptKeyword_follows _).andThen fun _ _ => (acceptKeyword_follows _).andThen fun _ _ =>
        .pure (.again trivial)
  · refine peek_follows.bind fun t t' ht => ?_
    rw [ht.isSymbol]
    split
    · exact next_follows.andThen fun _ _ => passParentheses_follows.andThen fun _ _ =>
        lastEnd_follows.andThen fun _ _ => .pure (.again trivial)
    · exact .pure (.stop trivial)
  · exact .pure (.stop trivial)

/-- A set operation is refused in both runs; a group that was tried may be given up for that. -/
theorem refuseSetOperation_follows : s.Follows Any refuseSetOperation refuseSetOperation := by
  refine current_follows.bind fun t t' ht => ?_
  rw [ht.kind]
  split
  iterate 3 exact failHere_follows _
  exact .pure trivial

/-- Whether `TOP` and a paging clause meet is seen alike; the fault it leads to is one that a
group is given up for. -/
theorem query_follows (hin : s.Nested inner inner') :
    s.Follows Any (query s.alone inner) (query s.env inner') := by
  refine here_follows.andThen fun start start' => (acceptKeyword_follows _).andThen fun _ _ =>
    distinctness_follows.andThen fun distinct distinct' => ?_
  extract_lets clauses clauses'
  have hclauses : s.Follows Any (clauses ()) (clauses' ()) := by
    refine optionalTop_follows.bind fun top top' htop =>
      (commaSeparated_follows (selectItem_follows hin)).andThen fun _ _ =>
      (fromClause_follows hin).andThen fun _ _ =>
      (conditionClause_follows hin .WHERE).andThen fun _ _ =>
      (groupBy_follows hin).andThen fun _ _ =>
      (conditionClause_follows hin .HAVING).andThen fun _ _ =>
      (orderBy_follows hin).andThen fun _ _ =>
      here_follows.andThen fun _ _ => optionalPaging_follows.bind fun paging paging' hpaging => ?_
    extract_lets options options'
    have hoptions : s.Follows Any (options ()) (options' ()) := by
      refine trailingOptions_follows.andThen ?_
      rintro ⟨lock, option⟩ ⟨lock', option'⟩
      exact refuseSetOperation_follows.andThen fun _ _ => lastEnd_follows.andThen fun _ _ =>
        get_follows.andThen fun _ _ => .pure trivial
    rw [← htop.eq, ← hpaging.eq]
    split
    · exact (failAt_follows (R := Any) _ _ _ _).andThen fun _ _ => hoptions
    · exact hoptions
  rw [s.dialect]
  split
  · exact (skipKeywords_follows _).andThen fun _ _ => hclauses
  · exact hclauses

/-! ## The towers -/

/-- At the limit of the text alone every nested reader is refused, which says nothing of those in
its place. -/
theorem nested_exhausted (s : Stage) (inner : Inner) :
    s.Nested (Inner.guardedUpTo s.alone 0) inner := by
  have hrefused : ∀ {α : Type} (x : Reader α), s.Follows Any (refuseNesting s.alone) x :=
    fun _ _ _ _ _ _ => .void (.inr (.inr rfl))
  refine ⟨hrefused _, hrefused _, hrefused _, hrefused _, hrefused _, fun hgroup _ => ?_⟩
  cases hgroup
  rfl

/-- The nested readers of a text that is read alone are followed by those in its place, if
these may nest as deep. -/
theorem nested_upTo (hroom : s.depth + s.alone.limit ≤ s.env.limit) {n m : Nat} (hlevels : n ≤ m) :
    s.Nested (Inner.guardedUpTo s.alone n) (Inner.upTo s.env m) := by
  induction n generalizing m with
  | zero => exact s.nested_exhausted _
  | succ n ih =>
      obtain ⟨m, rfl⟩ : ∃ j, m = j + 1 := ⟨m - 1, by omega⟩
      have hin := ih (Nat.le_of_succ_le_succ hlevels)
      exact ⟨nested_follows hroom (query_follows hin), nested_follows hroom (operand_follows hin),
        nested_follows hroom (predicate_follows hin),
        guarded_follows (nested_follows hroom (group_follows hin)),
        nested_follows hroom (tableSources_follows hin), lasting_guarded⟩

end Stage

end SqlMarkers
