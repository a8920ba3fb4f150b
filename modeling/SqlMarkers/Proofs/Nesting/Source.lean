/-
SqlMarkers.Proofs.Nesting.Source — tables, joins and the `FROM` clause under a nesting
limit.

Sources are where trees grow: a factor in parentheses holds a query or further sources, both
of them read one level deeper and so less than `n` high. A factor is one higher than what it
holds, and the lemmas below carry the bound `n` from factors to joins, from joins to sources
and to the whole clause. Names, hints and the
words of a join call no nested reader and are compared with themselves.
-/
import SqlMarkers.Proofs.Nesting.Condition

namespace SqlMarkers.Reader

variable {cap : Cap} {n room : Nat} {env : Setting} {inner inner' : Inner}

/-! ## Tables -/

theorem nameToken_level (what : String) : Level cap room (nameToken what) := by
  refine current_level.bind fun t _ => ?_
  split
  · exact next_level.bind fun _ _ => .pure trivial
  · exact failExpected_capped _

/-- A table name is read without nesting, with a schema or without. -/
theorem tableName_level : Level cap room tableName := by
  refine (nameToken_level _).bind fun first _ => (atSymbol_level _).bind fun dot _ => ?_
  split
  · exact next_level.bind fun _ _ => (nameToken_level _).bind fun second _ =>
      (nameOf_level first).bind fun _ _ => (nameOf_level second).bind fun _ _ => .pure trivial
  · exact (nameOf_level first).bind fun _ _ => .pure trivial

/-- Declaring a table changes the scope, but not the queries that are attached to it. -/
theorem declare_level (t : Table) (token : Token) : Level cap room (declare env t token) := by
  unfold declare
  split
  · exact modifyDraft_level fun _ => rfl
  · exact .pure trivial

theorem atIndexHint_level : Level cap room atIndexHint := by
  refine current_level.bind fun t _ => ?_
  split
  · exact peek_level.bind fun _ _ => .pure trivial
  · exact .pure trivial

/-- Only one dialect has table hints; in the others nothing is looked at. -/
theorem atTableHint_level : Level cap room (atTableHint env) := by
  unfold atTableHint
  split
  · refine (atKeyword_level _).bind fun hint _ => ?_
    split
    · exact peek_level.bind fun _ _ => .pure trivial
    · exact .pure trivial
  · exact .pure trivial

/-- All forms of a purpose are keywords. -/
theorem hintPurpose_level : Level cap room hintPurpose := by
  have hby : Level cap room (do let _ ← acceptKeyword .BY) :=
    (acceptKeyword_level _).bind fun _ _ => .pure trivial
  refine (skipKeyword_level _).bind fun purpose _ => ?_
  split
  · refine (skipKeyword_level _).bind fun join _ => ?_
    split
    · refine (skipKeyword_level _).bind fun order _ => ?_
      split
      · exact (acceptKeyword_level _).bind fun _ _ => hby
      · exact hby
    · exact .pure trivial
  · exact .pure trivial

/-- Hints in parentheses are passed over token by token. Queries in them are not read, so
hints do not nest. -/
theorem tableHints_level : Level cap room (tableHints env) := by
  refine Capped.repeating (fun _ => True) (fun _ _ => ?_) trivial
  refine atIndexHint_level.bind fun index _ => ?_
  split
  · exact next_level.bind fun _ _ => next_level.bind fun _ _ => hintPurpose_level.bind fun _ _ =>
      passParentheses_level.bind fun _ _ => .pure trivial
  · refine atTableHint_level.bind fun hint _ => ?_
    split
    · exact next_level.bind fun _ _ => passParentheses_level.bind fun _ _ => .pure trivial
    · exact .pure trivial

/-- A table, its alias and its hints are read on one level. -/
theorem tableReference_level : Level cap room (tableReference env) :=
  tableName_level.bind fun _ _ => (optionalAlias_level env).bind fun _ _ =>
    tableHints_level.bind fun _ _ => (declare_level _ _).bind fun _ _ => .pure trivial

/-! ## Joins -/

/-- What stands in parentheses is read one level deeper and is less than `n` high; the factor is
one higher. -/
theorem tableFactor_capped (hin : inner.Capped cap n room inner') :
    Capped cap room (fun factor => factor.height ≤ n) (tableFactor env inner)
      (tableFactor env inner') := by
  refine (atSymbol_level _).bind fun paren _ => ?_
  split
  · refine here_level.bind fun start _ => (acceptSymbol_level _).bind fun opening _ => ?_
    refine (atKeyword_level _).bind fun select _ => ?_
    split
    · refine hin.embed.bind fun q hq => (close_level _).bind fun _ _ => ?_
      exact lastEnd_level.bind fun _ _ => (optionalAlias_level env).bind fun _ _ => .pure hq
    · exact hin.sources.bind fun ss hss => (close_level _).bind fun _ _ => .pure hss
  · exact tableReference_level.bind fun _ _ => .pure (Nat.zero_le n)

/-- The words of a join, where the one in front of `JOIN` decides its kind. -/
theorem joinKind_level (natural : Bool) : Level cap room (joinKind natural) := by
  have hjoin : ∀ kind, Level cap room
      (do let _ ← acceptKeyword .JOIN; return some kind : Reader (Option JoinKind)) :=
    fun kind => (acceptKeyword_level _).bind fun _ _ => .pure trivial
  have houter : ∀ kind, Level cap room (joinKind.outer kind) :=
    fun kind => next_level.bind fun _ _ => (skipKeyword_level _).bind fun _ _ => hjoin kind
  refine current_level.bind fun t _ => ?_
  split
  · exact next_level.bind fun _ _ => .pure trivial
  · exact next_level.bind fun _ _ => .pure trivial
  · exact next_level.bind fun _ _ => hjoin _
  · exact next_level.bind fun _ _ => hjoin _
  · exact houter _
  · exact houter _
  · exact houter _
  · split
    · exact failExpected_capped _
    · exact .pure trivial

/-- Columns are names, so their parentheses count as no level. -/
theorem usingColumns_level : Level cap room usingColumns := by
  have hcolumn : Level cap room usingColumn :=
    (nameToken_level _).bind fun t _ => nameOf_level t
  refine (acceptSymbol_level _).bind fun opening _ => ?_
  exact (commaSeparated_capped hcolumn).bind fun _ _ => (close_level _).bind fun _ _ => .pure trivial

/-- A join is as high as its factor or its conditions, whichever is higher. -/
theorem optionalJoin_capped (hin : inner.Capped cap n room inner') :
    Capped cap room (fun join => ∀ j ∈ join, Join.heightIn [j] ≤ n) (optionalJoin env inner)
      (optionalJoin env inner') := by
  refine (skipKeyword_level _).bind fun natural _ => (joinKind_level natural).bind fun kind _ => ?_
  split
  · exact .pure (by simp)
  · refine (tableFactor_capped hin).bind fun factor hfactor => ?_
    refine (skipKeyword_level _).bind fun on _ => ?_
    split
    · refine (conditions_capped hin).bind fun cs hcs => .pure ?_
      simpa [Join.heightIn] using Nat.max_le.2 ⟨hfactor, hcs⟩
    · refine (skipKeyword_level _).bind fun columns _ => ?_
      split
      · refine usingColumns_level.bind fun _ _ => .pure ?_
        simpa [Join.heightIn, Condition.heightIn] using hfactor
      · refine .pure ?_
        simpa [Join.heightIn, Condition.heightIn] using hfactor

/-- A source is as high as the highest of its factor and its joins. The joins read so far keep to
the bound in every round. -/
theorem tableSource_capped (hin : inner.Capped cap n room inner') :
    Capped cap room (fun source => TableSource.heightIn [source] ≤ n) (tableSource env inner)
      (tableSource env inner') := by
  refine (tableFactor_capped hin).bind fun factor hfactor => ?_
  refine Capped.repeating (fun joins => Join.heightIn joins ≤ n) (fun joins hjoins => ?_)
    (Nat.zero_le n)
  refine (optionalJoin_capped hin).bind fun join hjoin => ?_
  cases join with
  | some j =>
      refine .pure ?_
      show Join.heightIn (joins ++ [j]) ≤ n
      rw [Join.heightIn_append]
      exact Nat.max_le.2 ⟨hjoins, hjoin j rfl⟩
  | none =>
      refine .pure ?_
      show TableSource.heightIn [⟨factor, joins⟩] ≤ n
      simpa [TableSource.heightIn] using Nat.max_le.2 ⟨hfactor, hjoins⟩

/-- Sources with commas between them are all on one level. -/
theorem tableSources_capped (hin : inner.Capped cap n room inner') :
    Capped cap room (fun sources => TableSource.heightIn sources ≤ n) (tableSources env inner)
      (tableSources env inner') :=
  (commaSeparated_capped (tableSource_capped hin)).imp fun _ hss => TableSource.heightIn_le hss

/-- Without a `FROM` clause there is nothing that could be high. -/
theorem fromClause_capped (hin : inner.Capped cap n room inner') :
    Capped cap room (fun sources => TableSource.heightIn (sources.getD []) ≤ n)
      (fromClause env inner) (fromClause env inner') := by
  refine (skipKeyword_level _).bind fun present _ => ?_
  split
  · exact (tableSources_capped hin).bind fun _ hss => .pure hss
  · exact .pure (Nat.zero_le n)

end SqlMarkers.Reader
