/-
SqlMarkers.Proofs.Shifting.Source — tables, joins and the `FROM` clause further on in a text.

The names, hints and words around a source are read alike wherever they stand. Moving a
source moves the spans of its tables, and those of the queries and conditions in it; names,
aliases, kinds of joins and columns are not touched. The one step that writes to the scope
is the declaration of a table: the catalogue knows it by its name, so it is declared in both
places or in neither.
-/
import SqlMarkers.Proofs.Shifting.Condition

namespace SqlMarkers.Reader

variable {n : Nat} {env env' : Setting} {inner inner' : Inner}

/-! ## Tables -/

/-- A name is expected in both places, and the token read there is moved. -/
theorem nameToken_slides (what : String) :
    Reader.Slides n (Token.shift n) (nameToken what) (nameToken what) := by
  refine current_slides.bind fun t => ?_
  rw [Token.shift_isName]
  split
  · exact next_slides.bind fun _ => .pure rfl
  · exact failExpected_slides _

/-- The span of a table is that of its last name, and is moved with it. -/
theorem tableName_slides :
    Reader.Slides n (Prod.map (Table.shift n) (Token.shift n)) tableName tableName := by
  refine (nameToken_slides _).bind fun first => (atSymbol_slides _).bindSame fun dot => ?_
  split
  · exact next_slides.bind fun _ => (nameToken_slides _).bind fun second =>
      (nameOf_slides first).bind fun schema => (nameOf_slides second).bind fun name => .pure rfl
  · exact (nameOf_slides first).bind fun name => .pure rfl

/-- A moved table is declared as the table is. The markers and tables of the scope are moved, and
the new ones come last in both. -/
theorem declare_slides (h : env.Behind n env') (t : Table) (token : Token) :
    Reader.Slides n id (declare env t token) (declare env' (t.shift n) (token.shift n)) := by
  have hsharded : isSharded env' (t.shift n) = isSharded env t := by
    rw [isSharded, h.catalogue]
    rfl
  unfold declare
  rw [hsharded]
  split
  · refine modifyDraft_slides fun d => ?_
    simp only [Draft.shift, Draft.declare, List.map_append, List.map_singleton]
    rfl
  · exact .pure rfl

/-- A look ahead finds the same two tokens. -/
theorem atIndexHint_slides : Reader.Slides n id atIndexHint atIndexHint := by
  refine current_slides.bind fun t => ?_
  rw [Token.shift_isKeyword, Token.shift_isKeyword, Token.shift_isKeyword]
  split
  · exact peek_slides.bind fun _ => .pure rfl
  · exact .pure rfl

/-- Table hints are looked for in one dialect, which is the same for both texts. -/
theorem atTableHint_slides (h : env.Behind n env') :
    Reader.Slides n id (atTableHint env) (atTableHint env') := by
  rw [atTableHint, atTableHint, h.dialect]
  split
  · refine (atKeyword_slides _).bindSame fun hint => ?_
    split
    · exact peek_slides.bind fun _ => .pure rfl
    · exact .pure rfl
  · exact .pure rfl

/-- A purpose gives no tree, so nothing is moved. -/
theorem hintPurpose_slides : Reader.Slides n id hintPurpose hintPurpose := by
  have hby : Reader.Slides n id (do let _ ← acceptKeyword .BY) (do let _ ← acceptKeyword .BY) :=
    (acceptKeyword_slides _).bind fun _ => .pure rfl
  refine (skipKeyword_slides _).bindSame fun purpose => ?_
  split
  · refine (skipKeyword_slides _).bindSame fun join => ?_
    split
    · refine (skipKeyword_slides _).bindSame fun order => ?_
      split
      · exact (acceptKeyword_slides _).bind fun _ => hby
      · exact hby
    · exact .pure rfl
  · exact .pure rfl

/-- As many hints are skipped in both places, and none of them is kept. -/
theorem tableHints_slides (h : env.Behind n env') :
    Reader.Slides n id (tableHints env) (tableHints env') := by
  refine Follows.repeating (k := id) (fun _ => ?_) ()
  refine atIndexHint_slides.follows fun index => ?_
  cases index with
  | true => exact next_slides.follows fun _ => next_slides.follows fun _ =>
      hintPurpose_slides.follows fun _ => passParentheses_slides.follows fun _ =>
        Agree.pure (.again rfl)
  | false =>
      refine (atTableHint_slides h).follows fun hint => ?_
      cases hint with
      | true => exact next_slides.follows fun _ => passParentheses_slides.follows fun _ =>
          Agree.pure (.again rfl)
      | false => exact Agree.pure (.stop rfl)

/-- The alias of a table has no span of its own. -/
theorem tableReference_slides (h : env.Behind n env') :
    Reader.Slides n (Table.shift n) (tableReference env) (tableReference env') := by
  refine tableName_slides.bind ?_
  rintro ⟨t, token⟩
  exact (optionalAlias_slides h).bindSame fun aliasName => (tableHints_slides h).bind fun _ =>
    (declare_slides h { t with aliasName } token).bind fun _ => .pure rfl

/-! ## Joins -/

/-- A factor in parentheses is moved with the span of its parentheses, which is taken where they
open and close. -/
theorem tableFactor_slides (h : env.Behind n env') (hin : inner.Slides n inner') :
    Reader.Slides n (TableFactor.shift n) (tableFactor env inner) (tableFactor env' inner') := by
  refine (atSymbol_slides _).bindSame fun paren => ?_
  split
  · refine here_slides.bind fun start => (acceptSymbol_slides _).bind fun opening => ?_
    refine (atKeyword_slides _).bindSame fun select => ?_
    split
    · exact hin.embed.bind fun q => (close_slides opening).bind fun _ =>
        lastEnd_slides.bind fun stop => (optionalAlias_slides h).bind fun aliasName => .pure rfl
    · refine hin.sources.bind fun sources => (close_slides opening).bind fun _ => .pure ?_
      rw [TableFactor.shift, TableSource.shiftAll_eq_map]
  · exact (tableReference_slides h).bind fun t => .pure rfl

/-- The kind of a join, or the lack of one, is told by keywords. -/
theorem joinKind_slides (natural : Bool) :
    Reader.Slides n id (joinKind natural) (joinKind natural) := by
  have hjoin : ∀ kind, Reader.Slides n id
      (do let _ ← acceptKeyword .JOIN; return some kind : Reader (Option JoinKind))
      (do let _ ← acceptKeyword .JOIN; return some kind) :=
    fun kind => (acceptKeyword_slides _).bind fun _ => .pure rfl
  have houter : ∀ kind, Reader.Slides n id (joinKind.outer kind) (joinKind.outer kind) :=
    fun kind => next_slides.bind fun _ => (skipKeyword_slides _).bind fun _ => hjoin kind
  refine current_slides.bind fun t => ?_
  rw [Token.shift_kind]
  split
  · exact next_slides.bind fun _ => .pure rfl
  · exact next_slides.bind fun _ => .pure rfl
  · exact next_slides.bind fun _ => hjoin _
  · exact next_slides.bind fun _ => hjoin _
  · exact houter _
  · exact houter _
  · exact houter _
  · split
    · exact failExpected_slides _
    · exact .pure rfl

theorem usingColumns_slides : Reader.Slides n id usingColumns usingColumns := by
  have hcolumn : Reader.Slides n id usingColumn usingColumn :=
    (nameToken_slides _).bind fun t => nameOf_slides t
  refine (acceptSymbol_slides _).bind fun opening => ?_
  refine (commaSeparated_slides hcolumn).bind fun columns => (close_slides opening).bind fun _ => ?_
  exact .pure (List.map_id columns)

/-- A join is moved with its factor and its conditions; its columns are plain names. -/
theorem optionalJoin_slides (h : env.Behind n env') (hin : inner.Slides n inner') :
    Reader.Slides n (Option.map (Join.shift n)) (optionalJoin env inner)
      (optionalJoin env' inner') := by
  refine (skipKeyword_slides _).bindSame fun natural => (joinKind_slides natural).bindSame fun kind => ?_
  split
  · exact .pure rfl
  · refine (tableFactor_slides h hin).bind fun factor => (skipKeyword_slides _).bindSame fun on => ?_
    split
    · refine (conditions_slides h hin).bind fun cs => .pure ?_
      rw [Option.map_some, Join.shift, Condition.shiftAll_eq_map]
    · refine (skipKeyword_slides _).bindSame fun columns => ?_
      split
      · exact usingColumns_slides.bind fun columns => .pure rfl
      · exact .pure rfl

/-- The joins of a source are collected in the same number of rounds. -/
theorem tableSource_slides (h : env.Behind n env') (hin : inner.Slides n inner') :
    Reader.Slides n (TableSource.shift n) (tableSource env inner) (tableSource env' inner') := by
  refine (tableFactor_slides h hin).bind fun factor => ?_
  refine Follows.repeating (k := List.map (Join.shift n)) (fun joins => ?_) []
  refine (optionalJoin_slides h hin).follows fun join => ?_
  cases join with
  | none =>
      refine Agree.pure (.stop ?_)
      rw [TableSource.shift, Join.shiftAll_eq_map]
  | some j =>
      refine Agree.pure (.again ?_)
      rw [List.map_append, List.map_singleton]

theorem tableSources_slides (h : env.Behind n env') (hin : inner.Slides n inner') :
    Reader.Slides n (List.map (TableSource.shift n)) (tableSources env inner)
      (tableSources env' inner') :=
  commaSeparated_slides (tableSource_slides h hin)

theorem fromClause_slides (h : env.Behind n env') (hin : inner.Slides n inner') :
    Reader.Slides n (Option.map (List.map (TableSource.shift n))) (fromClause env inner)
      (fromClause env' inner') := by
  refine (skipKeyword_slides _).bindSame fun present => ?_
  split
  · exact (tableSources_slides h hin).bind fun _ => .pure rfl
  · exact .pure rfl

end SqlMarkers.Reader
