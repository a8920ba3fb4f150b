/-
SqlMarkers.Proofs.Balance.Source — tables, joins and the `FROM` clause keep parentheses
in pairs.

Parentheses around sources, around a nested query, behind `USING` and in hints are opened and
closed by the reader that finds them. The hints of a table are looked at before they are
consumed, and these looks tell that two keywords are ahead (`atIndexHint_isFlat`).
-/
import SqlMarkers.Proofs.Balance.Condition
import SqlMarkers.Proofs.Trail.Source

namespace SqlMarkers.Reader

variable {env : Setting} {inner : Inner}

/-! ## Tables -/

theorem nameToken_keeps (what : String) : Keeps (nameToken what) := by
  refine keeps_current fun i r => ?_
  split
  · rename_i hname
    exact (next_shifts (isFlat_of_isName hname)).bind fun _ => keeps_pure _ i
  · exact failExpected_keeps _ i r

/-- A table name is made of names and a `.`. -/
theorem tableName_keeps : Keeps tableName := by
  refine (nameToken_keeps _).bind fun first i r => ?_
  refine (atSymbol_keeps _ i r).bindAt fun dot r₁ hdot => ?_
  obtain ⟨rfl, rfl⟩ := yields_atSymbol.1 hdot
  split
  · rename_i hdot
    exact (next_shiftsOf (Token.isSymbol_iff.1 hdot) rfl).bind fun _ =>
      (nameToken_keeps _ i).bind fun second => (nameOf_keeps _ i).bind fun _ =>
        (nameOf_keeps _ i).bind fun _ => keeps_pure _ i
  · exact ((nameOf_keeps _).bind fun _ => keeps_pure _) i r

/-- A declaration writes to the scope and moves nothing. -/
theorem declare_keeps (t : Table) (token : Token) : Keeps (declare env t token) := by
  unfold declare
  split
  · exact modifyDraft_keeps _
  · exact keeps_pure _

theorem hintPurpose_keeps : Keeps hintPurpose := by
  have hby : Keeps (do let _ ← acceptKeyword .BY) :=
    (acceptKeyword_keeps _).bind fun _ => keeps_pure _
  refine (skipKeyword_keeps _).bind fun purpose => ?_
  split
  · refine (skipKeyword_keeps _).bind fun join => ?_
    split
    · refine (skipKeyword_keeps _).bind fun order => ?_
      split
      · exact (acceptKeyword_keeps _).bind fun _ => hby
      · exact hby
    · exact keeps_pure _
  · exact keeps_pure _

/-- Two tokens that are no parentheses, the second of which was looked at before. -/
theorem nextTwo_shifts {α : Type} {f : Reader α} {i j : Nat} {r : Reading}
    (hflat : r.cursor.current.kind.isFlat = true) {t : Token} (ht : r.cursor.lookAhead 1 = .ok t)
    (hflat' : t.kind.isFlat = true) (hf : Shifts i j f) :
    ShiftsAt i j (do next; next; f) r := by
  refine (next_shifts hflat).bindAt fun _ r₁ hnext => ?_
  obtain ⟨c, hc, rfl⟩ := yields_onCursor.1 hnext
  have hcurrent : (r.moved c).cursor.current.kind.isFlat = true := by
    rwa [Reading.moved_cursor, Cursor.current_of_next hc ht]
  exact (next_shifts hcurrent).bind fun _ => hf

/-- Two keywords stand where an index hint starts. -/
theorem atIndexHint_isFlat {r r' : Reading} (hn : Yields atIndexHint r true r') :
    r.cursor.current.kind.isFlat = true ∧
      ∃ t, r.cursor.lookAhead 1 = .ok t ∧ t.kind.isFlat = true := by
  replace hn := bind_current hn
  rcases yields_ite.1 hn with ⟨hword, hn⟩ | ⟨-, hn⟩
  · obtain ⟨t, hpeek, hkey⟩ := yields_map.1 hn
    refine ⟨?_, t, (peek_yields hpeek).1, ?_⟩
    · simp only [Bool.or_eq_true, Token.isKeyword_iff] at hword
      rcases hword with (hk | hk) | hk <;> rw [hk] <;> rfl
    · simp only [Bool.or_eq_true, Token.isKeyword_iff] at hkey
      rcases hkey with hk | hk <;> rw [hk] <;> rfl
  · cases (yields_pure.1 hn).1

/-- Each round passes one hint with its parentheses, or ends. -/
theorem tableHints_keeps : Keeps (tableHints env) := by
  refine repeating_keeps (fun _ i r => ?_) ()
  have hskip : Keeps (do passParentheses; return .again () : Reader (Round Unit Unit)) :=
    passParentheses_keeps.bind fun _ => keeps_pure _
  have hindex : Keeps (do hintPurpose; passParentheses; return .again () :
      Reader (Round Unit Unit)) :=
    hintPurpose_keeps.bind fun _ => hskip
  refine (keeps_of_stays (fun hn => by rw [(atIndexHint_yields hn).1]) i r).bindAt
    fun index r₁ hat => ?_
  obtain ⟨rfl, -⟩ := atIndexHint_yields hat
  cases index with
  | true =>
      obtain ⟨hflat, t, ht, hflat'⟩ := atIndexHint_isFlat hat
      exact nextTwo_shifts hflat ht hflat' (hindex i)
  | false =>
      rw [if_neg Bool.false_ne_true]
      refine (keeps_of_stays (fun hn => by rw [(atTableHint_yields hn).1]) i r).bindAt
        fun hint r₁ hat => ?_
      obtain ⟨rfl, hwith⟩ := atTableHint_yields hat
      split
      · rename_i hhint
        exact (next_shiftsOf (hwith hhint) rfl).bind fun _ => hskip i
      · exact keeps_pure _ i r

theorem tableReference_keeps : Keeps (tableReference env) :=
  tableName_keeps.bind fun _ => (optionalAlias_keeps env).bind fun _ => tableHints_keeps.bind
    fun _ => (declare_keeps _ _).bind fun _ => keeps_pure _

/-! ## Joins -/

/-- A nested query or sources in parentheses, or a table. -/
theorem tableFactor_keeps (hi : inner.Pairing) : Keeps (tableFactor env inner) := by
  refine (atSymbol_keeps _).bind fun paren => ?_
  split
  · refine here_keeps.bind fun start i => openParen_shifts.bind fun opening => ?_
    refine (atKeyword_keeps _ _).bind fun select => ?_
    split
    · exact (embed_keeps hi _).bind fun q => (close_shifts _).bind fun _ =>
        (lastEnd_keeps i).bind fun _ => (optionalAlias_keeps env i).bind fun _ => keeps_pure _ i
    · exact (hi.sources _).bind fun sources => (close_shifts _).bind fun _ => keeps_pure _ i
  · exact tableReference_keeps.bind fun _ => keeps_pure _

/-- The kind of a join is told by keywords and a comma. -/
theorem joinKind_keeps (natural : Bool) : Keeps (joinKind natural) := by
  have hjoin : ∀ kind, Keeps
      (do let _ ← acceptKeyword .JOIN; return some kind : Reader (Option JoinKind)) :=
    fun kind => (acceptKeyword_keeps _).bind fun _ => keeps_pure _
  have houter : ∀ {r : Reading} {i : Nat} {k : Keyword} (kind : JoinKind),
      r.cursor.current.kind = .keyword k → ShiftsAt i i (joinKind.outer kind) r :=
    fun kind hk => (next_shiftsOf hk rfl).bind fun _ => (skipKeyword_keeps _ _).bind fun _ =>
      hjoin kind _
  refine keeps_current fun i r => ?_
  split
  · rename_i hk
    exact (next_shiftsOf hk rfl).bind fun _ => keeps_pure _ i
  · rename_i hk
    exact (next_shiftsOf hk rfl).bind fun _ => keeps_pure _ i
  · rename_i hk
    exact (next_shiftsOf hk rfl).bind fun _ => hjoin _ i
  · rename_i hk
    exact (next_shiftsOf hk rfl).bind fun _ => hjoin _ i
  · rename_i hk
    exact houter _ hk
  · rename_i hk
    exact houter _ hk
  · rename_i hk
    exact houter _ hk
  · split
    · exact failExpected_keeps _ i r
    · exact keeps_pure _ i r

/-- The columns of `USING` stand in one pair of parentheses. -/
theorem usingColumns_keeps : Keeps usingColumns := by
  have hcolumn : Keeps usingColumn := (nameToken_keeps _).bind fun t => nameOf_keeps t
  intro i
  exact openParen_shifts.bind fun opening => (commaSeparated_keeps hcolumn _).bind fun columns =>
    (close_shifts _).bind fun _ => keeps_pure _ i

theorem optionalJoin_keeps (hi : inner.Pairing) : Keeps (optionalJoin env inner) := by
  refine (skipKeyword_keeps _).bind fun natural => (joinKind_keeps natural).bind fun kind => ?_
  split
  · exact keeps_pure _
  · refine (tableFactor_keeps hi).bind fun factor => (skipKeyword_keeps _).bind fun on => ?_
    split
    · exact (conditions_keeps hi).bind fun _ => keeps_pure _
    · refine (skipKeyword_keeps _).bind fun columns => ?_
      split
      · exact usingColumns_keeps.bind fun _ => keeps_pure _
      · exact keeps_pure _

/-- A factor and joins, each of which keeps the number. -/
theorem tableSource_keeps (hi : inner.Pairing) : Keeps (tableSource env inner) := by
  refine (tableFactor_keeps hi).bind fun factor => repeating_keeps (fun joins => ?_) []
  refine (optionalJoin_keeps hi).bind fun join => ?_
  cases join with
  | some j => exact keeps_pure _
  | none => exact keeps_pure _

theorem tableSources_keeps (hi : inner.Pairing) : Keeps (tableSources env inner) :=
  commaSeparated_keeps (tableSource_keeps hi)

theorem fromClause_keeps (hi : inner.Pairing) : Keeps (fromClause env inner) := by
  refine (skipKeyword_keeps _).bind fun present => ?_
  split
  · exact (tableSources_keeps hi).bind fun _ => keeps_pure _
  · exact keeps_pure _

end SqlMarkers.Reader
