/-
SqlMarkers.Proofs.Agreement.Source — tables, joins and the `FROM` clause in twin
settings.

Twin settings have the same dialect and limit, but not the same catalogue. Declaring a table
is the one step that looks at the catalogue. It changes the tables and markers of the scope
only, which readings that are alike need not share (`declare_agrees`), so nothing that is read
afterwards depends on it. All else about a source is decided by the kinds of its tokens.

What a reader gives agrees up to its outline: spans, kinds of joins and the shape of the tree
are the same, and names, aliases and columns are the same in the words of `w`.
-/
import SqlMarkers.Proofs.Agreement.Condition

namespace SqlMarkers.Reader

variable {w : String → String} {env env' : Setting} {inner inner' : Inner}

/-! ## Tables -/

/-- The two tokens are alike, so both are names or neither is. -/
theorem nameToken_agrees (what : String) :
    Reader.Agree w (Token.Alike w) (nameToken what) (nameToken what) := by
  refine current_agrees.bind fun t t' ht => ?_
  rw [ht.isName]
  split
  · exact next_agrees.bind fun _ _ _ => .pure ht
  · exact failExpected_agrees _

/-- The tables have the same outline, whatever tokens they come with. -/
theorem tableName_agrees :
    Reader.Agree w (Same fun x : Table × Token => x.1.outline w) tableName tableName := by
  refine (nameToken_agrees _).bind fun first first' hfirst => ?_
  refine (atSymbol_agrees _).bind ?_
  rintro dot _ rfl
  split
  · refine next_agrees.bind fun _ _ _ => (nameToken_agrees _).bind fun second second' hsecond => ?_
    refine (nameOf_agrees hfirst).bind fun schema schema' hschema => ?_
    refine (nameOf_agrees hsecond).bind fun name name' hname => .pure ?_
    simp only [Same, Table.outline, Option.map_some, Option.map_none, hname.eq, hschema.eq,
      hsecond.span]
  · refine (nameOf_agrees hfirst).bind fun name name' hname => .pure ?_
    simp only [Same, Table.outline, Option.map_none, hname.eq, hfirst.span]

/-- What a catalogue accepts shows in the tables and markers of a scope only. -/
theorem declare_agrees (t t' : Table) (token token' : Token) :
    Reader.Agree w Eq (declare env t token) (declare env' t' token') := by
  intro r r' hr
  unfold declare
  split <;> split <;> exact .ok rfl ⟨hr.cursor, hr.parameters, hr.subqueries, hr.nesting, hr.passages⟩

theorem atIndexHint_agrees : Reader.Agree w Eq atIndexHint atIndexHint := by
  refine current_agrees.bind fun t t' ht => ?_
  rw [ht.isKeyword, ht.isKeyword, ht.isKeyword]
  split
  · refine peek_agrees.bind fun u u' hu => .pure ?_
    rw [hu.isKeyword, hu.isKeyword]
  · exact .pure rfl

/-- Only SQL Server has table hints, and twin settings have one dialect. -/
theorem atTableHint_agrees (h : env.Twin w env') :
    Reader.Agree w Eq (atTableHint env) (atTableHint env') := by
  rw [atTableHint, h.dialect, atTableHint]
  split
  · refine (atKeyword_agrees _).bind ?_
    rintro hint _ rfl
    split
    · exact peek_agrees.bind fun u u' hu => .pure (hu.isSymbol _)
    · exact .pure rfl
  · exact .pure rfl

theorem hintPurpose_agrees : Reader.Agree w Eq hintPurpose hintPurpose := by
  have hby : Reader.Agree w Eq (do let _ ← acceptKeyword .BY) (do let _ ← acceptKeyword .BY) :=
    (acceptKeyword_agrees _).bind fun _ _ _ => .pure rfl
  refine (skipKeyword_agrees _).bind ?_
  rintro purpose _ rfl
  split
  · refine (skipKeyword_agrees _).bind ?_
    rintro join _ rfl
    split
    · refine (skipKeyword_agrees _).bind ?_
      rintro order _ rfl
      split
      · exact (acceptKeyword_agrees _).bind fun _ _ _ => hby
      · exact hby
    · exact .pure rfl
  · exact .pure rfl

/-- Hints are passed. No word of them is kept, so both runs only end at the same place. -/
theorem tableHints_agrees (h : env.Twin w env') :
    Reader.Agree w Eq (tableHints env) (tableHints env') := by
  refine repeating_agrees (B := Eq) ?_ rfl
  rintro _ _ rfl
  refine atIndexHint_agrees.bind ?_
  rintro index _ rfl
  split
  · exact next_agrees.bind fun _ _ _ => next_agrees.bind fun _ _ _ =>
      hintPurpose_agrees.bind fun _ _ _ => passParentheses_agrees.bind fun _ _ _ =>
        .pure (.again rfl)
  · refine (atTableHint_agrees h).bind ?_
    rintro hint _ rfl
    split
    · exact next_agrees.bind fun _ _ _ => passParentheses_agrees.bind fun _ _ _ =>
        .pure (.again rfl)
    · exact .pure (.stop rfl)

/-- A table with its alias and hints. The outlines of the two tables tell their names, schemas and
spans; the tokens they were read from are not compared, since only the declaration asks for
them. -/
theorem tableReference_agrees (h : env.Twin w env') :
    Reader.Agree w (Same (Table.outline w)) (tableReference env) (tableReference env') := by
  refine tableName_agrees.bind ?_
  rintro ⟨t, token⟩ ⟨t', token'⟩ ht
  refine (optionalAlias_agrees h).bind fun aliasName aliasName' halias => ?_
  refine (tableHints_agrees h).bind fun _ _ _ => (declare_agrees _ _ _ _).bind fun _ _ _ => .pure ?_
  have houtline : t.outline w = t'.outline w := ht
  obtain ⟨hname, hschema, -, hspan⟩ := Table.mk.inj houtline
  simp only [Same, Table.outline, hname, hschema, halias.eq, hspan]

/-! ## Joins -/

/-- A table factor: a nested query, sources in parentheses, or a table. The two tokens behind the
opening parenthesis are of one kind, so both runs take the same branch. -/
theorem tableFactor_agrees (h : env.Twin w env') (hin : inner.Agree w inner') :
    Reader.Agree w (Same (TableFactor.outline w)) (tableFactor env inner)
      (tableFactor env' inner') := by
  refine (atSymbol_agrees _).bind ?_
  rintro paren _ rfl
  split
  · refine here_agrees.bind ?_
    rintro start _ rfl
    refine (acceptSymbol_agrees _).bind fun opening opening' hopening => ?_
    refine (atKeyword_agrees _).bind ?_
    rintro select _ rfl
    split
    · refine hin.embed.bind fun q q' hq => (close_agrees hopening).bind fun _ _ _ => ?_
      refine lastEnd_agrees.bind ?_
      rintro stop _ rfl
      refine (optionalAlias_agrees h).bind fun aliasName aliasName' halias => .pure ?_
      simp only [Same, TableFactor.outline, hq.eq, halias.eq]
    · refine hin.sources.bind fun ss ss' hss => (close_agrees hopening).bind fun _ _ _ => .pure ?_
      simp only [Same, TableFactor.outline, TableSource.outlines_eq_map, hss.eq]
  · refine (tableReference_agrees h).bind fun t t' ht => .pure ?_
    simp only [Same, TableFactor.outline, ht.eq]

/-- The kind of a join is told by keywords, so it is the same one. -/
theorem joinKind_agrees (natural : Bool) :
    Reader.Agree w Eq (joinKind natural) (joinKind natural) := by
  have hjoin : ∀ kind, Reader.Agree w Eq
      (do let _ ← acceptKeyword .JOIN; return some kind : Reader (Option JoinKind))
      (do let _ ← acceptKeyword .JOIN; return some kind) :=
    fun kind => (acceptKeyword_agrees _).bind fun _ _ _ => .pure rfl
  have houter : ∀ kind, Reader.Agree w Eq (joinKind.outer kind) (joinKind.outer kind) :=
    fun kind => next_agrees.bind fun _ _ _ => (skipKeyword_agrees _).bind fun _ _ _ => hjoin kind
  refine current_agrees.bind fun t t' ht => ?_
  rw [ht.kind]
  split
  · exact next_agrees.bind fun _ _ _ => .pure rfl
  · exact next_agrees.bind fun _ _ _ => .pure rfl
  · exact next_agrees.bind fun _ _ _ => hjoin _
  · exact next_agrees.bind fun _ _ _ => hjoin _
  · exact houter _
  · exact houter _
  · exact houter _
  · split
    · exact failExpected_agrees _
    · exact .pure rfl

/-- The columns of `USING` are names, which are alike one by one. -/
theorem usingColumns_agrees :
    Reader.Agree w (Same (List.map w)) usingColumns usingColumns := by
  have hcolumn : Reader.Agree w (Same w) usingColumn usingColumn :=
    (nameToken_agrees _).bind fun _ _ ht => nameOf_agrees ht
  refine (acceptSymbol_agrees _).bind fun opening opening' hopening => ?_
  refine (commaSeparated_agrees hcolumn).bind fun columns columns' hcolumns => ?_
  exact (close_agrees hopening).bind fun _ _ _ => .pure hcolumns

/-- A join, if one follows. Conditions and columns exclude each other: `USING` is looked for only
where no `ON` was found. -/
theorem optionalJoin_agrees (h : env.Twin w env') (hin : inner.Agree w inner') :
    Reader.Agree w (Same (Option.map (Join.outline w))) (optionalJoin env inner)
      (optionalJoin env' inner') := by
  refine (skipKeyword_agrees _).bind ?_
  rintro natural _ rfl
  refine (joinKind_agrees natural).bind ?_
  rintro kind _ rfl
  split
  · exact .pure rfl
  · refine (tableFactor_agrees h hin).bind fun factor factor' hfactor => ?_
    refine (skipKeyword_agrees _).bind ?_
    rintro on _ rfl
    split
    · refine (conditions_agrees h hin).bind fun cs cs' hcs => .pure ?_
      simp only [Same, Option.map_some, Join.outline, hfactor.eq, Condition.outlines_eq_map, hcs.eq,
        List.map_nil]
    · refine (skipKeyword_agrees _).bind ?_
      rintro columns _ rfl
      split
      · refine usingColumns_agrees.bind fun columns columns' hcolumns => .pure ?_
        simp only [Same, Option.map_some, Join.outline, hfactor.eq, hcolumns.eq]
      · refine .pure ?_
        simp only [Same, Option.map_some, Join.outline, hfactor.eq, List.map_nil]

/-- A factor and the joins behind it. The lists of joins read so far agree at each round, and both
loops end at the same round. -/
theorem tableSource_agrees (h : env.Twin w env') (hin : inner.Agree w inner') :
    Reader.Agree w (Same (TableSource.outline w)) (tableSource env inner)
      (tableSource env' inner') := by
  refine (tableFactor_agrees h hin).bind fun factor factor' hfactor => ?_
  refine repeating_agrees (B := Same (List.map (Join.outline w))) (fun joins joins' hjoins => ?_) rfl
  refine (optionalJoin_agrees h hin).bind ?_
  rintro (_ | j) (_ | j') hj
  · refine .pure (.stop ?_)
    simp only [Same, TableSource.outline, hfactor.eq, Join.outlines_eq_map, hjoins.eq]
  · cases hj
  · cases hj
  · exact .pure (.again (hjoins.snoc (Option.some.inj hj)))

theorem tableSources_agrees (h : env.Twin w env') (hin : inner.Agree w inner') :
    Reader.Agree w (Same (List.map (TableSource.outline w))) (tableSources env inner)
      (tableSources env' inner') :=
  commaSeparated_agrees (tableSource_agrees h hin)

theorem fromClause_agrees (h : env.Twin w env') (hin : inner.Agree w inner') :
    Reader.Agree w (Same (Option.map (List.map (TableSource.outline w)))) (fromClause env inner)
      (fromClause env' inner') := by
  refine (skipKeyword_agrees _).bind ?_
  rintro present _ rfl
  split
  · exact (tableSources_agrees h hin).bind fun _ _ hss => .pure (congrArg some hss)
  · exact .pure rfl

end SqlMarkers.Reader
