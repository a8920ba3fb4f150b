/-
SqlMarkers.Proofs.Trail.Source — the trails of tables, joins and `FROM`.

The readers of sources are taken in the order of their calls. For each one there is a
lemma that tells the trail of a run that ends with a result: which parts of the tree are
in hand behind it, and that the trail rests, with no operand left in the middle. Where the
result is a part of the tree, its own parts are the ones added to those in hand.

A table is declared behind its alias and its hints, which leave the draft alone. So the
whole reference is one step of a trail (`tableReference_yields`): the name, a trail of its
own over alias and hints that puts nothing in hand, and the declaration.
-/
import SqlMarkers.Proofs.Trail.Condition

namespace SqlMarkers.Reader

variable {env : Setting} {inner : Inner} {s r r' : Reading} {h : List Part}

/-! ## Tables -/

/-- The token that is read as a name is the current one, and only it is consumed. -/
theorem nameToken_yields {what : String} {t : Token} (hn : Yields (nameToken what) r t r') :
    r.cursor.current = t ∧ t.isName = true ∧ Yields next r () r' := by
  replace hn := bind_current hn
  rcases yields_ite.1 hn with ⟨hname, hn⟩ | ⟨-, hn⟩
  · obtain ⟨_, hnext, rfl⟩ := yields_map.1 hn
    exact ⟨rfl, hname, hnext⟩
  · exact (yields_failExpected.1 hn).elim

/-- A table name is one name, or a schema, a `.` and a name. The cursor alone moves: no owner
is noted for the schema, which is why a schema is no qualifier. -/
theorem tableName_yields {t : Table} {token : Token}
    (hn : Yields tableName r (t, token) r') :
    ∃ front c, Named r.cursor t.schema front token c ∧ r' = r.moved c ∧
      token.name? = some t.name ∧ t.span = token.span := by
  obtain ⟨first, r₁, hfirst, hn⟩ := yields_bind.1 hn
  obtain ⟨rfl, hname, hnext⟩ := nameToken_yields hfirst
  obtain ⟨c₁, hc₁, rfl⟩ := yields_onCursor.1 hnext
  replace hn := bind_atSymbol hn
  rcases yields_ite.1 hn with ⟨hdot, hn⟩ | ⟨-, hn⟩
  · obtain ⟨_, r₂, hnext₂, hn⟩ := yields_bind.1 hn
    obtain ⟨c₂, hc₂, rfl⟩ := yields_onCursor.1 hnext₂
    obtain ⟨second, r₃, hsecond, hn⟩ := yields_bind.1 hn
    obtain ⟨rfl, hname₂, hnext₃⟩ := nameToken_yields hsecond
    obtain ⟨c₃, hc₃, rfl⟩ := yields_onCursor.1 hnext₃
    obtain ⟨schema, _, hread, hn⟩ := yields_bind.1 hn
    obtain ⟨hschema, rfl⟩ := yields_nameOf.1 hread
    obtain ⟨name, hread, heq⟩ := yields_map.1 hn
    obtain ⟨hdecoded, rfl⟩ := yields_nameOf.1 hread
    cases heq
    exact ⟨_, c₃, .qualified hname hc₁ hdot hc₂ hname₂ hc₃ hschema, rfl, hdecoded, rfl⟩
  · obtain ⟨name, hread, heq⟩ := yields_map.1 hn
    obtain ⟨hdecoded, rfl⟩ := yields_nameOf.1 hread
    cases heq
    exact ⟨[], c₁, .alone hname hc₁, rfl, hdecoded, rfl⟩

/-- Declaring a table ends with a result and is told by `Reading.declaring`, which does nothing
for a table that is not sharded. -/
theorem yields_declare {t : Table} {token : Token} {u : Unit} :
    Yields (declare env t token) r u r' ↔ r.declaring env t token = r' := by
  unfold declare Reading.declaring
  split
  · exact yields_modifyDraft
  · simp [yields_pure]

/-- A look at an index hint moves nothing. Where there is one, two plain tokens are ahead, which
are consumed before its purpose is read. -/
theorem atIndexHint_yields {b : Bool} (hn : Yields atIndexHint r b r') :
    r = r' ∧ (b = true → r.cursor.current.kind.isPlain = true ∧
      ∃ t, r.cursor.lookAhead 1 = .ok t ∧ t.kind.isPlain = true) := by
  replace hn := bind_current hn
  rcases yields_ite.1 hn with ⟨hword, hn⟩ | ⟨-, hn⟩
  · obtain ⟨t, hpeek, rfl⟩ := yields_map.1 hn
    obtain ⟨ht, rfl⟩ := peek_yields hpeek
    refine ⟨rfl, fun hkey => ⟨?_, t, ht, ?_⟩⟩
    -- Both words are keywords, so neither of them is a mark or a `?`.
    · simp only [Bool.or_eq_true, Token.isKeyword_iff] at hword
      rcases hword with (hk | hk) | hk <;> rw [hk] <;> rfl
    · simp only [Bool.or_eq_true, Token.isKeyword_iff] at hkey
      rcases hkey with hk | hk <;> rw [hk] <;> rfl
  · obtain ⟨rfl, rfl⟩ := yields_pure.1 hn
    exact ⟨rfl, fun hb => by cases hb⟩

/-- A look at a table hint moves nothing, and such a hint begins with `WITH`. -/
theorem atTableHint_yields {b : Bool} (hn : Yields (atTableHint env) r b r') :
    r = r' ∧ (b = true → r.cursor.current.kind = .keyword .WITH) := by
  rcases yields_ite.1 hn with ⟨-, hn⟩ | ⟨-, hn⟩
  · replace hn := bind_atKeyword hn
    rcases yields_ite.1 hn with ⟨hwith, hn⟩ | ⟨-, hn⟩
    · obtain ⟨t, hpeek, rfl⟩ := yields_map.1 hn
      exact ⟨(peek_yields hpeek).2, fun _ => Token.isKeyword_iff.1 hwith⟩
    · obtain ⟨rfl, rfl⟩ := yields_pure.1 hn
      exact ⟨rfl, fun hb => by cases hb⟩
  · obtain ⟨rfl, rfl⟩ := yields_pure.1 hn
    exact ⟨rfl, fun hb => by cases hb⟩

/-- The purpose of an index hint is made of keywords, so it leaves the draft alone. -/
theorem hintPurpose_yields (hr : Rested env s h r) {u : Unit}
    (hn : Yields hintPurpose r u r') : Rested env s h r' ∧ r'.draft = r.draft := by
  obtain ⟨isFor, r₁, hfor, hn⟩ := yields_bind.1 hn
  have hr₁ := hr.skipKeyword hfor
  rw [← skipKeyword_draft hfor]
  rcases yields_ite.1 hn with ⟨-, hn⟩ | ⟨-, hn⟩
  · obtain ⟨isJoin, r₂, hjoin, hn⟩ := yields_bind.1 hn
    have hr₂ := hr₁.skipKeyword hjoin
    rw [← skipKeyword_draft hjoin]
    rcases yields_ite.1 hn with ⟨-, hn⟩ | ⟨-, hn⟩
    · obtain ⟨isOrder, r₃, horder, hn⟩ := yields_bind.1 hn
      have hr₃ := hr₂.skipKeyword horder
      rw [← skipKeyword_draft horder]
      rcases yields_ite.1 hn with ⟨-, hn⟩ | ⟨-, hn⟩
      · obtain ⟨_, r₄, hgroup, hn⟩ := yields_bind.1 hn
        obtain ⟨_, hby, -⟩ := yields_map.1 hn
        rw [← acceptKeyword_draft hgroup]
        exact ⟨(hr₃.reached.acceptKeyword hgroup).reached.acceptKeyword hby,
          acceptKeyword_draft hby⟩
      · obtain ⟨_, hby, -⟩ := yields_map.1 hn
        exact ⟨hr₃.reached.acceptKeyword hby, acceptKeyword_draft hby⟩
    · obtain ⟨-, rfl⟩ := yields_pure.1 hn
      exact ⟨hr₂, rfl⟩
  · obtain ⟨-, rfl⟩ := yields_pure.1 hn
    exact ⟨hr₁, rfl⟩

/-- Hints leave the draft alone, also those in parentheses: these are passed without a look at
what they hold. -/
theorem tableHints_yields (hr : Rested env s h r) {u : Unit}
    (hn : Yields (tableHints env) r u r') : Rested env s h r' ∧ r'.draft = r.draft := by
  refine repeatStep_yields (fun _ r₁ => Rested env s h r₁ ∧ r₁.draft = r.draft)
    (fun _ r₁ => Rested env s h r₁ ∧ r₁.draft = r.draft) ?_ ⟨hr, rfl⟩ hn
  rintro _ r₁ round r₂ ⟨hr₁, hdraft⟩ hround
  -- The draft is the one in front of all hints, so it is enough to compare with the last round.
  rw [← hdraft]
  obtain ⟨index, _, hindex, hround⟩ := yields_bind.1 hround
  obtain ⟨rfl, hplain⟩ := atIndexHint_yields hindex
  rcases yields_ite.1 hround with ⟨htrue, hround⟩ | ⟨-, hround⟩
  · obtain ⟨_, r₃, hnext, hround⟩ := yields_bind.1 hround
    obtain ⟨_, r₄, hnext', hround⟩ := yields_bind.1 hround
    obtain ⟨_, r₅, hpurpose, hround⟩ := yields_bind.1 hround
    obtain ⟨_, hpass, rfl⟩ := yields_map.1 hround
    obtain ⟨hfirst, t, ht, hsecond⟩ := hplain htrue
    obtain ⟨hr₅, hdraft₅⟩ :=
      hintPurpose_yields (hr₁.reached.nextTwo hfirst ht hsecond hnext hnext') hpurpose
    refine ⟨(hr₅.reached.passParentheses hpass).rested, ?_⟩
    rw [passParentheses_draft hpass, hdraft₅, next_draft hnext', next_draft hnext]
  · obtain ⟨hint, _, hhint, hround⟩ := yields_bind.1 hround
    obtain ⟨rfl, hwith⟩ := atTableHint_yields hhint
    rcases yields_ite.1 hround with ⟨htrue, hround⟩ | ⟨-, hround⟩
    · obtain ⟨_, r₃, hnext, hround⟩ := yields_bind.1 hround
      obtain ⟨_, hpass, rfl⟩ := yields_map.1 hround
      have hr₃ := hr₁.reached.nextOf (hwith htrue) hnext rfl
      refine ⟨(hr₃.reached.passParentheses hpass).rested, ?_⟩
      rw [passParentheses_draft hpass, next_draft hnext]
    · obtain ⟨rfl, rfl⟩ := yields_pure.1 hround
      exact ⟨hr₁, rfl⟩

/-- A table reference puts its table in hand. -/
theorem tableReference_yields (hr : Reached env s h r) {t : Table}
    (hn : Yields (tableReference env) r t r') : Rested env s (h ++ [.table t]) r' := by
  obtain ⟨⟨t₁, token⟩, r₁, hname, hn⟩ := yields_bind.1 hn
  obtain ⟨front, c, hnamed, rfl, hdecoded, hspan⟩ := tableName_yields hname
  obtain ⟨aliasName, r₂, halias, hn⟩ := yields_bind.1 hn
  obtain ⟨_, r₃, hhints, hn⟩ := yields_bind.1 hn
  obtain ⟨_, hdeclare, rfl⟩ := yields_map.1 hn
  obtain rfl := yields_declare.1 hdeclare
  -- The alias and the hints make a trail of their own, which starts behind the name.
  have hstart : Rested env (r.moved c) [] (r.moved c) := ⟨[], .settled, by simp, .start _⟩
  obtain ⟨hr₂, hdraft₂⟩ := optionalAlias_yields hstart halias
  obtain ⟨⟨log', e', he', t'⟩, hdraft₃⟩ := tableHints_yields hr₂ hhints
  obtain ⟨log, e, t⟩ := hr
  exact ⟨_, e', he', t.table hnamed t' (hdraft₃.trans hdraft₂) hdecoded hspan⟩

/-! ## Joins -/

/-- A table factor puts the parts of its tree in hand: a table, a nested query, or the sources
in parentheses. -/
theorem tableFactor_yields (hi : inner.Tracked env) (hr : Reached env s h r) {f : TableFactor}
    (hn : Yields (tableFactor env inner) r f r') : Rested env s (h ++ f.parts) r' := by
  replace hn := bind_atSymbol hn
  rcases yields_ite.1 hn with ⟨-, hn⟩ | ⟨-, hn⟩
  · replace hn := bind_here hn
    obtain ⟨opening, r₁, hopen, hn⟩ := yields_bind.1 hn
    have hr₁ := (hr.openParen hopen).reached
    replace hn := bind_atKeyword hn
    rcases yields_ite.1 hn with ⟨-, hn⟩ | ⟨-, hn⟩
    · obtain ⟨q, r₂, hembed, hn⟩ := yields_bind.1 hn
      obtain ⟨_, r₃, hclose, hn⟩ := yields_bind.1 hn
      replace hn := bind_lastEnd hn
      obtain ⟨aliasName, halias, rfl⟩ := yields_map.1 hn
      have hr₃ := ((hi.embed hr₁ hembed).1.close hclose).rested
      exact (optionalAlias_yields hr₃ halias).1
    · obtain ⟨ss, r₂, hsources, hn⟩ := yields_bind.1 hn
      obtain ⟨_, hclose, rfl⟩ := yields_map.1 hn
      exact ((hi.sources hr₁ hsources).reached.close hclose).rested
  · obtain ⟨t, hname, rfl⟩ := yields_map.1 hn
    exact tableReference_yields hr hname

/-- `LEFT`, `RIGHT` and `FULL`, with an optional `OUTER`, are keywords in front of `JOIN`. -/
theorem outer_yields (hr : Reached env s h r) {kind : JoinKind} {k : Keyword}
    (hk : r.cursor.current.kind = .keyword k) {found : Option JoinKind}
    (hn : Yields (joinKind.outer kind) r found r') : Rested env s h r' := by
  obtain ⟨_, r₁, hnext, hn⟩ := yields_bind.1 hn
  obtain ⟨_, r₂, houter, hn⟩ := yields_bind.1 hn
  obtain ⟨_, hjoin, -⟩ := yields_map.1 hn
  exact ((hr.nextOf hk hnext rfl).skipKeyword houter).reached.acceptKeyword hjoin

/-- The words of a join are plain, and put nothing in hand. -/
theorem joinKind_yields (hr : Rested env s h r) {natural : Bool} {kind : Option JoinKind}
    (hn : Yields (joinKind natural) r kind r') : Rested env s h r' := by
  replace hn := bind_current hn
  split at hn
  · rename_i hk
    obtain ⟨_, hnext, -⟩ := yields_map.1 hn
    exact hr.reached.nextOf hk hnext rfl
  · rename_i hk
    obtain ⟨_, hnext, -⟩ := yields_map.1 hn
    exact hr.reached.nextOf hk hnext rfl
  · rename_i hk
    obtain ⟨_, r₁, hnext, hn⟩ := yields_bind.1 hn
    obtain ⟨_, hjoin, -⟩ := yields_map.1 hn
    exact (hr.reached.nextOf hk hnext rfl).reached.acceptKeyword hjoin
  · rename_i hk
    obtain ⟨_, r₁, hnext, hn⟩ := yields_bind.1 hn
    obtain ⟨_, hjoin, -⟩ := yields_map.1 hn
    exact (hr.reached.nextOf hk hnext rfl).reached.acceptKeyword hjoin
  · rename_i hk
    exact outer_yields hr.reached hk hn
  · rename_i hk
    exact outer_yields hr.reached hk hn
  · rename_i hk
    exact outer_yields hr.reached hk hn
  · rcases yields_ite.1 hn with ⟨-, hn⟩ | ⟨-, hn⟩
    · exact (yields_failExpected.1 hn).elim
    · obtain ⟨-, rfl⟩ := yields_pure.1 hn
      exact hr

/-- The columns of `USING` are names that are consumed one by one. They are no expressions, so
none of them is in hand afterwards. -/
theorem usingColumns_yields (hr : Reached env s h r) {columns : List String}
    (hn : Yields usingColumns r columns r') : Settled env s h r' := by
  obtain ⟨opening, r₁, hopen, hn⟩ := yields_bind.1 hn
  obtain ⟨columns₁, r₂, hcolumns, hn⟩ := yields_bind.1 hn
  obtain ⟨_, hclose, -⟩ := yields_map.1 hn
  have hcolumn : ∀ {h r name r'}, Reached env s h r → Yields usingColumn r name r' →
      Rested env s (h ++ []) r' := by
    intro h r name r' hr hn
    obtain ⟨t, r₁, htoken, hn⟩ := yields_bind.1 hn
    obtain ⟨rfl, hname, hnext⟩ := nameToken_yields htoken
    obtain ⟨-, rfl⟩ := yields_nameOf.1 hn
    rw [List.append_nil]
    exact hr.next (Token.isPlain_of_isName hname) hnext
  have hr₂ := commaSeparated_yields Rested.reached hcolumn (hr.openParen hopen).reached hcolumns
  rw [List.flatMap_eq_nil_iff.2 (fun _ _ => rfl), List.append_nil] at hr₂
  exact hr₂.reached.close hclose

/-- A join puts the parts of its factor in hand and then those of its conditions, in the order
in which they are written; without a join, nothing changes. -/
theorem optionalJoin_yields (hi : inner.Tracked env) (hr : Rested env s h r) {join : Option Join}
    (hn : Yields (optionalJoin env inner) r join r') :
    Rested env s (h ++ Join.partsIn join.toList) r' := by
  obtain ⟨natural, r₁, hnatural, hn⟩ := yields_bind.1 hn
  obtain ⟨kind, r₂, hkind, hn⟩ := yields_bind.1 hn
  have hr₂ := joinKind_yields (hr.skipKeyword hnatural) hkind
  split at hn
  · obtain ⟨rfl, rfl⟩ := yields_pure.1 hn
    simpa [Join.partsIn] using hr₂
  · obtain ⟨factor, r₃, hfactor, hn⟩ := yields_bind.1 hn
    have hr₃ := tableFactor_yields hi hr₂.reached hfactor
    obtain ⟨on, r₄, hon, hn⟩ := yields_bind.1 hn
    have hr₄ := hr₃.skipKeyword hon
    rcases yields_ite.1 hn with ⟨-, hn⟩ | ⟨-, hn⟩
    · obtain ⟨cs, hconds, rfl⟩ := yields_map.1 hn
      simpa [Join.partsIn] using conditions_yields hi hr₄.reached hconds
    · obtain ⟨using', r₅, husing, hn⟩ := yields_bind.1 hn
      have hr₅ := hr₄.skipKeyword husing
      rcases yields_ite.1 hn with ⟨-, hn⟩ | ⟨-, hn⟩
      · obtain ⟨columns, hcolumns, rfl⟩ := yields_map.1 hn
        simpa [Join.partsIn, Condition.partsIn] using
          (usingColumns_yields hr₅.reached hcolumns).rested
      · obtain ⟨rfl, rfl⟩ := yields_pure.1 hn
        simpa [Join.partsIn, Condition.partsIn] using hr₅

/-- The parts of joins are put in hand one join after the other. -/
theorem joinParts_append (as bs : List Join) :
    Join.partsIn (as ++ bs) = Join.partsIn as ++ Join.partsIn bs := by
  induction as with
  | nil => rfl
  | cons a as ih =>
      obtain ⟨_, _, factor, on, _⟩ := a
      simp [Join.partsIn, ih]

/-- The parts of sources in the form in which a list of entries puts them in hand. -/
theorem sourceParts_eq (ss : List TableSource) :
    TableSource.partsIn ss = ss.flatMap fun s => s.factor.parts ++ Join.partsIn s.joins := by
  induction ss with
  | nil => rfl
  | cons a as ih =>
      obtain ⟨factor, joins⟩ := a
      simp [TableSource.partsIn, ih]

/-- A source puts the parts of its factor in hand, then those of its joins. The invariant of the
loop are the joins read so far. -/
theorem tableSource_yields (hi : inner.Tracked env) (hr : Reached env s h r) {source : TableSource}
    (hn : Yields (tableSource env inner) r source r') :
    Rested env s (h ++ (source.factor.parts ++ Join.partsIn source.joins)) r' := by
  obtain ⟨factor, r₁, hfactor, hn⟩ := yields_bind.1 hn
  have hr₁ := tableFactor_yields hi hr hfactor
  refine repeatStep_yields
    (fun joins => Rested env s (h ++ (factor.parts ++ Join.partsIn joins)))
    (fun source => Rested env s (h ++ (source.factor.parts ++ Join.partsIn source.joins)))
    ?_ (by simpa [Join.partsIn] using hr₁) hn
  intro joins r₂ round r₃ hr₂ hround
  obtain ⟨join, r₄, hjoin, hround⟩ := yields_bind.1 hround
  have hr₄ := optionalJoin_yields hi hr₂ hjoin
  split at hround
  all_goals
    obtain ⟨rfl, rfl⟩ := yields_pure.1 hround
    simpa [joinParts_append, Join.partsIn] using hr₄

theorem tableSources_yields (hi : inner.Tracked env) (hr : Reached env s h r)
    {ss : List TableSource} (hn : Yields (tableSources env inner) r ss r') :
    Rested env s (h ++ TableSource.partsIn ss) r' := by
  rw [sourceParts_eq]
  exact commaSeparated_yields Rested.reached (fun hr hn => tableSource_yields hi hr hn) hr hn

/-- Without `FROM` there are no sources and no parts. -/
theorem fromClause_yields (hi : inner.Tracked env) (hr : Rested env s h r)
    {sources : Option (List TableSource)} (hn : Yields (fromClause env inner) r sources r') :
    Rested env s (h ++ TableSource.partsIn (sources.getD [])) r' := by
  obtain ⟨found, r₁, hskip, hn⟩ := yields_bind.1 hn
  have hr₁ := hr.skipKeyword hskip
  rcases yields_ite.1 hn with ⟨-, hn⟩ | ⟨-, hn⟩
  · obtain ⟨ss, hsources, rfl⟩ := yields_map.1 hn
    exact tableSources_yields hi hr₁.reached hsources
  · obtain ⟨rfl, rfl⟩ := yields_pure.1 hn
    simpa [TableSource.partsIn] using hr₁

end SqlMarkers.Reader
