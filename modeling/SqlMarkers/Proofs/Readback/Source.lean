/-
SqlMarkers.Proofs.Readback.Source — tables and joins are read back.

The words of a join say where it begins, and its conditions or columns where it ends. A join
without them ends where no `ON` and no `USING` follows.

So what may follow a table source depends on its last join (`Kind.endsSource`): if that join is
a bare one, an `ON` behind the source would be taken for its conditions. No source is rendered
in front of an `ON` inside a statement, but the rows of an `INSERT` may be, and the condition
is carried there.
-/
import SqlMarkers.Proofs.Readback.Condition

namespace SqlMarkers

open Glyph

/-- Whether a token of this kind ends the table in front of it. -/
def Kind.stopsTable (k : Kind) : Bool :=
  !k.startsAlias &&
    !List.contains [.symbol .dot, .keyword .WITH, .keyword .USE, .keyword .FORCE, .keyword .IGNORE] k

/-- Whether a join can begin with a token of this kind. -/
def Kind.startsJoin (k : Kind) : Bool :=
  [.keyword .NATURAL, .keyword .JOIN, .keyword .STRAIGHT_JOIN, .keyword .INNER, .keyword .CROSS,
    .keyword .LEFT, .keyword .RIGHT, .keyword .FULL].contains k

/-- Whether a token of this kind ends the join in front of it. A bare join, without conditions
or columns, would take an `ON` for its own. -/
def Kind.endsJoin (bare : Bool) (k : Kind) : Bool :=
  k.stopsTable && k.stopsConditions && k != .keyword .USING && !(bare && k == .keyword .ON)

/-- Whether a token of this kind ends the table source in front of it. -/
def Kind.endsSource (bare : Bool) (k : Kind) : Bool := k.endsJoin bare && !k.startsJoin

namespace Reader

variable {env : Setting} {depth levels : Nat} {below : Below} {inner : Inner} {r : Reading}
  {gs hs : List Glyph}

/-! ## Tables -/

/-- A token that ends a table is none that goes on with it. -/
theorem ne_of_stopsTable {k : Kind} (h : k.stopsTable = true) (k' : Kind)
    (h' : k'.stopsTable = false) : k ≠ k' := by
  rintro rfl
  rw [h] at h'
  cases h'

/-- What ends a table begins no alias. -/
theorem startsAlias_of_stopsTable {k : Kind} (h : k.stopsTable = true) : k.startsAlias = false := by
  rw [Kind.stopsTable, Bool.and_eq_true, Bool.not_eq_true'] at h
  exact h.1

/-- No hint starts at a token that ends a table. -/
theorem yields_tableHints (hat : r.At env depth hs) (hstop : (ahead hs).stopsTable = true) :
    Yields (tableHints env) r () r := by
  have hkeyword : ∀ k, (Kind.keyword k).stopsTable = false → r.cursor.current.isKeyword k = false := by
    intro k hk
    rw [hat.isKeyword]
    exact beq_false_of_ne (ne_of_stopsTable hstop _ hk)
  have hindex : Yields atIndexHint r false r := by
    show (if r.cursor.current.isKeyword .USE || r.cursor.current.isKeyword .FORCE ||
      r.cursor.current.isKeyword .IGNORE then _ else _ : Reader Bool) r = _
    rw [hkeyword .USE rfl, hkeyword .FORCE rfl, hkeyword .IGNORE rfl]
    rfl
  have htable : Yields (atTableHint env) r false r := by
    unfold atTableHint
    split
    · refine yields_bind.2 ⟨false, r, yields_atKeyword.2 ⟨hkeyword .WITH rfl, rfl⟩, rfl⟩
    · rfl
  exact yields_repeatStep_stop (yields_bind.2 ⟨false, r, hindex, yields_bind.2 ⟨false, r, htable, rfl⟩⟩)

/-- A table reference is a plain table, which is a leaf, with hints and a declaration behind it. -/
theorem tableReference_eq (env : Setting) :
    tableReference env = (do
      let (t, token) ← plainTable env
      tableHints env
      declare env t token
      return t) := by
  simp only [tableReference, plainTable, bind_assoc, pure_bind]

/-- A legible table is read back. No hints are rendered, so none are read, and its declaration only
writes to the scope. -/
theorem table_recovers (depth : Nat) {t : Table} (h : t.legible env.dialect = true) :
    Recovers env depth (tableReference env) Render.table Kind.stopsTable t
      (Glyph.ofText env.dialect (Render.table t)) := by
  have hrow := isRow_of_recovers h
  refine ⟨spell_ofText hrow, ofText_ne_nil hrow, leads_ofText hrow, fun {r hs} hstop hat => ?_⟩
  have hdot : ahead hs ≠ .symbol .dot := ne_of_stopsTable hstop _ rfl
  have halias := startsAlias_of_stopsTable hstop
  have hdeclare : ∀ t token r, r.At env depth hs →
      Attains (declare env t token) r fun _ r' => r'.At env depth hs := by
    intro t token r hat
    unfold declare
    split
    · exact .yields (a := ()) rfl (hat.congr rfl rfl)
    · exact .pure hat
  rw [tableReference_eq]
  refine (attains_plainTable h hdot halias hat).bind ?_
  rintro ⟨t', token⟩ r₁ ⟨ht', hat₁⟩
  refine .after (yields_tableHints hat₁ hstop) ?_
  exact (hdeclare t' token r₁ hat₁).bind fun _ r₂ hat₂ => .pure ⟨ht', hat₂⟩

/-! ## Aliases of queries -/

/-- The glyphs of an optional alias. -/
def aliasGlyphs (d : Dialect) (name : Option String) : List Glyph :=
  if name.isNone then [] else spaced (Glyph.ofText d (aliasText name))

/-- The text of an alias as it is read alone. -/
theorem aliasText_some (name : String) :
    (aliasText (some name)).toList = 'A' :: 'S' :: ' ' :: (Render.name name).toList := by
  simp [aliasText]

theorem spell_aliasGlyphs {d : Dialect} {name : Option String} (h : legibleAlias d name = true) :
    spell (aliasGlyphs d name) = (Render.aliasClause name).toList := by
  cases name with
  | none => rfl
  | some name =>
      have hrow : isRow d (aliasText (some name)) = true := isRow_of_recovers h
      show spell (spaced (Glyph.ofText d (aliasText (some name)))) = _
      rw [spell_spaced (ofText_ne_nil hrow), spell_ofText hrow, aliasText_some]
      simp [Render.aliasClause]

/-- An alias can stand behind any token, since `AS` is set off by a blank. -/
theorem trails_aliasGlyphs {d : Dialect} {name : Option String} (h : legibleAlias d name = true) :
    Trails d (aliasGlyphs d name) := by
  cases name with
  | none => exact .nil
  | some name =>
      have hrow : isRow d (aliasText (some name)) = true := isRow_of_recovers h
      have hstands : standsAnywhere (aliasText (some name)) = true := by
        rw [standsAnywhere, aliasText_some]
        rfl
      have htrails := Trails.ofText hrow hstands .nil
      rwa [List.append_nil] at htrails

/-- Where no alias begins, none is read. -/
theorem yields_noAlias (hat : r.At env depth hs) (hstop : (ahead hs).startsAlias = false) :
    Yields (optionalAlias env) r none r := by
  have has : [Kind.keyword .AS].contains (ahead hs) = false := by
    by_contra hk
    obtain heq : ahead hs = .keyword .AS := by simpa using hk
    rw [heq] at hstop
    cases hstop
  refine yields_bind.2 ⟨false, r, hat.skipNone has,
    yields_bind.2 ⟨r.cursor.current, r, yields_current.2 ⟨rfl, rfl⟩, ?_⟩⟩
  rw [hat.kind]
  generalize ahead hs = k at hstop
  rw [if_neg Bool.false_ne_true]
  split
  · cases hstop
  · cases hstop
  · have hnone : aliasKeywords.contains _ = false := (Bool.or_eq_false_iff.1 hstop).2
    rw [hnone]
    rfl
  · rfl

/-- An alias is read as a name that is rendered alike. -/
theorem attains_aliasGlyphs {name : Option String} (h : legibleAlias env.dialect name = true)
    (hstop : (ahead hs).startsAlias = false)
    (hat : r.At env depth (aliasGlyphs env.dialect name ++ hs)) :
    Attains (optionalAlias env) r fun name' r' =>
      Render.aliasClause name' = Render.aliasClause name ∧ r'.At env depth hs := by
  cases name with
  | none => exact .yields (yields_noAlias hat hstop) ⟨rfl, hat⟩
  | some name =>
      have hat : r.At env depth (spaced (Glyph.ofText env.dialect (aliasText (some name))) ++ hs) := hat
      refine (attains_optionalAlias h hstop hat.unspaced).mono ?_
      rintro name' r' ⟨hname, hat'⟩
      refine ⟨?_, hat'⟩
      rw [aliasClause_eq, hname, ← aliasClause_eq]

/-! ## Factors -/

/-- The text of a legible table begins with a name. -/
theorem table_isName {t : Table} (h : t.legible env.dialect = true) :
    (ahead (Glyph.ofText env.dialect (Render.table t))).isName = true := by
  obtain ⟨t', u, u', hkind, hyields⟩ := exists_of_recovers h
  rw [← hkind]
  exact plainTable_isName hyields

/-- A table factor is read back: a table, a query in parentheses or sources in parentheses. None of
them begins with `SELECT`, which is how the two kinds of parentheses are told apart. -/
theorem factor_recovers (hin : inner.Recovers env depth levels below) {f : TableFactor}
    (h : f.isBuilt (Leaf.legible env.dialect levels) below = true) :
    ∃ gs, Recovers env depth (tableFactor env inner) Render.factor Kind.stopsTable f gs ∧
      ahead gs ≠ .keyword .SELECT := by
  cases f with
  | table t =>
      have hname : ∀ k, k.isName = false → ahead (Glyph.ofText env.dialect (Render.table t)) ≠ k := by
        rintro k hk rfl
        rw [table_isName h] at hk
        cases hk
      have ht := table_recovers depth h
      refine ⟨_, ⟨?_, ht.nonempty, ht.leads, ?_⟩, hname _ rfl⟩
      · rw [ht.spells, Render.factor]
      · intro r hs hstop hat
        refine .atSymbol ?_
        rw [hat.isSymbol, ahead_append ht.nonempty, beq_false_of_ne (hname _ rfl)]
        refine (ht.attains hstop hat).bind ?_
        rintro t' r' ⟨ht', hat'⟩
        refine .pure ⟨?_, hat'⟩
        rw [Render.factor, Render.factor, ht']
  | derived q name span =>
      simp only [TableFactor.isBuilt, Bool.and_eq_true] at h
      obtain ⟨gs, hgs, hfirst, -⟩ := hin.query q h.1
      refine ⟨enclosed gs ++ aliasGlyphs env.dialect name, ⟨?_, ?_, ?_, ?_⟩, ?_⟩
      · rw [spell_append, spell_aliasGlyphs h.2, Render.factor]
        simp [enclosed, hgs.spells]
        rfl
      · simp [enclosed]
      · exact (sound_enclosed hgs.leads).append (trails_aliasGlyphs h.2)
      · intro r hs hstop hat
        rw [List.append_assoc, enclosed_append] at hat
        refine .atSymbol ?_
        rw [hat.isSymbol]
        refine .here ((hat.accept rfl).bind fun opening r₁ hat₁ => .atKeyword ?_)
        rw [hat₁.isKeyword, ahead_append hgs.nonempty, hfirst]
        refine (hgs.embed.attains rfl hat₁).bind ?_
        rintro q' r₂ ⟨hq', hat₂⟩
        refine (hat₂.close opening).bind fun _ r₃ hat₃ => .lastEnd ?_
        refine (attains_aliasGlyphs h.2 (startsAlias_of_stopsTable hstop) hat₃).bind ?_
        rintro name' r₄ ⟨hname, hat₄⟩
        refine .pure ⟨?_, hat₄⟩
        rw [Render.factor, Render.factor, hq', hname]
      · exact fun hselect => nomatch hselect
  | group ss =>
      obtain ⟨gs, hgs, hfirst⟩ := hin.sources ss h
      refine ⟨enclosed gs, ⟨?_, List.cons_ne_nil _ _, sound_enclosed hgs.leads, ?_⟩,
        fun hselect => nomatch hselect⟩
      · rw [Render.factor]
        simp [enclosed, hgs.spells]
        rfl
      · intro r hs hstop hat
        rw [enclosed_append] at hat
        refine .atSymbol ?_
        rw [hat.isSymbol]
        refine .here ((hat.accept rfl).bind fun opening r₁ hat₁ => .atKeyword ?_)
        rw [hat₁.isKeyword, ahead_append hgs.nonempty, beq_false_of_ne hfirst]
        refine (hgs.attains rfl hat₁).bind ?_
        rintro ss' r₂ ⟨hss', hat₂⟩
        refine (hat₂.close opening).bind fun _ r₃ hat₃ => .pure ⟨?_, hat₃⟩
        rw [Render.factor, Render.factor, hss']

/-! ## Joins -/

/-- The words of a join in front of the glyphs of its factor. -/
def kindGlyphs : JoinKind → List Glyph → List Glyph
  | .inner, gs => word .JOIN :: spaced gs
  | .straight, gs => word .STRAIGHT_JOIN :: spaced gs
  | .cross, gs => word .CROSS :: spaced (word .JOIN :: spaced gs)
  | .left, gs => word .LEFT :: spaced (word .JOIN :: spaced gs)
  | .right, gs => word .RIGHT :: spaced (word .JOIN :: spaced gs)
  | .full, gs => word .FULL :: spaced (word .JOIN :: spaced gs)

theorem startsJoin_kindGlyphs (kind : JoinKind) (gs : List Glyph) :
    (ahead (kindGlyphs kind gs)).startsJoin = true := by
  cases kind <;> rfl

theorem spell_kindGlyphs (kind : JoinKind) (hne : gs ≠ []) :
    spell (kindGlyphs kind gs) = (Render.joinWords kind).toList ++ ' ' :: spell gs := by
  have hspaced := spell_spaced hne
  cases kind <;> simp only [kindGlyphs, spell_cons, spell_spaced (List.cons_ne_nil _ _), hspaced] <;>
    rfl

/-- `STRAIGHT_JOIN` is a word in one dialect only; elsewhere it would be read as a name. -/
theorem trails_kindGlyphs {d : Dialect} {kind : JoinKind} (hkind : kind ≠ .straight ∨ d = .mysql)
    (h : Leads d gs) : Trails d (spaced (kindGlyphs kind gs)) := by
  have hjoin : Trails d (spaced (word .JOIN :: spaced gs)) :=
    .clause (by cases d <;> decide) rfl h
  cases kind with
  | inner => exact hjoin
  | straight =>
      have hd : d = .mysql := by simpa using hkind
      exact .clause (by rw [hd]; decide) rfl h
  | cross => exact .words (by cases d <;> decide) hjoin
  | left => exact .words (by cases d <;> decide) hjoin
  | right => exact .words (by cases d <;> decide) hjoin
  | full => exact .words (by cases d <;> decide) hjoin

/-- The words of a kind are read as this kind, `NATURAL` in front of them or not. -/
theorem attains_joinKind (natural : Bool) (kind : JoinKind)
    (hat : r.At env depth (kindGlyphs kind gs ++ hs)) :
    Attains (joinKind natural) r fun kind' r' => kind' = some kind ∧ r'.At env depth (gs ++ hs) := by
  have houter : ∀ {k : Keyword} {kind r},
      r.At env depth (word k :: spaced (word .JOIN :: spaced gs) ++ hs) →
      Attains (joinKind.outer kind) r fun kind' r' =>
        kind' = some kind ∧ r'.At env depth (gs ++ hs) := by
    intro k kind r hat
    refine hat.next.bind fun _ r₁ hat₁ => .after (hat₁.skipNone (by rfl)) ?_
    exact (hat₁.unspaced.accept rfl).bind fun _ r₂ hat₂ => .pure ⟨rfl, hat₂.unspaced⟩
  refine .current ?_
  rw [hat.kind]
  cases kind with
  | inner => exact hat.next.bind fun _ r₁ hat₁ => .pure ⟨rfl, hat₁.unspaced⟩
  | straight => exact hat.next.bind fun _ r₁ hat₁ => .pure ⟨rfl, hat₁.unspaced⟩
  | cross =>
      refine hat.next.bind fun _ r₁ hat₁ => ?_
      exact (hat₁.unspaced.accept rfl).bind fun _ r₂ hat₂ => .pure ⟨rfl, hat₂.unspaced⟩
  | left => exact houter hat
  | right => exact houter hat
  | full => exact houter hat

/-- The glyphs with `NATURAL` in front, if the join is a natural one. -/
def naturally (natural : Bool) (gs : List Glyph) : List Glyph :=
  if natural then word .NATURAL :: spaced gs else gs

/-- The text of the conditions or columns of a join. -/
def joinEndText (on : List Condition) (columns : List String) : String :=
  (match on with
   | [] => ""
   | cs => " ON " ++ Render.conditions cs) ++ Render.usingClause columns

theorem joinEndText_on {cs : List Condition} (h : Render.conditions cs ≠ "") :
    joinEndText cs [] = " ON " ++ Render.conditions cs := by
  cases cs with
  | nil => exact absurd Render.conditions.eq_1 h
  | cons c cs => exact String.append_empty

theorem joinEndText_using {columns : List String} (h : columns ≠ []) :
    joinEndText [] columns = " USING (" ++ listText Render.name columns ++ ")" := by
  obtain ⟨column, columns, rfl⟩ := List.exists_cons_of_ne_nil h
  exact String.empty_append

theorem join_eq (j : Join) :
    Render.join j = (if j.natural then "NATURAL " else "") ++ Render.joinWords j.kind ++ " " ++
      Render.factor j.factor ++ joinEndText j.on j.columns := by
  obtain ⟨natural, kind, f, on, columns⟩ := j
  cases on <;> simp only [Render.join, joinEndText, String.append_assoc]

/-- What follows the factor of a join. -/
def joinEnd (env : Setting) (inner : Inner) (natural : Bool) (kind : JoinKind)
    (factor : TableFactor) : Reader (Option Join) := do
  if ← skipKeyword .ON then
    let on ← conditions env inner
    return some { natural, kind, factor, on, columns := [] }
  else if ← skipKeyword .USING then
    let columns ← usingColumns
    return some { natural, kind, factor, on := [], columns }
  else return some { natural, kind, factor, on := [], columns := [] }

/-- The glyphs read as the conditions or columns of a join. -/
structure JoinEnd (env : Setting) (depth : Nat) (inner : Inner) (on : List Condition)
    (columns : List String) (gs : List Glyph) : Prop where
  spells : spell gs = (joinEndText on columns).toList
  trails : Trails env.dialect gs
  first : gs = [] ∨ ahead gs = .keyword .ON ∨ ahead gs = .keyword .USING
  attains : ∀ natural kind factor {r hs},
    (ahead hs).endsJoin (on.isEmpty && columns.isEmpty) = true → r.At env depth (gs ++ hs) →
    Attains (joinEnd env inner natural kind factor) r fun j r' => ∃ on' columns',
      j = some { natural, kind, factor, on := on', columns := columns' } ∧
        joinEndText on' columns' = joinEndText on columns ∧ r'.At env depth hs

/-- What ends a join is no `USING`, and no `ON` if the join is a bare one. -/
theorem endsJoin_ne {bare : Bool} {k : Kind} (h : k.endsJoin bare = true) :
    k ≠ .keyword .USING ∧ (bare = true → k ≠ .keyword .ON) := by
  simp only [Kind.endsJoin, Bool.and_eq_true, bne_iff_ne, Bool.not_eq_true', Bool.and_eq_false_iff,
    beq_eq_false_iff_ne] at h
  refine ⟨h.1.2, ?_⟩
  rintro rfl
  simpa using h.2

/-- A bare join has no glyphs behind its factor. -/
theorem joinEnd_bare : JoinEnd env depth inner [] [] [] := by
  refine ⟨rfl, .nil, .inl rfl, fun natural kind factor {r hs} hend hat => ?_⟩
  obtain ⟨husing, hon⟩ := endsJoin_ne hend
  refine .after (hat.skipNone (by simpa using hon rfl)) ?_
  exact .after (hat.skipNone (by simpa using husing)) (.pure ⟨[], [], rfl, rfl, hat⟩)

theorem joinEnd_on (hin : inner.Recovers env depth levels below) {on : List Condition}
    (h : conditionsBuilt (Leaf.legible env.dialect levels) below on = true) :
    ∃ gs, JoinEnd env depth inner on [] gs := by
  obtain ⟨gs, hgs, -⟩ := conditions_recover hin h
  refine ⟨spaced (word .ON :: spaced gs), ?_, .clause (by cases env.dialect <;> decide) rfl hgs.leads,
    .inr (.inl rfl), fun natural kind factor {r hs} hend hat => ?_⟩
  · rw [spell_spaced (List.cons_ne_nil _ _), spell_cons, spell_spaced hgs.nonempty, hgs.spells,
      joinEndText_on hgs.text_ne]
    simp
    rfl
  · refine (hat.unspaced.skipOneOf rfl).bind ?_
    rintro _ r₁ ⟨rfl, hat₁⟩
    have hstop : (ahead hs).stopsConditions = true := by
      simp only [Kind.endsJoin, Bool.and_eq_true] at hend
      exact hend.1.1.2
    refine (hgs.attains hstop hat₁.unspaced).bind ?_
    rintro on' r₂ ⟨hon', hat₂⟩
    refine .pure ⟨on', [], rfl, ?_, hat₂⟩
    rw [joinEndText_on (hon' ▸ hgs.text_ne), joinEndText_on hgs.text_ne, hon']

theorem joinEnd_using {columns : List String} (hne : columns ≠ [])
    (h : ∀ column ∈ columns, legibleColumn env.dialect column = true) :
    ∃ gs, JoinEnd env depth inner [] columns gs := by
  obtain ⟨gs, hgs, -⟩ := list_recovers (fun _ => true) (fun _ => True) hne
    (fun column hcolumn => ⟨_, column_recovers env depth (h column hcolumn), trivial⟩) rfl
  refine ⟨spaced (word .USING :: spaced (enclosed gs)), ?_,
    .words (by cases env.dialect <;> decide) (.enclosed hgs.leads), .inr (.inr rfl),
    fun natural kind factor {r hs} hend hat => ?_⟩
  · rw [joinEndText_using hne]
    simp [enclosed, hgs.spells]
    rfl
  · refine .after (hat.skipNone (by rfl)) ?_
    refine (hat.unspaced.skipOneOf rfl).bind ?_
    rintro _ r₁ ⟨rfl, hat₁⟩
    have hat₁ := hat₁.unspaced
    rw [enclosed_append] at hat₁
    have hcolumns : Attains usingColumns r₁ fun columns' r' =>
        listText Render.name columns' = listText Render.name columns ∧ r'.At env depth hs := by
      refine (hat₁.accept rfl).bind fun opening r₂ hat₂ => ?_
      refine (hgs.attains rfl hat₂).bind ?_
      rintro columns' r₃ ⟨hcolumns', hat₃⟩
      exact (hat₃.close opening).bind fun _ r₄ hat₄ => .pure ⟨hcolumns', hat₄⟩
    refine hcolumns.bind ?_
    rintro columns' r₂ ⟨hcolumns', hat₂⟩
    refine .pure ⟨[], columns', rfl, ?_, hat₂⟩
    rw [joinEndText_using (ne_nil_of_listText hcolumns' hgs.text_ne), hcolumns',
      joinEndText_using hne]

/-- A join has conditions, columns or neither, and each of them is read back. -/
theorem exists_joinEnd (hin : inner.Recovers env depth levels below) {j : Join}
    (h : j.isBuilt (Leaf.legible env.dialect levels) below = true) :
    ∃ gs, JoinEnd env depth inner j.on j.columns gs := by
  simp only [Join.isBuilt, Bool.and_eq_true, Bool.or_eq_true, List.isEmpty_iff,
    List.all_eq_true] at h
  obtain ⟨⟨-, hon⟩, hcolumns⟩ := h
  rcases hon with hon | ⟨hon, hnone⟩
  · rw [hon]
    by_cases hne : j.columns = []
    · rw [hne]
      exact ⟨[], joinEnd_bare⟩
    · exact joinEnd_using hne hcolumns
  · rw [hnone]
    exact joinEnd_on hin hon

/-- The glyphs are read as a join that is rendered like `j`. -/
structure JoinRecovers (env : Setting) (depth : Nat) (inner : Inner) (j : Join)
    (gs : List Glyph) : Prop where
  spells : spell gs = (Render.join j).toList
  nonempty : gs ≠ []
  first : (ahead gs).startsJoin = true
  trails : Trails env.dialect (spaced gs)
  attains : ∀ {r hs}, (ahead hs).endsJoin (j.on.isEmpty && j.columns.isEmpty) = true →
    r.At env depth (gs ++ hs) →
    Attains (optionalJoin env inner) r fun j' r' =>
      (∃ j'', j' = some j'' ∧ Render.join j'' = Render.join j) ∧ r'.At env depth hs

/-- What a join is read with behind `NATURAL`. -/
def joinRest (env : Setting) (inner : Inner) (natural : Bool) : Reader (Option Join) := do
  match ← joinKind natural with
  | none => return none
  | some kind =>
      let factor ← tableFactor env inner
      joinEnd env inner natural kind factor

theorem join_recovers (hin : inner.Recovers env depth levels below) {j : Join}
    (h : j.isBuilt (Leaf.legible env.dialect levels) below = true) :
    ∃ gs, JoinRecovers env depth inner j gs := by
  obtain ⟨ending, hending⟩ := exists_joinEnd hin h
  simp only [Join.isBuilt, Bool.and_eq_true, Bool.or_eq_true, bne_iff_ne] at h
  obtain ⟨⟨⟨hkind, hfactor⟩, -⟩, -⟩ := h
  have hkind : j.kind ≠ .straight ∨ env.dialect = .mysql :=
    hkind.imp_right (Leaf.mysql_of_word (by decide))
  obtain ⟨factor, hf, -⟩ := factor_recovers hin hfactor
  have hne : factor ++ ending ≠ [] := by simp [hf.nonempty]
  have hwords : kindGlyphs j.kind (factor ++ ending) ≠ [] := by cases j.kind <;> simp [kindGlyphs]
  have htrails := trails_kindGlyphs hkind (hf.leads.append hending.trails)
  refine ⟨naturally j.natural (kindGlyphs j.kind (factor ++ ending)), ?_, ?_, ?_, ?_, ?_⟩
  · rw [join_eq]
    cases j.natural with
    | false =>
        rw [naturally, if_neg Bool.false_ne_true, spell_kindGlyphs _ hne, spell_append, hf.spells,
          hending.spells]
        simp
    | true =>
        rw [naturally, if_pos rfl, spell_cons, spell_spaced hwords, spell_kindGlyphs _ hne,
          spell_append, hf.spells, hending.spells]
        simp
        rfl
  · cases j.natural
    · exact hwords
    · exact List.cons_ne_nil _ _
  · cases j.natural
    · exact startsJoin_kindGlyphs _ _
    · rfl
  · cases j.natural with
    | false => exact htrails
    | true => exact .words (by cases env.dialect <;> decide) htrails
  · intro r hs hend hat
    have hstop : (ahead (ending ++ hs)).stopsTable = true := by
      rcases hending.first with rfl | hfirst | hfirst
      · simp only [Kind.endsJoin, Bool.and_eq_true] at hend
        exact hend.1.1.1
      all_goals
        have hcons : ending ≠ [] := by
          rintro rfl
          cases hfirst
        rw [ahead_append hcons, hfirst]
        rfl
    have hrest : ∀ natural r, r.At env depth (kindGlyphs j.kind (factor ++ ending) ++ hs) →
        natural = j.natural →
        Attains (joinRest env inner natural) r fun j' r' =>
          (∃ j'', j' = some j'' ∧ Render.join j'' = Render.join j) ∧ r'.At env depth hs := by
      rintro natural r hat rfl
      refine (attains_joinKind _ _ hat).bind ?_
      rintro _ r₁ ⟨rfl, hat₁⟩
      rw [List.append_assoc] at hat₁
      refine (hf.attains hstop hat₁).bind ?_
      rintro f' r₂ ⟨hf', hat₂⟩
      refine (hending.attains _ _ f' hend hat₂).mono ?_
      rintro _ r₃ ⟨on', columns', rfl, htext, hat₃⟩
      refine ⟨⟨_, rfl, ?_⟩, hat₃⟩
      rw [join_eq, join_eq, htext, hf']
    cases hnatural : j.natural with
    | false =>
        rw [hnatural] at hat
        have hnone : [Kind.keyword .NATURAL].contains
            (ahead (kindGlyphs j.kind (factor ++ ending) ++ hs)) = false := by
          rw [ahead_append hwords]
          cases j.kind <;> rfl
        exact .after (hat.skipNone hnone) (hrest false r hat hnatural.symm)
    | true =>
        rw [hnatural] at hat
        refine (hat.skipOneOf rfl).bind ?_
        rintro _ r₁ ⟨rfl, hat₁⟩
        exact hrest true r₁ hat₁.unspaced hnatural.symm

/-- No join starts at a token that ends a table source. -/
theorem yields_noJoin (hat : r.At env depth hs) (hstart : (ahead hs).startsJoin = false) :
    Yields (optionalJoin env inner) r none r := by
  have hnone : [Kind.keyword .NATURAL].contains (ahead hs) = false := by
    by_contra hk
    obtain heq : ahead hs = .keyword .NATURAL := by simpa using hk
    rw [heq] at hstart
    cases hstart
  refine yields_bind.2 ⟨false, r, hat.skipNone hnone, yields_bind.2 ⟨none, r, ?_, rfl⟩⟩
  refine yields_bind.2 ⟨r.cursor.current, r, yields_current.2 ⟨rfl, rfl⟩, ?_⟩
  rw [hat.kind]
  generalize ahead hs = k at hstart
  split
  iterate 7 cases hstart
  rfl

/-! ## Table sources -/

/-- The glyphs of joins, each with a blank in front. -/
def joined (glyphs : Join → List Glyph) : List Join → List Glyph
  | [] => []
  | j :: js => spaced (glyphs j) ++ joined glyphs js

/-- Joins that are rendered alike one by one are rendered alike. -/
theorem joins_congr {js js' : List Join} (h : js'.map Render.join = js.map Render.join) :
    Render.joins js' = Render.joins js := by
  induction js generalizing js' with
  | nil =>
      rw [List.map_eq_nil_iff.1 h]
  | cons j js ih =>
      obtain ⟨j', js', rfl, hj, hjs⟩ := List.map_eq_cons_iff.1 h
      rw [Render.joins, Render.joins, hj, ih hjs]

theorem sources_eq : Render.sources = listText Render.source := by
  funext ss
  induction ss with
  | nil => rw [Render.sources]; rfl
  | cons s ss ih =>
      cases ss with
      | nil => simp [Render.sources, listText, Render.commaList]
      | cons s' ss =>
          rw [Render.sources, ih]
          · simp [listText, Render.commaList, String.intercalate_cons_cons]
          · simp

theorem source_eq (s : TableSource) :
    Render.source s = Render.factor s.factor ++ Render.joins s.joins := by
  obtain ⟨f, js⟩ := s
  rw [Render.source]

theorem spell_joined {glyphs : Join → List Glyph} {js : List Join}
    (h : ∀ j ∈ js, JoinRecovers env depth inner j (glyphs j)) :
    spell (joined glyphs js) = (Render.joins js).toList := by
  induction js with
  | nil => simp [joined, Render.joins]
  | cons j js ih =>
      obtain ⟨hj, hjs⟩ := List.forall_mem_cons.1 h
      rw [joined, spell_append, spell_spaced hj.nonempty, hj.spells, ih hjs, Render.joins]
      simp

/-- Each join begins with a blank and a word, so joins can stand behind any token. -/
theorem trails_joined {glyphs : Join → List Glyph} {js : List Join}
    (h : ∀ j ∈ js, JoinRecovers env depth inner j (glyphs j)) :
    Trails env.dialect (joined glyphs js) := by
  induction js with
  | nil => exact .nil
  | cons j js ih =>
      obtain ⟨hj, hjs⟩ := List.forall_mem_cons.1 h
      exact hj.trails.append (ih hjs)

/-- The words of the next join end the one in front of it. -/
theorem endsJoin_of_startsJoin {k : Kind} (h : k.startsJoin = true) (bare : Bool) :
    k.endsJoin bare = true := by
  rw [Kind.startsJoin, List.contains_iff_mem] at h
  simp only [List.mem_cons, List.not_mem_nil, or_false] at h
  rcases h with rfl | rfl | rfl | rfl | rfl | rfl | rfl | rfl <;> cases bare <;> rfl

/-- Joins are read one by one. -/
theorem attains_joins {glyphs : Join → List Glyph} {js : List Join} (factor : TableFactor)
    (h : ∀ j ∈ js, JoinRecovers env depth inner j (glyphs j))
    (hend : (ahead hs).endsSource (TableSource.mk factor js).endsInBareJoin = true)
    (hat : r.At env depth (joined glyphs js ++ hs)) (factor' : TableFactor) :
    Attains (repeating (fun (joins : List Join) => do
      match ← optionalJoin env inner with
      | some j => return .again (joins ++ [j])
      | none => return .stop (TableSource.mk factor' joins)) []) r fun s r' =>
        s.factor = factor' ∧ Render.joins s.joins = Render.joins js ∧ r'.At env depth hs := by
  rw [Kind.endsSource, Bool.and_eq_true, Bool.not_eq_true'] at hend
  refine attains_repeating (fun (done : List Join) r => ∃ front back, js = front ++ back ∧
    done.map Render.join = front.map Render.join ∧ r.At env depth (joined glyphs back ++ hs)) ?_
    ⟨[], js, rfl, rfl, hat⟩
  rintro done r ⟨front, back, rfl, hdone, hat⟩
  cases back with
  | nil =>
      refine .after (yields_noJoin hat hend.2) (.pure ⟨rfl, ?_, hat⟩)
      rw [joins_congr hdone, List.append_nil]
  | cons j back =>
      have hj := h j (by simp)
      have hnext : (ahead (joined glyphs back ++ hs)).endsJoin
          (j.on.isEmpty && j.columns.isEmpty) = true := by
        cases back with
        | nil =>
            have hlast := hend.1
            simp only [TableSource.endsInBareJoin, List.getLast?_append, List.getLast?_singleton,
              Option.some_or, Option.any_some] at hlast
            exact hlast
        | cons j' back =>
            have hj' := h j' (by simp)
            rw [joined, List.append_assoc, ahead_append (by simpa using hj'.nonempty), ahead_spaced]
            exact endsJoin_of_startsJoin hj'.first _
      rw [joined, List.append_assoc] at hat
      refine (hj.attains hnext hat.unspaced).bind ?_
      rintro _ r₁ ⟨⟨j', rfl, hrender⟩, hat₁⟩
      exact .pure ⟨front ++ [j], back, by simp, by simp [hdone, hrender], hat₁⟩

/-- A table source is read back in front of what ends its last join. -/
theorem source_recovers (hin : inner.Recovers env depth levels below) {s : TableSource}
    (h : s.isBuilt (Leaf.legible env.dialect levels) below = true) :
    ∃ gs, Recovers env depth (tableSource env inner) Render.source
      (Kind.endsSource s.endsInBareJoin) s gs ∧ ahead gs ≠ .keyword .SELECT := by
  obtain ⟨f, js⟩ := s
  simp only [TableSource.isBuilt, Bool.and_eq_true, List.all_eq_true] at h
  obtain ⟨factor, hf, hfirst⟩ := factor_recovers hin h.1
  obtain ⟨glyphs, hglyphs⟩ := exists_glyphs fun j hj => join_recovers hin (h.2 j hj)
  refine ⟨factor ++ joined glyphs js, ⟨?_, ?_, hf.leads.append (trails_joined hglyphs), ?_⟩, ?_⟩
  · rw [spell_append, hf.spells, spell_joined hglyphs, source_eq, String.toList_append]
  · simp [hf.nonempty]
  · intro r hs hend hat
    rw [List.append_assoc] at hat
    have hstop : (ahead (joined glyphs js ++ hs)).stopsTable = true := by
      cases js with
      | nil =>
          simp only [Kind.endsSource, Kind.endsJoin, Bool.and_eq_true] at hend
          exact hend.1.1.1.1
      | cons j js =>
          have hj := hglyphs j List.mem_cons_self
          rw [joined, List.append_assoc, ahead_append (by simpa using hj.nonempty), ahead_spaced]
          have hjoin := endsJoin_of_startsJoin hj.first false
          simp only [Kind.endsJoin, Bool.and_eq_true] at hjoin
          exact hjoin.1.1.1
    refine (hf.attains hstop hat).bind ?_
    rintro f' r₁ ⟨hf', hat₁⟩
    refine (attains_joins f hglyphs hend hat₁ f').mono ?_
    rintro s r' ⟨hfactor, hjoins, hat'⟩
    refine ⟨?_, hat'⟩
    rw [source_eq, source_eq, hfactor, hf', hjoins]
  · rw [ahead_append hf.nonempty]
    exact hfirst

/-- Table sources with commas between them. -/
theorem sources_recover (hin : inner.Recovers env depth levels below) {ss : List TableSource}
    (h : sourcesBuilt (Leaf.legible env.dialect levels) below ss = true) :
    ∃ gs, Recovers env depth (tableSources env inner) Render.sources
      (fun k => k.endsSource (ss.getLast?.any (·.endsInBareJoin)) && k != .symbol .comma) ss gs ∧
      ahead gs ≠ .keyword .SELECT := by
  simp only [sourcesBuilt, Bool.and_eq_true, Bool.not_eq_true', List.isEmpty_eq_false_iff,
    List.all_eq_true] at h
  obtain ⟨gs, hgs, hfirst⟩ := commaSeparated_recovers
    (fun s : TableSource => Kind.endsSource s.endsInBareJoin) (· ≠ .keyword .SELECT) h.1
    (fun s hs => source_recovers hin (h.2 s hs)) (fun s => by cases s.endsInBareJoin <;> rfl)
  rw [← sources_eq] at hgs
  refine ⟨gs, hgs.weaken fun k hk => ?_, hfirst⟩
  rw [Bool.and_eq_true] at hk ⊢
  refine ⟨?_, hk.2⟩
  cases hlast : ss.getLast? with
  | none => rfl
  | some s =>
      rw [hlast] at hk
      exact hk.1

end Reader

end SqlMarkers
