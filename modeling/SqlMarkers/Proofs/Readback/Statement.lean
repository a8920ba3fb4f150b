/-
SqlMarkers.Proofs.Readback.Statement — statements are read back.

The text of a legible statement is read as a statement with that text, if it is not too long
to be read at all (`render_stable`). Where a statement is not legible, its text may be read
as another one: names are written in quotes that are read as those of a string
(`unstable_quotedName`). Nor is a kept text legible that ends in `INTERVAL` and its operand, as
a name behind it would be taken for the unit.

Queries and changes are read back part by part. A definition is kept as its source text, so it
is one leaf: it is legible if that text, read alone, gives it again. That run may have been
made under another catalogue and a lower limit, of which the text does not depend
(`Definition.parse_text`).
-/
import SqlMarkers.Proofs.Catalogues
import SqlMarkers.Proofs.Landing.Statement
import SqlMarkers.Proofs.Limits
import SqlMarkers.Proofs.Markers
import SqlMarkers.Proofs.Readback.Query

namespace SqlMarkers

open Glyph

namespace Reader

variable {env : Setting} {depth levels : Nat} {below : Below} {inner : Inner} {r : Reading}
  {gs hs : List Glyph}

/-! ## Rows and columns -/

/-- The text of expressions in parentheses. -/
def tupleText (es : List Expr) : String := "(" ++ Render.exprs es ++ ")"

/-- Expressions in parentheses, possibly none. -/
theorem exprTuple_recovers (hin : inner.Admits env depth levels) {es : List Expr}
    (h : es.all (·.legible env.dialect levels) = true) :
    ∃ gs, Recovers env depth (exprTuple env inner) tupleText (fun _ => true) es (enclosed gs) ∧
      Leads env.dialect gs ∧ (es ≠ [] → gs ≠ [] ∧ (ahead gs).opensExpression = true) := by
  by_cases hne : es = []
  · subst hne
    refine ⟨[], ⟨rfl, List.cons_ne_nil _ _, sound_enclosed fun _ _ => trivial,
      fun {r hs} _ hat => ?_⟩, fun _ _ => trivial, fun h => absurd rfl h⟩
    rw [enclosed_append] at hat
    refine (hat.accept rfl).bind fun opening r₁ hat₁ => .atSymbol ?_
    rw [hat₁.isSymbol]
    refine .after (a := []) (s := r₁) rfl ?_
    exact (Reading.At.close hat₁ opening).bind fun _ r₂ hat₂ => .pure ⟨rfl, hat₂⟩
  · rw [List.all_eq_true] at h
    obtain ⟨gs, hgs, hopens⟩ := exprs_recover hin hne h
    refine ⟨gs, ⟨?_, List.cons_ne_nil _ _, sound_enclosed hgs.leads, fun {r hs} _ hat => ?_⟩,
      hgs.leads, fun _ => ⟨hgs.nonempty, hopens⟩⟩
    · simp [enclosed, tupleText, hgs.spells]
      rfl
    · rw [enclosed_append] at hat
      refine (hat.accept rfl).bind fun opening r₁ hat₁ => .atSymbol ?_
      rw [hat₁.isSymbol, ahead_append hgs.nonempty,
        beq_false_of_ne (ne_of_opensExpression hopens _ rfl)]
      refine (hgs.attains rfl hat₁).bind ?_
      rintro es' r₂ ⟨hes', hat₂⟩
      refine (hat₂.close opening).bind fun _ r₃ hat₃ => .pure ⟨?_, hat₃⟩
      rw [tupleText, tupleText, hes']

/-- The text of a tuple tells whether there is something in it. -/
theorem ne_nil_of_tupleText {es es' : List Expr} (h : tupleText es' = tupleText es)
    (hne : Render.exprs es ≠ "") : es' ≠ [] := by
  rintro rfl
  simp only [tupleText, ← String.toList_inj, String.toList_append] at h
  refine hne (String.toList_inj.1 ?_)
  simpa [Render.exprs, Render.commaList] using h

theorem valuesRow_recovers (hin : inner.Admits env depth levels) {row : ValuesRow}
    (h : row.values.all (·.legible env.dialect levels) = true) :
    ∃ gs, Recovers env depth (valuesRow env inner) Render.valuesRow (fun _ => true) row gs := by
  obtain ⟨gs, hgs, -, -⟩ := exprTuple_recovers hin h
  refine ⟨enclosed gs, hgs.spells, hgs.nonempty, hgs.leads, fun {r hs} _ hat => ?_⟩
  exact .here ((hgs.attains rfl hat).bind fun values r₁ hvalues => .lastEnd (.pure hvalues))

theorem assignment_recovers (hin : inner.Admits env depth levels) {a : Assignment}
    (h : a.isBuilt (Leaf.legible env.dialect levels) = true) :
    ∃ gs, Recovers env depth (assignment env inner) Render.assignment Kind.stopsOperand a gs := by
  rw [Assignment.isBuilt, Bool.and_eq_true] at h
  have hcolumn := expr_recovers hin h.1
  have hvalue := expr_recovers hin h.2
  refine ⟨Glyph.ofText env.dialect (Render.expr a.column) ++
    spaced (mark .eq :: spaced (Glyph.ofText env.dialect (Render.expr a.value))), ?_,
    by simp [hcolumn.nonempty],
    hcolumn.leads.append (.comparison .eq hvalue.leads hvalue.nonempty), fun {r hs} hstop hat => ?_⟩
  · rw [spell_append, hcolumn.spells, spell_spaced (List.cons_ne_nil _ _), spell_cons,
      spell_spaced hvalue.nonempty, hvalue.spells, Render.assignment]
    simp
    rfl
  · rw [List.append_assoc] at hat
    refine (hcolumn.attains rfl hat).bind ?_
    rintro column r₁ ⟨hcolumn', hat₁⟩
    refine (hat₁.unspaced.accept rfl).bind fun _ r₂ hat₂ => ?_
    refine (hvalue.attains hstop hat₂.unspaced).bind ?_
    rintro value r₃ ⟨hvalue', hat₃⟩
    refine .pure ⟨?_, hat₃⟩
    rw [Render.assignment, Render.assignment, hcolumn', hvalue']

theorem assignments_recover (hin : inner.Admits env depth levels) {as : List Assignment} (hne : as ≠ [])
    (h : as.all (·.isBuilt (Leaf.legible env.dialect levels)) = true) :
    ∃ gs, Recovers env depth (assignments env inner) (listText Render.assignment)
      (fun k => k.stopsOperand && k != .symbol .comma) as gs := by
  rw [List.all_eq_true] at h
  obtain ⟨gs, hgs, -⟩ := list_recovers Kind.stopsOperand (fun _ => True) hne
    (fun a ha => (assignment_recovers hin (h a ha)).imp fun _ hgs => ⟨hgs, trivial⟩) rfl
  exact ⟨gs, hgs⟩

/-- What begins a clause ends the assignments in front of it. -/
theorem endsAssignments {k : Kind} (h : k.EndsAll) :
    (k.stopsOperand && k != .symbol .comma) = true := by
  have horder := h.order
  rw [Kind.stopsOrder, Bool.and_eq_true] at horder
  rw [Bool.and_eq_true, bne_iff_ne]
  exact ⟨horder.1, fun heq => h.ne (by simp [heq])⟩

/-! ## Parts of `INSERT` -/

/-- The glyphs make up the text of `x`, can stand behind any token, and are read as something
with this text. -/
structure RecoversTail {α : Type} (env : Setting) (depth : Nat) (m : Reader α)
    (text : α → String) (follow : Kind → Bool) (x : α) (gs : List Glyph) : Prop where
  spells : spell gs = (text x).toList
  trails : Trails env.dialect gs
  attains : ∀ {r hs}, follow (ahead hs) = true → r.At env depth (gs ++ hs) →
    Attains m r fun a r' => text a = text x ∧ r'.At env depth hs

/-- The text of the columns of `INSERT`. -/
def columnsText (columns : List Expr) : String :=
  if columns.isEmpty then "" else " " ++ tupleText columns

/-- The columns of an `INSERT` are read back. Where there are none, nothing is written, and what
follows must not be a parenthesis. -/
theorem insertColumns_recovers (hin : inner.Admits env depth levels) {columns : List Expr}
    (h : columns.all (·.legible env.dialect levels) = true) :
    ∃ gs, RecoversTail env depth (insertColumns env inner) columnsText
      (fun k => k != .symbol .leftParen) columns gs ∧
      (gs = [] ∨ ahead gs = .symbol .leftParen) := by
  by_cases hne : columns = []
  · subst hne
    refine ⟨[], ⟨rfl, .nil, fun {r hs} hfollow hat => .atSymbol ?_⟩, .inl rfl⟩
    have hat : r.At env depth hs := hat
    rw [hat.isSymbol, beq_false_of_ne (by simpa using hfollow)]
    exact .pure ⟨rfl, hat⟩
  · obtain ⟨gs, hgs, hleads, hopens⟩ := exprTuple_recovers hin h
    obtain ⟨hgsne, hopens⟩ := hopens hne
    have htextne : Render.exprs columns ≠ "" := by
      obtain ⟨_, hexprs, -⟩ := exprs_recover hin hne (List.all_eq_true.1 h)
      exact hexprs.text_ne
    refine ⟨spaced (enclosed gs), ⟨?_, .enclosed hleads, fun {r hs} _ hat => .atSymbol ?_⟩, .inr rfl⟩
    · rw [spell_spaced hgs.nonempty, hgs.spells, columnsText, if_neg (by simpa using hne)]
      simp
    · have hat := hat.unspaced
      rw [hat.isSymbol]
      rw [enclosed_append] at hat
      refine hat.peek.bind ?_
      rintro t r₁ ⟨hkind, rfl⟩
      rw [Token.isKeyword, hkind, ahead_append hgsne,
        beq_false_of_ne (ne_of_opensExpression hopens _ rfl)]
      rw [← enclosed_append] at hat
      refine (hgs.attains rfl hat).mono ?_
      rintro columns' r₂ ⟨htext, hat₂⟩
      refine ⟨?_, hat₂⟩
      rw [columnsText, if_neg (by simpa using ne_nil_of_tupleText htext htextne), columnsText,
        if_neg (by simpa using hne), htext]

/-- The text of the source of `INSERT`. -/
def insertSourceText : InsertSource → String
  | .values rows => " VALUES " ++ listText Render.valuesRow rows
  | .set as => " SET " ++ listText Render.assignment as
  | .query q => " " ++ Render.query q

theorem rows_recover (hin : inner.Admits env depth levels) {rows : List ValuesRow} (hne : rows ≠ [])
    (h : rows.all (fun row => row.values.all (·.legible env.dialect levels)) = true) :
    ∃ gs, Recovers env depth (commaSeparated (valuesRow env inner)) (listText Render.valuesRow)
      (· != .symbol .comma) rows gs := by
  rw [List.all_eq_true] at h
  obtain ⟨gs, hgs, -⟩ := list_recovers (fun _ => true) (fun _ => True) hne
    (fun row hrow => (valuesRow_recovers hin (h row hrow)).imp fun _ hgs => ⟨hgs, trivial⟩) rfl
  exact ⟨gs, hgs.weaken fun k hk => hk⟩

/-- The rows of an `INSERT` are read back, whichever of the three forms they have. -/
theorem insertSource_recovers (hin : inner.Recovers env depth levels below) {source : InsertSource}
    (h : source.isBuilt (Leaf.legible env.dialect levels) below = true) :
    ∃ gs, RecoversTail env depth (insertSource env inner) insertSourceText
      (Kind.endsQuery (source.endsInBareJoin)) source gs ∧ gs ≠ [] ∧
      ahead gs ∈ [.keyword .VALUES, .keyword .SET, .keyword .SELECT] := by
  have hall : ∀ {k : Kind} {bare}, k.endsQuery bare = true → k.EndsAll := fun hk =>
    Kind.endsAll_of_clauseRank (n := 7) (by rw [endsQuery_rank hk]; decide)
  cases source with
  | values rows =>
      rw [InsertSource.isBuilt, Bool.and_eq_true, Bool.not_eq_true', List.isEmpty_eq_false_iff] at h
      obtain ⟨gs, hgs⟩ := rows_recover hin.admits h.1 h.2
      refine ⟨spaced (word .VALUES :: spaced gs), ⟨?_, .clause (by cases env.dialect <;> decide) rfl
        hgs.leads, fun {r hs} hend hat => .current ?_⟩, List.cons_ne_nil _ _, by simp⟩
      · rw [spell_spaced (List.cons_ne_nil _ _), spell_cons, spell_spaced hgs.nonempty, hgs.spells]
        simp [insertSourceText]
        rfl
      · rw [hat.kind]
        refine hat.next.bind fun _ r₁ hat₁ => ?_
        have hcomma : (ahead hs != .symbol .comma) = true :=
          bne_iff_ne.2 fun heq => (hall hend).ne (by simp [heq])
        refine (hgs.attains hcomma hat₁.unspaced).bind ?_
        rintro rows' r₂ ⟨hrows, hat₂⟩
        exact .pure ⟨congrArg (" VALUES " ++ ·) hrows, hat₂⟩
  | set as =>
      rw [InsertSource.isBuilt, Bool.and_eq_true, Bool.not_eq_true', List.isEmpty_eq_false_iff] at h
      obtain ⟨gs, hgs⟩ := assignments_recover hin.admits h.1 h.2
      refine ⟨spaced (word .SET :: spaced gs), ⟨?_, .clause (by cases env.dialect <;> decide) rfl
        hgs.leads, fun {r hs} hend hat => .current ?_⟩, List.cons_ne_nil _ _, by simp⟩
      · rw [spell_spaced (List.cons_ne_nil _ _), spell_cons, spell_spaced hgs.nonempty, hgs.spells]
        simp [insertSourceText]
        rfl
      · rw [hat.kind]
        refine hat.next.bind fun _ r₁ hat₁ => ?_
        refine (hgs.attains (endsAssignments (hall hend)) hat₁.unspaced).bind ?_
        rintro as' r₂ ⟨has, hat₂⟩
        exact .pure ⟨congrArg (" SET " ++ ·) has, hat₂⟩
  | query q =>
      obtain ⟨gs, hgs, hfirst, htrails⟩ := hin.query q h
      refine ⟨spaced gs, ⟨?_, htrails, fun {r hs} hend hat => .current ?_⟩,
        by simpa using hgs.nonempty, by simp [hfirst]⟩
      · rw [spell_spaced hgs.nonempty, hgs.spells, insertSourceText]
        simp
      · have hat := hat.unspaced
        rw [hat.kind, ahead_append hgs.nonempty, hfirst]
        refine (hgs.embed.attains hend hat).bind ?_
        rintro q' r₁ ⟨hq, hat₁⟩
        exact .pure ⟨congrArg (" " ++ ·) hq, hat₁⟩

/-- The text of `ON DUPLICATE KEY UPDATE`. -/
def onDuplicateText (as : List Assignment) : String :=
  if as.isEmpty then "" else " ON DUPLICATE KEY UPDATE " ++ listText Render.assignment as

/-- `ON DUPLICATE KEY UPDATE` is read back in the dialect that knows `DUPLICATE`. It comes last in
the statement. -/
theorem onDuplicate_recovers (hin : inner.Admits env depth levels) {as : List Assignment}
    (hdialect : as = [] ∨ env.dialect = .mysql)
    (h : as.all (·.isBuilt (Leaf.legible env.dialect levels)) = true) :
    ∃ gs, RecoversTail env depth (onDuplicate env inner) onDuplicateText (· == .endOfInput) as gs ∧
      (gs = [] ∨ (gs ≠ [] ∧ as ≠ [] ∧ ahead gs = .keyword .ON)) := by
  by_cases hne : as = []
  · subst hne
    refine ⟨[], ⟨rfl, .nil, fun {r hs} hfollow hat => .atKeyword ?_⟩, .inl rfl⟩
    have hat : r.At env depth hs := hat
    obtain hend : ahead hs = .endOfInput := by simpa using hfollow
    rw [hat.isKeyword, hend]
    exact .after (a := false) (s := r) rfl (.pure ⟨rfl, hat⟩)
  · have hmysql := hdialect.resolve_left hne
    obtain ⟨gs, hgs⟩ := assignments_recover hin hne h
    have htrails : Trails env.dialect (spaced (word .UPDATE :: spaced gs)) :=
      .clause (by rw [hmysql]; decide) rfl hgs.leads
    refine ⟨spaced (word .ON :: spaced (word .DUPLICATE :: spaced (word .KEY ::
      spaced (word .UPDATE :: spaced gs)))), ⟨?_, ?_, fun {r hs} hfollow hat => .atKeyword ?_⟩,
      .inr ⟨List.cons_ne_nil _ _, hne, rfl⟩⟩
    · simp only [spell_spaced (List.cons_ne_nil _ _), spell_cons]
      rw [spell_spaced hgs.nonempty, hgs.spells, onDuplicateText, if_neg (by simpa using hne)]
      simp
      rfl
    · exact .words (by rw [hmysql]; decide) (.words (by rw [hmysql]; decide)
        (.words (by rw [hmysql]; decide) htrails))
    · rw [hat.isKeyword]
      refine hat.peek.bind ?_
      rintro t r₁ ⟨hkind, rfl⟩
      refine .after (a := true) (s := r₁) ?_ ?_
      · rw [Token.isKeyword, hkind]
        rfl
      · refine hat.next.bind fun _ r₂ hat₂ => ?_
        refine hat₂.unspaced.next.bind fun _ r₃ hat₃ => ?_
        refine (hat₃.unspaced.accept rfl).bind fun _ r₄ hat₄ => ?_
        refine (hat₄.unspaced.accept rfl).bind fun _ r₅ hat₅ => ?_
        have hstop : ((ahead hs).stopsOperand && ahead hs != .symbol .comma) = true := by
          rw [show ahead hs = .endOfInput by simpa using hfollow]
          rfl
        refine (hgs.attains hstop hat₅.unspaced).mono ?_
        rintro as' r₆ ⟨has, hat₆⟩
        refine ⟨?_, hat₆⟩
        rw [onDuplicateText, if_neg (by simpa using ne_nil_of_listText has hgs.text_ne),
          onDuplicateText, if_neg (by simpa using hne), has]

/-! ## Statements that change rows -/

theorem insert_text (s : Insert) :
    Render.insert s = "INSERT INTO " ++ (Render.table s.table ++ (columnsText s.columns ++
      (insertSourceText s.source ++ onDuplicateText s.onDuplicate))) := by
  obtain ⟨table, columns, source, onDuplicate, _, _⟩ := s
  unfold Render.insert
  cases source <;> by_cases hcolumns : columns = [] <;> by_cases honDuplicate : onDuplicate = [] <;>
    simp [hcolumns, honDuplicate, columnsText, tupleText, insertSourceText, onDuplicateText, listText,
      String.append_assoc] <;> rfl

/-- An `INSERT` is read back. The `ON` behind its rows must not be taken for that of a join in
them, which is what `Leaf.rowsBeforeOn` tests. -/
theorem insert_recovers (hin : inner.Recovers env depth levels below) {s : Insert}
    (h : s.isBuilt (Leaf.legible env.dialect levels) below = true) :
    ∃ gs, Recovers env depth (insert env inner) Render.insert (· == .endOfInput) s gs ∧
      ahead gs = .keyword .INSERT := by
  simp only [Insert.isBuilt, Bool.and_eq_true] at h
  obtain ⟨⟨⟨⟨htable, hcolumns⟩, hsource⟩, honDuplicate⟩, hon⟩ := h
  have htable := table_recovers depth htable
  obtain ⟨columns, hcolumns, hcolumnsFirst⟩ := insertColumns_recovers hin.admits hcolumns
  obtain ⟨source, hsource, hsourcene, hsourceFirst⟩ := insertSource_recovers hin hsource
  simp only [Bool.or_eq_true, Bool.and_eq_true, List.isEmpty_iff] at hon
  obtain ⟨onDuplicate, honDuplicate, honFirst⟩ := onDuplicate_recovers hin.admits
    (hon.imp_right fun h => Leaf.mysql_of_word (by decide) h.1) honDuplicate
  have hleads : Leads env.dialect (Glyph.ofText env.dialect (Render.table s.table) ++
      (columns ++ (source ++ onDuplicate))) :=
    htable.leads.append (hcolumns.trails.append (hsource.trails.append honDuplicate.trails))
  refine ⟨word .INSERT :: spaced (word .INTO :: spaced (Glyph.ofText env.dialect
    (Render.table s.table) ++ (columns ++ (source ++ onDuplicate)))), ⟨?_, List.cons_ne_nil _ _, ?_,
      fun {r hs} hend hat => ?_⟩, rfl⟩
  · rw [spell_cons, spell_spaced (List.cons_ne_nil _ _), spell_cons,
      spell_spaced (by simp [htable.nonempty]), spell_append, spell_append, spell_append,
      htable.spells, hcolumns.spells, hsource.spells, honDuplicate.spells, insert_text]
    simp only [String.toList_append]
    rfl
  · exact sound_word (by cases env.dialect <;> decide)
      (.clause (by cases env.dialect <;> decide) rfl hleads)
  · obtain hend : ahead hs = .endOfInput := by simpa using hend
    have hbehind : (ahead (onDuplicate ++ hs)).endsQuery s.source.endsInBareJoin = true := by
      rcases honFirst with rfl | ⟨hne, has, hkind⟩
      · rw [List.nil_append, hend]
        rfl
      · rw [ahead_append hne, hkind]
        exact (hon.resolve_left has).2
    have hsourceAhead :
        ∀ hs, ahead (source ++ hs) ∈ [.keyword .VALUES, .keyword .SET, .keyword .SELECT] := by
      intro hs
      rw [ahead_append hsourcene]
      exact hsourceFirst
    have hnoParen : (ahead (source ++ (onDuplicate ++ hs)) != .symbol .leftParen) = true := by
      have hmem := hsourceAhead (onDuplicate ++ hs)
      simp only [List.mem_cons, List.not_mem_nil, or_false] at hmem
      rcases hmem with heq | heq | heq <;> rw [heq] <;> rfl
    have hstop : (ahead (columns ++ (source ++ (onDuplicate ++ hs)))).stopsTable = true := by
      rcases hcolumnsFirst with rfl | hfirst
      · have hmem := hsourceAhead (onDuplicate ++ hs)
        simp only [List.mem_cons, List.not_mem_nil, or_false] at hmem
        rcases hmem with heq | heq | heq <;> rw [List.nil_append, heq] <;> rfl
      · have hne : columns ≠ [] := by
          rintro rfl
          cases hfirst
        rw [ahead_append hne, hfirst]
        rfl
    refine .here ((hat.accept rfl).bind fun _ r₁ hat₁ => ?_)
    have hat₁ := hat₁.unspaced
    refine .after (hat₁.skipWhile (by rfl)) ?_
    refine (hat₁.skipOneOf rfl).bind ?_
    rintro _ r₂ ⟨_, hat₂⟩
    have hat₂ := hat₂.unspaced
    simp only [List.append_assoc] at hat₂
    refine (htable.attains hstop hat₂).bind ?_
    rintro table r₃ ⟨htable', hat₃⟩
    refine (hcolumns.attains hnoParen hat₃).bind ?_
    rintro columns' r₄ ⟨hcolumns', hat₄⟩
    refine (hsource.attains hbehind hat₄).bind ?_
    rintro source' r₅ ⟨hsource', hat₅⟩
    refine (honDuplicate.attains (by simpa using hend) hat₅).bind ?_
    rintro onDuplicate' r₆ ⟨hon', hat₆⟩
    refine .lastEnd (.after (s := r₆) (a := r₆.draft.finish) rfl (.pure ⟨?_, hat₆⟩))
    rw [insert_text, insert_text, htable', hcolumns', hsource', hon']

/-- The text of the clauses behind `UPDATE` and `DELETE`. -/
def rowClausesText (filter : Option ConditionList) (orderBy : List OrderItem)
    (paging : Option Paging) : String :=
  Render.whereClause filter ++ (Render.orderClause " ORDER BY " orderBy ++
    Render.trailingPaging paging)

/-- A paging clause that is no `TOP` is rendered in the same way behind every statement. -/
theorem trailingPaging_eq {paging : Option Paging} (h : ∀ p ∈ paging, p.form ≠ .top) :
    Render.trailingPaging paging = Render.pagingClause paging := by
  cases paging with
  | none => rfl
  | some p => exact (if_neg (h p rfl)).symm

/-- The clauses behind `UPDATE` and `DELETE` are read one by one, up to the end of the input. -/
theorem rowClauses_recover (hin : inner.Recovers env depth levels below) {filter : Option ConditionList}
    {orderBy : List OrderItem} {paging : Option Paging}
    (hfilter : filter.all (fun w =>
      conditionsBuilt (Leaf.legible env.dialect levels) below w.conditions) = true)
    (horder : orderBy.all (·.isBuilt (Leaf.legible env.dialect levels)) = true)
    (hpaging : pagingBuilt (Leaf.legible env.dialect levels) paging = true) :
    ∃ gs, spell gs = (rowClausesText filter orderBy paging).toList ∧ Trails env.dialect gs ∧
      (∀ {hs}, ahead hs = .endOfInput → 1 < (ahead (gs ++ hs)).clauseRank) ∧
      ∀ {α : Type} {f : Option ConditionList → List OrderItem → Option Paging → Reader α}
        {Q : α → Reading → Prop} {r hs}, ahead hs = .endOfInput → r.At env depth (gs ++ hs) →
        (∀ filter' orderBy' paging' r', rowClausesText filter' orderBy' paging' =
          rowClausesText filter orderBy paging → r'.At env depth hs →
          Attains (f filter' orderBy' paging') r' Q) →
        Attains (do
          let filter ← conditionClause env inner .WHERE
          let orderBy ← Reader.orderBy env inner
          let paging ← optionalPaging
          f filter orderBy paging) r Q := by
  obtain ⟨filterGlyphs, hfilter⟩ := conditionClause_recovers hin .WHERE
    (by cases env.dialect <;> decide) rfl hfilter
  obtain ⟨orderGlyphs, horder⟩ := orderBy_recovers hin.admits horder
  have hform : ∀ p ∈ paging, p.form ≠ .top := by
    rintro p hp
    obtain rfl : paging = some p := hp
    simp only [pagingBuilt, Option.all_some, Bool.and_eq_true, bne_iff_ne] at hpaging
    exact hpaging.1
  have hlegible : paging.all (·.isBuilt (Leaf.legible env.dialect levels)) = true := by
    cases paging with
    | none => rfl
    | some p => exact (Bool.and_eq_true_iff.1 hpaging).2
  obtain ⟨pagingGlyphs, hpaging⟩ := optionalPaging_recovers depth hlegible
  refine ⟨filterGlyphs ++ (orderGlyphs ++ pagingGlyphs), ?_,
    hfilter.trails.append (horder.trails.append hpaging.trails), fun {hs} hend => ?_,
    fun {α f Q r hs} hend hat h => ?_⟩
  · rw [spell_append, spell_append, hfilter.spells, horder.spells, hpaging.spells, rowClausesText,
      conditionText_where, trailingPaging_eq hform]
    simp
  · have hhs : (ahead hs).clauseRank = 8 := by rw [hend]; rfl
    simp only [List.append_assoc]
    exact hfilter.rank_append (by decide) (horder.rank_append (by decide)
      (hpaging.rank_append (by decide) (by omega)))
  · have hhs : (ahead hs).clauseRank = 8 := by rw [hend]; rfl
    have hpagingRank : 5 < (ahead (pagingGlyphs ++ hs)).clauseRank :=
      hpaging.rank_append (by decide) (by omega)
    have horderRank : 2 < (ahead (orderGlyphs ++ (pagingGlyphs ++ hs))).clauseRank :=
      horder.rank_append (by decide) (by omega)
    simp only [List.append_assoc] at hat
    refine (hfilter.attains horderRank rfl hat).bind ?_
    rintro filter' r₁ ⟨hfilter', hat₁⟩
    refine (horder.attains hpagingRank rfl hat₁).bind ?_
    rintro orderBy' r₂ ⟨horder', hat₂⟩
    refine (hpaging.attains (by omega) rfl hat₂).withYields.bind ?_
    rintro paging' r₃ ⟨⟨hpaging', hat₃⟩, hyields⟩
    refine h _ _ _ r₃ ?_ hat₃
    rw [rowClausesText, rowClausesText, ← conditionText_where, ← conditionText_where, hfilter',
      horder', trailingPaging_eq hform, trailingPaging_eq (optionalPaging_form hyields), hpaging']

theorem update_text (s : Update) :
    Render.update s = "UPDATE " ++ (Render.table s.table ++ (" SET " ++
      (listText Render.assignment s.assignments ++
        rowClausesText s.filter s.orderBy s.paging))) := by
  unfold Render.update
  simp only [rowClausesText, listText, String.append_assoc]

theorem update_recovers (hin : inner.Recovers env depth levels below) {s : Update}
    (h : s.isBuilt (Leaf.legible env.dialect levels) below = true) :
    ∃ gs, Recovers env depth (update env inner) Render.update (· == .endOfInput) s gs ∧
      ahead gs = .keyword .UPDATE := by
  simp only [Update.isBuilt, Bool.and_eq_true, Bool.not_eq_true', List.isEmpty_eq_false_iff] at h
  obtain ⟨⟨⟨⟨⟨⟨htable, hwords⟩, hne⟩, hassignments⟩, hfilter⟩, horder⟩, hpaging⟩ := h
  have htable := table_recovers depth htable
  obtain ⟨assigned, hassigned⟩ := assignments_recover hin.admits hne hassignments
  obtain ⟨clauses, hspells, htrails, hrank, hclauses⟩ :=
    rowClauses_recover hin hfilter horder hpaging
  have hset : Trails env.dialect (spaced (word .SET :: spaced (assigned ++ clauses))) :=
    .clause (by cases env.dialect <;> decide) rfl (hassigned.leads.append htrails)
  refine ⟨word .UPDATE :: spaced (Glyph.ofText env.dialect (Render.table s.table) ++
    spaced (word .SET :: spaced (assigned ++ clauses))), ⟨?_, List.cons_ne_nil _ _,
      sound_clause (by cases env.dialect <;> decide) rfl (htable.leads.append hset),
      fun {r hs} hend hat => ?_⟩, rfl⟩
  · rw [spell_cons, spell_spaced (by simp [htable.nonempty]), spell_append, htable.spells,
      spell_spaced (List.cons_ne_nil _ _), spell_cons, spell_spaced (by simp [hassigned.nonempty]),
      spell_append, hassigned.spells, hspells, update_text]
    simp only [String.toList_append]
    rfl
  · obtain hend : ahead hs = .endOfInput := by simpa using hend
    refine .here ((hat.accept rfl).bind fun _ r₁ hat₁ => ?_)
    have hat₁ := hat₁.unspaced
    rw [List.append_assoc] at hat₁
    refine .after (hat₁.skipWhile ?_) ?_
    · rw [ahead_append htable.nonempty]
      simpa [Leaf.legible, Table.legibleBehindUpdate] using hwords
    · refine (htable.attains (by rfl) hat₁).bind ?_
      rintro table r₂ ⟨htable', hat₂⟩
      refine (hat₂.unspaced.accept rfl).bind fun _ r₃ hat₃ => ?_
      have hat₃ := hat₃.unspaced
      rw [List.append_assoc] at hat₃
      have hstop := endsAssignments (Kind.endsAll_of_clauseRank (hrank hend))
      refine (hassigned.attains hstop hat₃).bind ?_
      rintro assigned' r₄ ⟨hassigned', hat₄⟩
      refine hclauses hend hat₄ fun filter' orderBy' paging' r₅ htext hat₅ => ?_
      refine .lastEnd (.after (s := r₅) (a := r₅.draft.finish) rfl (.pure ⟨?_, hat₅⟩))
      rw [update_text, update_text, htable', hassigned', htext]

theorem delete_text (s : Delete) :
    Render.delete s = "DELETE FROM " ++ (Render.table s.table ++
      rowClausesText s.filter s.orderBy s.paging) := by
  unfold Render.delete
  simp only [rowClausesText, String.append_assoc]

theorem delete_recovers (hin : inner.Recovers env depth levels below) {s : Delete}
    (h : s.isBuilt (Leaf.legible env.dialect levels) below = true) :
    ∃ gs, Recovers env depth (delete env inner) Render.delete (· == .endOfInput) s gs ∧
      ahead gs = .keyword .DELETE := by
  simp only [Delete.isBuilt, Bool.and_eq_true] at h
  obtain ⟨⟨⟨htable, hfilter⟩, horder⟩, hpaging⟩ := h
  have htable := table_recovers depth htable
  obtain ⟨clauses, hspells, htrails, hrank, hclauses⟩ :=
    rowClauses_recover hin hfilter horder hpaging
  refine ⟨word .DELETE :: spaced (word .FROM ::
    spaced (Glyph.ofText env.dialect (Render.table s.table) ++ clauses)), ⟨?_, List.cons_ne_nil _ _,
      sound_word (by cases env.dialect <;> decide) (.clause (by cases env.dialect <;> decide) rfl
        (htable.leads.append htrails)), fun {r hs} hend hat => ?_⟩, rfl⟩
  · rw [spell_cons, spell_spaced (List.cons_ne_nil _ _), spell_cons,
      spell_spaced (by simp [htable.nonempty]), spell_append, htable.spells, hspells, delete_text]
    simp only [String.toList_append]
    rfl
  · obtain hend : ahead hs = .endOfInput := by simpa using hend
    refine .here ((hat.accept rfl).bind fun _ r₁ hat₁ => ?_)
    have hat₁ := hat₁.unspaced
    refine .after (hat₁.skipWhile (by rfl)) ?_
    refine (hat₁.skipOneOf rfl).bind ?_
    rintro _ r₂ ⟨_, hat₂⟩
    have hat₂ := hat₂.unspaced
    rw [List.append_assoc] at hat₂
    have hstop := (Kind.endsAll_of_clauseRank (hrank hend)).table
    refine (htable.attains hstop hat₂).bind ?_
    rintro table r₃ ⟨htable', hat₃⟩
    refine hclauses hend hat₃ fun filter' orderBy' paging' r₄ htext hat₄ => ?_
    refine .lastEnd (.after (s := r₄) (a := r₄.draft.finish) rfl (.pure ⟨?_, hat₄⟩))
    rw [delete_text, delete_text, htable', htext]

/-! ## Statements -/

/-- A legible statement is read back, but for definitions, which are no trees. -/
theorem statement_recovers {n : Nat}
    (hin : inner.Recovers env depth n (.upTo (Leaf.legible env.dialect) n))
    {s : Statement} (hrows : ∀ t, s ≠ .define t) (h : s.legible env.dialect n = true) :
    ∃ gs, Recovers env depth (statement env inner) Render.statement (· == .endOfInput) s gs := by
  cases s with
  | select q =>
      obtain ⟨gs, hgs, hfirst, -⟩ := query_recovers hin h
      refine ⟨gs, hgs.spells, hgs.nonempty, hgs.leads, fun {r hs} hend hat => .current ?_⟩
      obtain hend : ahead hs = .endOfInput := by simpa using hend
      rw [hat.kind, ahead_append hgs.nonempty, hfirst]
      refine (hgs.attains (by rw [hend]; rfl) hat).bind ?_
      rintro q' r₁ ⟨hq, hat₁⟩
      exact .pure ⟨hq, hat₁⟩
  | insert s =>
      obtain ⟨gs, hgs, hfirst⟩ := insert_recovers hin h
      refine ⟨gs, hgs.spells, hgs.nonempty, hgs.leads, fun {r hs} hend hat => .current ?_⟩
      rw [hat.kind, ahead_append hgs.nonempty, hfirst]
      refine (hgs.attains hend hat).bind ?_
      rintro s' r₁ ⟨hs', hat₁⟩
      exact .pure ⟨hs', hat₁⟩
  | update s =>
      obtain ⟨gs, hgs, hfirst⟩ := update_recovers hin h
      refine ⟨gs, hgs.spells, hgs.nonempty, hgs.leads, fun {r hs} hend hat => .current ?_⟩
      rw [hat.kind, ahead_append hgs.nonempty, hfirst]
      refine (hgs.attains hend hat).bind ?_
      rintro s' r₁ ⟨hs', hat₁⟩
      exact .pure ⟨hs', hat₁⟩
  | delete s =>
      obtain ⟨gs, hgs, hfirst⟩ := delete_recovers hin h
      refine ⟨gs, hgs.spells, hgs.nonempty, hgs.leads, fun {r hs} hend hat => .current ?_⟩
      rw [hat.kind, ahead_append hgs.nonempty, hfirst]
      refine (hgs.attains hend hat).bind ?_
      rintro s' r₁ ⟨hs', hat₁⟩
      exact .pure ⟨hs', hat₁⟩
  | define s => exact absurd rfl (hrows s)

/-- A statement up to the end of the input. -/
theorem attains_wholeStatement {s : Statement}
    (h : Recovers env depth (statement env inner) Render.statement (· == .endOfInput) s gs)
    (hat : r.At env depth gs) :
    Attains (wholeStatement env inner) r fun s' _ =>
      Render.statement s' = Render.statement s := by
  rw [← List.append_nil gs] at hat
  refine (h.attains rfl hat).bind ?_
  rintro s' r' ⟨htext, hat'⟩
  refine .after (hat'.skipNone (by rfl)) (.current ?_)
  rw [Token.isEnd, hat'.kind]
  exact .pure htext

end Reader

/-- In front of glyphs that make up the whole source, nothing was read yet. -/
theorem Reading.at_start {env : Setting} {gs : List Glyph} (hlexes : Lexes env.dialect .fresh gs [])
    (hsource : env.source = spell gs) (hfits : Span.fits env.source = true) :
    ∃ c, Cursor.ofText env.dialect env.source = .ok c ∧ (Reading.start c).At env 0 gs := by
  have hstream := ofText_spell hlexes (by rw [← hsource]; exact hfits)
  obtain ⟨t, ts, hplace, -⟩ := place_head 0 gs
  rw [hplace] at hstream
  refine ⟨⟨t, ts, none, 0⟩, ?_, ⟨[], hsource, ?_⟩, rfl, rfl⟩
  · rw [hsource, Cursor.ofText, hstream]
    rfl
  · exact hplace.symm

/-- A statement that is read up to faults that no statement leads to is read. -/
theorem Setting.run_of_attains {env : Setting} {c : Cursor} {Q : Statement → Reading → Prop}
    (hc : Cursor.ofText env.dialect env.source = .ok c)
    (h : Reader.Attains (Reader.wholeStatement env (Inner.upTo env env.limit)) (Reading.start c) Q) :
    ∃ s r, env.run = .ok (s, r) ∧ Q s r := by
  have hlands := env.run_lands
  rcases h.outcome with ⟨s, r, hread, hQ⟩ | ⟨f, r, hread, hunmet⟩
  · refine ⟨s, r, ?_, hQ⟩
    rw [Setting.run, hc]
    simp only [show Reader.wholeStatement _ _ (Reading.start c) = .ok s r from hread]
  · rw [Setting.run, hc] at hlands
    simp only [hread] at hlands
    rcases hunmet with rfl | rfl <;> exact hlands.elim

/-- A definition that is read alone is read under every catalogue, and wherever at least as
many levels may be nested. -/
theorem Definition.parse_text {config : Config} {s : Definition} {n : Nat}
    (hn : n ≤ config.maxDepth) (h : s.legible config.dialect n = true) (catalogue : Catalogue) :
    ∃ p, parse config catalogue s.text = .ok p ∧ Render.statement p.statement = s.text := by
  let lone := Setting.lone config.dialect n s.text
  obtain ⟨s', r, hrun, htext⟩ : ∃ s' r, lone.run = .ok (.define s', r) ∧ s'.text = s.text := by
    unfold Definition.legible at h
    split at h
    · rename_i s' r hrun
      exact ⟨s', r, hrun, beq_iff_eq.1 h⟩
    · cases h
  have hdeeper : (lone.withLimit config.maxDepth).run = .ok (.define s', r) := by
    cases lone.confined hn with
    | refused _ hrefused =>
        rw [hrefused] at hrun
        cases hrun
    | fault _ _ hfault _ =>
        rw [hfault] at hrun
        cases hrun
    | ok _ _ _ hsame => exact hsame.trans hrun
  have htwin : (lone.withLimit config.maxDepth).Twin id (config.setting catalogue s.text) :=
    ⟨rfl, rfl, fun _ _ => rfl⟩
  rcases (htwin.run (TokenStream.alike_self _)).exists_eq with
    ⟨x, ⟨st, r'⟩, hx, hrun', houtline, -⟩ | ⟨f, f', hf, -⟩
  · obtain rfl := Except.ok.inj (hx.symm.trans hdeeper)
    refine ⟨_, parse_of_run hrun', ?_⟩
    cases st with
    | define s'' => exact (congrArg Definition.text (Statement.define.inj houtline)).symm.trans htext
    | _ => cases houtline
  · rw [hdeeper] at hf
    cases hf

/-- The text of a legible statement is read as a statement with this text, unless it is too
long to be read. -/
theorem render_stable {config : Config} {catalogue : Catalogue} {s : Statement} {n : Nat}
    (hn : n ≤ config.maxDepth) (hlegible : s.legible config.dialect n = true)
    (hfits : Span.fits (Render.statement s).toList = true) :
    ∃ p, parse config catalogue (Render.statement s) = .ok p ∧
      Render.statement p.statement = Render.statement s := by
  by_cases hrows : ∀ t, s ≠ .define t
  · let env := config.setting catalogue (Render.statement s)
    have hin : (Inner.upTo env env.limit).Recovers env 0 n (.upTo (Leaf.legible env.dialect) n) :=
      Inner.recovers_upTo hn (by rwa [Nat.zero_add])
    obtain ⟨gs, hgs⟩ := Reader.statement_recovers hin hrows hlegible
    obtain ⟨c, hc, hat⟩ := Reading.at_start (hgs.leads [] rfl) hgs.spells.symm hfits
    obtain ⟨s', r, hrun, htext⟩ := Setting.run_of_attains hc (Reader.attains_wholeStatement hgs hat)
    exact ⟨_, parse_of_run hrun, htext⟩
  · obtain ⟨t, rfl⟩ : ∃ t, s = .define t := by simpa using hrows
    exact Definition.parse_text hn hlegible catalogue

/-- A query with a query in it, and the statement that its text is read as. -/
theorem render_stable_nested :
    ∃ p q, parse {} Catalogue.everyName
        "select a.b from a where b in (select c x from d) limit ?" = .ok p ∧
      1 ≤ Config.maxDepth {} ∧ p.statement.legible .standard 1 = true ∧
      Span.fits (Render.statement p.statement).toList = true ∧
      parse {} Catalogue.everyName (Render.statement p.statement) = .ok q ∧
      Render.statement q.statement = Render.statement p.statement := by
  obtain ⟨p, hp, hlegible, hfits⟩ : ∃ p, parse {} Catalogue.everyName
        "select a.b from a where b in (select c x from d) limit ?" = .ok p ∧
      p.statement.legible .standard 1 = true ∧
      Span.fits (Render.statement p.statement).toList = true :=
    exists_of_any (by decide +kernel)
  obtain ⟨q, hq, htext⟩ : ∃ q, parse {} Catalogue.everyName (Render.statement p.statement) = .ok q ∧
      Render.statement q.statement = Render.statement p.statement :=
    render_stable (n := 1) (by decide) hlegible hfits
  exact ⟨p, q, hp, by decide, hlegible, hfits, hq, htext⟩

/-- What is kept as text may have queries nested in it, and begin with a parenthesis. -/
example : ∃ p, parse {} Catalogue.everyName
      "select (select 1 from u) from t where (a + b) > all (select c from d) and e is true" =
        .ok p ∧ p.statement.legible .standard 1 = true :=
  exists_of_any (by decide +kernel)

/-- A name with a blank in it is written in quotes, which are read as those of a string. -/
theorem unstable_quotedName :
    ∃ p q, parse {} Catalogue.everyName "SELECT \x60a b\x60 FROM t" = .ok p ∧
      parse {} Catalogue.everyName (Render.statement p.statement) = .ok q ∧
      Render.statement p.statement = "SELECT \x22a b\x22 FROM t" ∧
      Render.statement q.statement = "SELECT 'a b' FROM t" := by
  obtain ⟨p, hp, hrender⟩ : ∃ p, parse {} Catalogue.everyName "SELECT \x60a b\x60 FROM t" = .ok p ∧
      Render.statement p.statement = "SELECT \x22a b\x22 FROM t" :=
    exists_of_any (by decide +kernel)
  obtain ⟨q, hq, hagain⟩ : ∃ q, parse {} Catalogue.everyName "SELECT \x22a b\x22 FROM t" = .ok q ∧
      Render.statement q.statement = "SELECT 'a b' FROM t" :=
    exists_of_any (by decide +kernel)
  exact ⟨p, q, hp, by rw [hrender]; exact hq, hrender, hagain⟩

end SqlMarkers
