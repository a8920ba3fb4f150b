/-
SqlMarkers.Proofs.Counterparts — statements with one outline, level by level.

Two statements that were read side by side (`Counterparts`) have the same outline:
their levels, their table references and the names that they note correspond to
each other. What remains is whether corresponding tables are sharded.

* If every sharded table has a sharded counterpart, then whatever is marked in the
  first statement is marked in the second (`Counterparts.exists_start`), though a
  further table may move an owner to a level further in.
* If the two agree on what is sharded, corresponding levels declare corresponding
  tables and hold corresponding markers (`Counterparts.tables_eq`,
  `Counterparts.markers_eq`).
-/
import Mathlib.Data.List.Sort
import SqlMarkers.Proofs.Agreement.Statement
import SqlMarkers.Proofs.Noted

namespace SqlMarkers

/-! ## Lists -/

section Lists

variable {α β : Type}

theorem exists_of_map_eq {f : α → β} {as bs : List α} (h : as.map f = bs.map f) {a : α}
    (ha : a ∈ as) : ∃ b ∈ bs, f a = f b := by
  have hmem := List.mem_map_of_mem (f := f) ha
  rw [h] at hmem
  obtain ⟨b, hb, heq⟩ := List.mem_map.1 hmem
  exact ⟨b, hb, heq.symm⟩

/-- What `g` makes of corresponding things carries over to corresponding lists. -/
theorem map_eq_of_map_eq {γ : Type} {f : α → β} {g : α → γ} {as bs : List α}
    (h : as.map f = bs.map f) (hg : ∀ a ∈ as, ∀ b ∈ bs, f a = f b → g a = g b) :
    as.map g = bs.map g := by
  rw [← List.forall₂_eq_eq_eq, List.forall₂_map_left_iff, List.forall₂_map_right_iff]
  exact forall₂_of_map_eq h hg

/-- Two lists that ascend and have the same images are the same to `f`. -/
theorem map_eq_of_ascending {f : α → β} (key : β → Nat) {as bs : List α}
    (has : as.Pairwise fun a b => key (f a) < key (f b))
    (hbs : bs.Pairwise fun a b => key (f a) < key (f b)) (hab : ∀ a ∈ as, ∃ b ∈ bs, f a = f b)
    (hba : ∀ b ∈ bs, ∃ a ∈ as, f b = f a) : as.map f = bs.map f := by
  have hantisymm : Std.Antisymm fun x y => key x < key y :=
    ⟨fun _ _ hxy hyx => absurd hxy (Nat.lt_asymm hyx)⟩
  have hirrefl : Std.Irrefl fun x y => key x < key y := ⟨fun _ => Nat.lt_irrefl _⟩
  have hsubset : ∀ {as bs : List α}, (∀ a ∈ as, ∃ b ∈ bs, f a = f b) → as.map f ⊆ bs.map f := by
    intro as bs hab x hx
    obtain ⟨a, ha, rfl⟩ := List.mem_map.1 hx
    obtain ⟨b, hb, heq⟩ := hab a ha
    exact heq ▸ List.mem_map_of_mem hb
  exact List.Subset.antisymm_of_pairwise (r := fun x y => key x < key y) (List.pairwise_map.2 has)
    (List.pairwise_map.2 hbs) (hsubset hab) (hsubset hba)

/-- Searching corresponding lists for corresponding things. -/
theorem find?_of_map_eq {f : α → β} {p p' : α → Bool} (hp : ∀ a a', f a = f a' → p a = p' a')
    {as bs : List α} (h : as.map f = bs.map f) : (as.find? p).map f = (bs.find? p').map f := by
  induction as generalizing bs with
  | nil =>
      obtain rfl := List.map_eq_nil_iff.1 h.symm
      rfl
  | cons a as ih =>
      obtain ⟨b, bs, rfl, hb, hbs⟩ := List.map_eq_cons_iff.1 h.symm
      rw [List.find?_cons, List.find?_cons, hp a b hb.symm]
      split
      · exact congrArg some hb.symm
      · exact ih hbs.symm

end Lists

/-! ## Outlines of levels -/

section Outline

variable (w : String → String)

/-- The outline of a level. -/
def Level.outline (l : Level) : Level :=
  ⟨l.scope.outline w, l.span, l.parts.map (Part.outline w), l.inside.map (Query.outline w)⟩

/-- A marker in other words. -/
def Marker.outline (m : Marker) : Marker := ⟨m.start, w m.literal, w m.table⟩

theorem Query.outline_level (q : Query) : (q.outline w).level = q.level.outline w := by
  rw [Query.level, q.outline_nested, q.outline_parts, Query.outline_eq]
  rfl

theorem Statement.outline_levels (st : Statement) :
    (st.outline w).levels = st.levels.map (Level.outline w) := by
  rw [Statement.levels, Statement.levels, Statement.level, Statement.outline_scope,
    Statement.outline_span, Statement.outline_parts, Statement.outline_nested, List.map_map,
    List.map_cons, List.map_map]
  refine congrArg (List.cons _) (List.map_congr_left fun q _ => q.outline_level w)

theorem Statement.outline_references (st : Statement) :
    (st.outline w).references = st.references.map (Table.outline w) := by
  simp only [Statement.references, Statement.outline_parts, Statement.outline_nested,
    Part.tables_outline, Query.outline_parts, List.flatMap_map, List.map_append, List.map_flatMap]

theorem Statement.outline_attached (st : Statement) :
    (st.outline w).attached = st.attached.map (Query.outline w) := by
  have hquery : ∀ q : Query, (q.outline w).block.scope.subqueries =
      q.block.scope.subqueries.map (Query.outline w) := by
    intro q
    rw [Query.block, Query.outline_eq]
    exact Query.outlines_eq_map _
  simp only [Statement.attached, Statement.blocks, Statement.outline_scope,
    Statement.outline_nested, List.flatMap_cons, List.flatMap_map, List.map_append,
    List.map_flatMap, hquery, Scope.outline, Query.outlines_eq_map]

/-- A query and its outline end alike. -/
theorem Query.outline_endsOpen (q : Query) (n : Nat) : (q.outline w).EndsOpen n ↔ q.EndsOpen n := by
  have hverbatims : ∀ parts : List Part,
      Part.verbatims (parts.map (Part.outline w)) = Part.verbatims parts := by
    intro parts
    rw [Part.verbatims, Part.verbatims, List.filterMap_map]
    exact List.filterMap_congr fun p _ => by cases p <;> rfl
  have hspan : (q.outline w).span = q.span := by rw [Query.outline_eq]
  rw [Query.EndsOpen, Query.EndsOpen, hspan, Query.outline_parts, hverbatims]

end Outline

/-! ## Names and tables -/

/-- `w` keeps apart what is not the same word. -/
def Faithful (w : String → String) : Prop := ∀ a b, w a = w b → Text.folded a = Text.folded b

section Names

variable {w : String → String}

theorem Text.sameWord_eq_of_folded {a a' b b' : String} (ha : folded a = folded a')
    (hb : folded b = folded b') : sameWord a b = sameWord a' b' := by
  rw [sameWord, String.ofList_injective ha, String.ofList_injective hb, sameWord]

/-- Corresponding tables answer to corresponding names. -/
theorem Table.answersTo_eq (hw : Faithful w) {tbl tbl' : Table}
    (h : tbl.outline w = tbl'.outline w) {name name' : String} (hname : w name = w name') :
    tbl.answersTo name = tbl'.answersTo name' := by
  obtain ⟨table, -, alternative, -⟩ := Table.mk.inj h
  have hfolded := hw _ _ hname
  rw [Table.answersTo, Table.answersTo, Text.sameWord_eq_of_folded (hw _ _ table) hfolded]
  congr 1
  revert alternative
  cases tbl.aliasName <;> cases tbl'.aliasName <;> intro halias
  · rfl
  · cases halias
  · cases halias
  · exact Text.sameWord_eq_of_folded (hw _ _ (Option.some.inj halias)) hfolded

theorem Table.span_eq {tbl tbl' : Table} (h : tbl.outline w = tbl'.outline w) :
    tbl.span = tbl'.span := (Table.mk.inj h).2.2.2

theorem Table.name_eq {tbl tbl' : Table} (h : tbl.outline w = tbl'.outline w) :
    w tbl.name = w tbl'.name := (Table.mk.inj h).1

theorem Table.schema_isSome_eq {tbl tbl' : Table} (h : tbl.outline w = tbl'.outline w) :
    tbl.schema.isSome = tbl'.schema.isSome := by
  simpa using congrArg Option.isSome (Table.mk.inj h).2.1

theorem Token.Alike.refl (t : Token) : t.Alike w t where
  kind := rfl
  span := rfl
  text := rfl
  folded := rfl
  raised _ := rfl
  name := rfl
  integer := rfl
  real := rfl
  chars _ := rfl
  national := rfl

theorem Token.Alike.symm {t t' : Token} (h : t.Alike w t') : t'.Alike w t where
  kind := h.kind.symm
  span := h.span.symm
  text := h.text.symm
  folded := h.folded.symm
  raised verb := (h.raised verb).symm
  name := h.name.symm
  integer := h.integer.symm
  real := h.real.symm
  chars escapes := (h.chars escapes).symm
  national := h.national.symm

end Names

/-! ## Two statements side by side -/

/-- Two statements that were read side by side. -/
structure Counterparts (w : String → String) (env env' : Setting) (st st' : Statement)
    (passages : List Passage) : Prop where
  tokens : List.Forall₂ (Token.Alike w) (TokenStream.ofText env.dialect env.source).tokens
    (TokenStream.ofText env'.dialect env'.source).tokens
  outline : st.outline w = st'.outline w
  record : ∃ c log r, Record env st c log r ∧ r.passages = passages
  record' : ∃ c log r, Record env' st' c log r ∧ r.passages = passages

namespace Counterparts

variable {w : String → String} {env env' : Setting} {st st' : Statement} {passages : List Passage}

theorem symm (h : Counterparts w env env' st st' passages) :
    Counterparts w env' env st' st passages :=
  ⟨h.tokens.flip.imp fun _ _ ht => ht.symm, h.outline.symm, h.record', h.record⟩

theorem levels_eq (h : Counterparts w env env' st st' passages) :
    st.levels.map (Level.outline w) = st'.levels.map (Level.outline w) := by
  rw [← Statement.outline_levels, h.outline, Statement.outline_levels]

theorem references_eq (h : Counterparts w env env' st st' passages) :
    st.references.map (Table.outline w) = st'.references.map (Table.outline w) := by
  rw [← Statement.outline_references, h.outline, Statement.outline_references]

/-- A token has a counterpart at the same index. -/
theorem exists_token (h : Counterparts w env env' st st' passages) {i : Nat} {t : Token}
    (ht : (TokenStream.ofText env.dialect env.source).tokens[i]? = some t) :
    ∃ t', (TokenStream.ofText env'.dialect env'.source).tokens[i]? = some t' ∧ t.Alike w t' := by
  have hat := forall₂_getElem? h.tokens i
  rw [ht] at hat
  generalize (TokenStream.ofText env'.dialect env'.source).tokens[i]? = x at hat
  cases hat with
  | some halike => exact ⟨_, rfl, halike⟩

theorem any_eq (h : Counterparts w env env' st st' passages) (i : Nat) {p : Token → Bool}
    (hp : ∀ t t' : Token, t.Alike w t' → p t = p t') :
    (TokenStream.ofText env.dialect env.source).tokens[i]?.any p =
      (TokenStream.ofText env'.dialect env'.source).tokens[i]?.any p := by
  have hat := forall₂_getElem? h.tokens i
  revert hat
  generalize (TokenStream.ofText env.dialect env.source).tokens[i]? = x
  generalize (TokenStream.ofText env'.dialect env'.source).tokens[i]? = x'
  rintro (halike | _)
  · exact hp _ _ halike
  · rfl

theorem span_eq (h : Counterparts w env env' st st' passages) (i : Nat) :
    (TokenStream.ofText env.dialect env.source).tokens[i]?.map Token.span =
      (TokenStream.ofText env'.dialect env'.source).tokens[i]?.map Token.span := by
  have hat := forall₂_getElem? h.tokens i
  revert hat
  generalize (TokenStream.ofText env.dialect env.source).tokens[i]? = x
  generalize (TokenStream.ofText env'.dialect env'.source).tokens[i]? = x'
  rintro (halike | _)
  · exact congrArg some halike.span
  · rfl

/-- A name in front of a `.` has a counterpart of this kind. -/
theorem exists_dotted (h : Counterparts w env env' st st' passages) {i : Nat} {t : Token}
    {name : String}
    (hdotted : DottedName (TokenStream.ofText env.dialect env.source).tokens i t name) :
    ∃ t' name', DottedName (TokenStream.ofText env'.dialect env'.source).tokens i t' name' ∧
      t.Alike w t' ∧ w name = w name' := by
  obtain ⟨t', ht', halike⟩ := h.exists_token hdotted.token
  have hname := halike.name
  rw [hdotted.decoded] at hname
  obtain ⟨name', hdecoded, heq⟩ := Option.map_eq_some_iff.1 hname.symm
  refine ⟨t', name', ⟨ht', ?_, ?_, hdecoded⟩, halike, heq.symm⟩
  · rw [← halike.isName]
    exact hdotted.isName
  · rw [← h.any_eq (i + 1) fun _ _ hd => hd.isSymbol .dot]
    exact hdotted.dot

/-- The two statements note the same names. -/
theorem heeds (h : Counterparts w env env' st st' passages) {i : Nat} {t t' : Token}
    (halike : t.Alike w t')
    (hheeds : st.Heeds (TokenStream.ofText env.dialect env.source).tokens passages i t) :
    st'.Heeds (TokenStream.ofText env'.dialect env'.source).tokens passages i t' := by
  refine ⟨fun tbl' htbl' hschema => ?_, fun tbl' htbl' => ?_, ?_, fun q' hq' => ?_⟩
  · obtain ⟨tbl, htbl, heq⟩ := exists_of_map_eq h.references_eq.symm htbl'
    rw [← h.span_eq, Table.span_eq heq]
    exact hheeds.noSchema tbl htbl (by rw [← Table.schema_isSome_eq heq, hschema])
  · obtain ⟨tbl, htbl, heq⟩ := exists_of_map_eq h.references_eq.symm htbl'
    rw [← halike.span, Table.span_eq heq]
    exact hheeds.noReference tbl htbl
  · rw [← halike.span]
    exact hheeds.noPassage
  · have hattached : st'.attached.map (Query.outline w) = st.attached.map (Query.outline w) := by
      rw [← Statement.outline_attached, ← h.outline, Statement.outline_attached]
    obtain ⟨q, hq, heq⟩ := exists_of_map_eq hattached hq'
    rw [← Query.outline_endsOpen w q', heq, Query.outline_endsOpen, ← halike.span]
    exact hheeds.noEnd q hq

end Counterparts

/-! ## Corresponding levels -/

/-- Every table that is sharded in `env` has counterparts only that are sharded in
`env'`. -/
def Setting.Keeps (w : String → String) (env env' : Setting) : Prop :=
  ∀ tbl tbl' : Table, tbl.outline w = tbl'.outline w →
    Reader.isSharded env tbl = true → Reader.isSharded env' tbl' = true

namespace Level

variable {w : String → String} {env env' : Setting} {l l' : Level} {s s' r r' : Reading}
  {own own' : List Entry}

theorem references_eq (hl : l.outline w = l'.outline w) :
    l.references.map (Table.outline w) = l'.references.map (Table.outline w) := by
  rw [references, references, ← Part.tables_outline, ← Part.tables_outline]
  exact congrArg Part.tables (Level.mk.inj hl).2.2.1

theorem span_eq (hl : l.outline w = l'.outline w) : l.span = l'.span := (Level.mk.inj hl).2.1

theorem inside_eq (hl : l.outline w = l'.outline w) :
    l.inside.map (Query.outline w) = l'.inside.map (Query.outline w) := (Level.mk.inj hl).2.2.2

/-- A declared table has a declared counterpart. -/
theorem exists_table (hread : l.Read env s own r) (hread' : l'.Read env' s' own' r')
    (hkeeps : env.Keeps w env') (hl : l.outline w = l'.outline w) {tbl : Table}
    (htbl : tbl ∈ l.scope.tables) : ∃ tbl' ∈ l'.scope.tables, tbl.outline w = tbl'.outline w := by
  obtain ⟨hmem, hsharded⟩ := hread.mem_tables_iff.1 htbl
  obtain ⟨tbl', htbl', heq⟩ := exists_of_map_eq (references_eq hl) hmem
  exact ⟨tbl', hread'.mem_tables_iff.2 ⟨htbl', hkeeps _ _ heq hsharded⟩, heq⟩

/-- Corresponding levels declare corresponding tables. -/
theorem tables_eq (hread : l.Read env s own r) (hread' : l'.Read env' s' own' r')
    (hkeeps : env.Keeps w env') (hkeeps' : env'.Keeps w env) (hl : l.outline w = l'.outline w) :
    l.scope.tables.map (Table.outline w) = l'.scope.tables.map (Table.outline w) :=
  map_eq_of_ascending (fun tbl => tbl.span.start) hread.tables_ascending hread'.tables_ascending
    (fun _ htbl => exists_table hread hread' hkeeps hl htbl)
    (fun _ htbl => exists_table hread' hread hkeeps' hl.symm htbl)

/-- A level answers to a name as its counterpart does. -/
theorem exists_answers (hw : Faithful w) (hread : l.Read env s own r)
    (hread' : l'.Read env' s' own' r') (hkeeps : env.Keeps w env') (hkeeps' : env'.Keeps w env)
    (hl : l.outline w = l'.outline w) {t t' : Token} (hspan : t.span = t'.span)
    {name name' : String} (hname : w name = w name') {tbl : Table}
    (hanswers : l.Answers t name tbl) :
    ∃ tbl', l'.Answers t' name' tbl' ∧ tbl.outline w = tbl'.outline w := by
  have hfind := find?_of_map_eq (fun _ _ heq => Table.answersTo_eq hw heq hname)
    (tables_eq hread hread' hkeeps hkeeps' hl)
  have hfound := hanswers.found
  rw [Scope.find?] at hfound
  rw [hfound] at hfind
  obtain ⟨tbl', hfound', heq⟩ := Option.map_eq_some_iff.1 hfind.symm
  refine ⟨tbl', ⟨?_, hfound', fun q' hq' hin other' hother' => ?_⟩, heq.symm⟩
  · rw [← hspan, ← span_eq hl]
    exact hanswers.within
  · obtain ⟨q, hq, hq_eq⟩ := exists_of_map_eq (inside_eq hl).symm hq'
    have hlevel : q'.level.outline w = q.level.outline w := by
      rw [← Query.outline_level, hq_eq, Query.outline_level]
    obtain ⟨_, _, _, -, hinner⟩ := hread.inside_read hq
    obtain ⟨_, _, _, -, hinner'⟩ := hread'.inside_read hq'
    obtain ⟨other, hother, hsame⟩ := exists_table hinner' hinner hkeeps' hlevel hother'
    rw [Table.answersTo_eq hw hsame hname.symm]
    have hsame_span : q'.span = q.span := span_eq hlevel
    refine hanswers.innermost q hq ?_ other hother
    rwa [hspan, ← hsame_span]

end Level

namespace Counterparts

variable {w : String → String} {env env' : Setting} {st st' : Statement} {passages : List Passage}

/-! ## Markers -/

/-- Whatever is marked in the first statement is marked in the second. -/
theorem exists_start (h : Counterparts w env env' st st' passages) (hw : Faithful w)
    (hkeeps : env.Keeps w env') {l : Level} (hl : l ∈ st.levels) {m : Marker}
    (hm : m ∈ l.scope.markers) :
    ∃ l' ∈ st'.levels, ∃ m' ∈ l'.scope.markers, m'.start = m.start := by
  obtain ⟨c, log, r, hrec, rfl⟩ := h.record
  obtain ⟨c', log', r', hrec', hpassages⟩ := h.record'
  obtain ⟨l', hl', heq⟩ := exists_of_map_eq h.levels_eq hl
  obtain ⟨s, own, r₁, hown, hread⟩ := hrec.exists_read l hl
  obtain ⟨s', own', r₁', hown', hread'⟩ := hrec'.exists_read l' hl'
  rcases hrec.marker_cases hl hm with ⟨tbl, htbl, hsharded, hstart, -⟩ | ⟨i, t, name, tbl, htakes⟩
  · obtain ⟨tbl', htbl', hsame⟩ := exists_of_map_eq (Level.references_eq heq) htbl
    obtain ⟨m', hm', hstart', -⟩ :=
      (hread'.named_iff hrec' hown' htbl').2 (hkeeps _ _ hsame hsharded)
    exact ⟨l', hl', m', hm', by rw [hstart', hstart, Table.span_eq hsame]⟩
  · obtain ⟨t', name', hdotted, halike, hname⟩ := h.exists_dotted htakes.dotted
    have hheeds := h.heeds halike htakes.heeded
    obtain ⟨other, hother, hanswers⟩ := htakes.answers.exists_table
    obtain ⟨other', hother', hsame⟩ := Level.exists_table hread hread' hkeeps heq hother
    rw [Table.answersTo_eq hw hsame hname] at hanswers
    have hin : t'.span.Within l'.span := by
      rw [← halike.span, ← Level.span_eq heq]
      exact htakes.answers.within
    rw [← hpassages] at hheeds
    obtain ⟨l'', hl'', m', hm', hstart⟩ :=
      hrec'.marker_of_heeded hdotted hheeds hl' hin hother' hanswers
    exact ⟨l'', hl'', m', hm', by rw [hstart, htakes.start, halike.span]⟩

/-- A marker has a counterpart in the corresponding level. -/
theorem exists_marker (h : Counterparts w env env' st st' passages) (hw : Faithful w)
    (hkeeps : env.Keeps w env') (hkeeps' : env'.Keeps w env) {l l' : Level} (hl : l ∈ st.levels)
    (hl' : l' ∈ st'.levels) (heq : l.outline w = l'.outline w) {m : Marker}
    (hm : m ∈ l.scope.markers) :
    ∃ m' ∈ l'.scope.markers, m.outline w = m'.outline w := by
  obtain ⟨c, log, r, hrec, rfl⟩ := h.record
  obtain ⟨c', log', r', hrec', hpassages⟩ := h.record'
  obtain ⟨s, own, r₁, hown, hread⟩ := hrec.exists_read l hl
  obtain ⟨s', own', r₁', hown', hread'⟩ := hrec'.exists_read l' hl'
  obtain ⟨m', hm', hstart, htable⟩ : ∃ m' ∈ l'.scope.markers,
      m.start = m'.start ∧ w m.table = w m'.table := by
    rcases hrec.marker_cases hl hm with
      ⟨tbl, htbl, hsharded, hstart, hname⟩ | ⟨i, t, name, tbl, htakes⟩
    · obtain ⟨tbl', htbl', hsame⟩ := exists_of_map_eq (Level.references_eq heq) htbl
      obtain ⟨m', hm', hstart', hname'⟩ :=
        (hread'.named_iff hrec' hown' htbl').2 (hkeeps _ _ hsame hsharded)
      refine ⟨m', hm', ?_, ?_⟩
      · rw [hstart', hstart, Table.span_eq hsame]
      · rw [hname', hname, Table.name_eq hsame]
    · obtain ⟨t', name', hdotted, halike, hname⟩ := h.exists_dotted htakes.dotted
      have hheeds := h.heeds halike htakes.heeded
      obtain ⟨tbl', hanswers, hsame⟩ := Level.exists_answers hw hread hread' hkeeps hkeeps' heq
        halike.span hname htakes.answers
      rw [← hpassages] at hheeds
      obtain ⟨m', hm', hstart', htable'⟩ := hrec'.marker_of_answers hdotted hheeds hl' hanswers
      refine ⟨m', hm', ?_, ?_⟩
      · rw [hstart', htakes.start, halike.span]
      · rw [htable', htakes.table, Table.name_eq hsame]
  refine ⟨m', hm', ?_⟩
  -- The literals are the texts of the tokens at one place.
  obtain ⟨x, hx, hisName, hxstart, hxtext⟩ := hrec.exists_marked hl hm
  obtain ⟨y, hy, -, hystart, hytext⟩ := hrec'.exists_marked hl' hm'
  obtain ⟨i, hi⟩ := List.mem_iff_getElem?.1 (hrec.mem_tokens hx)
  obtain ⟨t', ht', halike⟩ := h.exists_token hi
  rw [halike.isName] at hisName
  obtain ⟨x', hx', rfl⟩ := hrec'.exists_entry (List.mem_of_getElem? ht') hisName
  obtain rfl := hrec'.entry_eq hx' hy (by rw [← halike.span, hxstart, hstart, hystart])
  rw [Marker.outline, Marker.outline, hstart, htable, ← hxtext, ← hytext, halike.text]

/-- Corresponding levels hold corresponding markers. -/
theorem markers_eq (h : Counterparts w env env' st st' passages) (hw : Faithful w)
    (hkeeps : env.Keeps w env') (hkeeps' : env'.Keeps w env) {l l' : Level} (hl : l ∈ st.levels)
    (hl' : l' ∈ st'.levels) (heq : l.outline w = l'.outline w) :
    l.scope.markers.map (Marker.outline w) = l'.scope.markers.map (Marker.outline w) := by
  obtain ⟨c, log, r, hrec, -⟩ := h.record
  obtain ⟨c', log', r', hrec', -⟩ := h.record'
  exact map_eq_of_ascending Marker.start (hrec.markers_ascending hl) (hrec'.markers_ascending hl')
    (fun _ hm => h.exists_marker hw hkeeps hkeeps' hl hl' heq hm)
    (fun _ hm => h.symm.exists_marker hw hkeeps' hkeeps hl' hl heq.symm hm)

end Counterparts

/-! ## Parsing side by side -/

/-- Parsing in twin settings whose tokens are alike gives counterparts, or failures
from faults that are alike. -/
theorem Setting.Twin.parse {w : String → String} {config config' : Config}
    {catalogue catalogue' : Catalogue} {source source' : String}
    (h : (config.setting catalogue source).Twin w (config'.setting catalogue' source'))
    (htokens : (TokenStream.ofText config.dialect source.toList).Alike w
      (TokenStream.ofText config'.dialect source'.toList)) :
    Verdicts
      (fun e e' => ∃ f f', e = Fault.toFailure source.toList f ∧
        e' = Fault.toFailure source'.toList f' ∧ f.outline w = f'.outline w)
      (fun p p' => ∃ passages, Counterparts w (config.setting catalogue source)
        (config'.setting catalogue' source') p.statement p'.statement passages)
      (parse config catalogue source) (parse config' catalogue' source') := by
  rcases (h.run htokens).exists_eq with
    ⟨x, x', hread, hread', hst, hpassages⟩ | ⟨f, f', hread, hread', hfault⟩
  · rw [parse_of_run hread, parse_of_run hread']
    obtain ⟨c, log, r, hrec, hr⟩ := Setting.exists_record hread
    obtain ⟨c', log', r', hrec', hr'⟩ := Setting.exists_record hread'
    refine .ok ⟨r.passages, htokens.tokens, hst, ⟨c, log, r, hrec, rfl⟩, c', log', r', hrec', ?_⟩
    rw [← hr, ← hr', hpassages]
  · rw [parse_of_error hread, parse_of_error hread']
    exact .error ⟨f, f', rfl, rfl, hfault⟩

end SqlMarkers
