/-
SqlMarkers.Proofs.Noted — the markers of a level, read off the tree.

A name in front of a `.` is noted as an owner unless it is the schema or the name of
a table reference, lies in a passage, or is the last token of a query that was
attached (`Statement.Heeds`). Nothing in this condition depends on the catalogue.

An owner goes to the innermost level around it that has a table answering to it
(`Level.Answers`). There is at most one such level (`Record.answers_unique`), and it
holds a marker for the owner (`Record.marker_of_answers`). Together with the names
of sharded tables these are all markers (`Record.marker_cases`).
-/
import SqlMarkers.Proofs.Shadowing

namespace SqlMarkers

/-! ## Owners -/

/-- The name `t` at index `i`, in front of a `.`, is noted as an owner. -/
structure Statement.Heeds (st : Statement) (tokens : List Token) (passages : List Passage) (i : Nat)
    (t : Token) : Prop where
  noSchema : ∀ tbl ∈ st.references, tbl.schema.isSome = true →
    tokens[i + 2]?.map Token.span ≠ some tbl.span
  noReference : ∀ tbl ∈ st.references, tbl.span ≠ t.span
  noPassage : ∀ p ∈ passages, ¬t.span.Within p.span
  noEnd : ∀ q ∈ st.attached, ¬q.EndsOpen t.span.stop

/-- `tbl` is the first table of the level that answers to `name`, and no query inside
the level that `t` stands in has one. -/
structure Level.Answers (l : Level) (t : Token) (name : String) (tbl : Table) : Prop where
  within : t.span.Within l.span
  found : l.scope.find? name = some tbl
  innermost : ∀ q ∈ l.inside, t.span.Within q.span →
    ∀ other ∈ q.scope.tables, other.answersTo name = false

/-- `m` marks a name in front of a `.` that is noted and that the level answers to with
one of its tables. -/
structure Level.Takes (l : Level) (st : Statement) (tokens : List Token) (passages : List Passage)
    (m : Marker) (i : Nat) (t : Token) (name : String) (tbl : Table) : Prop where
  dotted : DottedName tokens i t name
  heeded : st.Heeds tokens passages i t
  answers : l.Answers t name tbl
  start : m.start = t.span.start
  table : m.table = tbl.name

theorem Level.Answers.exists_table {l : Level} {t : Token} {name : String} {tbl : Table}
    (h : l.Answers t name tbl) : ∃ other ∈ l.scope.tables, other.answersTo name = true := by
  have hfound := h.found
  rw [Scope.find?] at hfound
  exact ⟨tbl, List.mem_of_find?_eq_some hfound, by simpa using List.find?_some hfound⟩

/-- A query inside a level was read on a stretch of the level's log. -/
theorem Level.Read.inside_read {env : Setting} {l : Level} {s r : Reading} {own : List Entry}
    (hl : l.Read env s own r) {q : Query} (hq : q ∈ l.inside) :
    ∃ s' own' r', own' ⊆ own ∧ q.level.Read env s' own' r' := by
  obtain ⟨e, t⟩ := hl.trail
  rw [hl.inside] at hq
  rcases t.readBetween q hq with hstart | ⟨front, own', behind, r₁, r₂, rfl, hfront, hown, -⟩
  · rw [hl.queries_start] at hstart
    cases hstart
  · obtain ⟨c, log, e', hc, rfl, t', -⟩ := hown.trail
    have hone := Steps.single (Token.isEnd_of_isKeyword hown.select) hc
    have ho := hfront.orderly hl.orderly
    refine ⟨r₁.enter.moved c, log, r₂, fun x hx => by simp [hx], ⟨e', t'⟩, hone.orderly ho, rfl,
      hown.scope, ?_, ?_, congrArg Span.stop hown.span⟩
    · change q.nested = _
      rw [q.nested_eq, hown.scope]
      rfl
    · change q.span.start ≤ _
      rw [hown.span]
      exact hone.current_le ho

/-- The tables of a level are the sharded ones among those it names. -/
theorem Level.Read.mem_tables_iff {env : Setting} {l : Level} {s r : Reading} {own : List Entry}
    (hl : l.Read env s own r) {tbl : Table} :
    tbl ∈ l.scope.tables ↔ tbl ∈ l.references ∧ Reader.isSharded env tbl = true := by
  rw [hl.scope]
  exact hl.declares.mem_iff tbl

theorem Level.Read.tables_ascending {env : Setting} {l : Level} {s r : Reading} {own : List Entry}
    (hl : l.Read env s own r) : l.scope.tables.Pairwise fun a b => a.span.start < b.span.start := by
  rw [hl.scope]
  exact hl.declares.ascending

namespace Record

variable {env : Setting} {st : Statement} {c : Cursor} {log : List Entry} {r : Reading} {i : Nat}
  {t : Token} {name : String}

/-- What follows a name in front of a `.`. -/
theorem told_of_dotted (hrec : Record env st c log r) {x : Entry} (hx : x ∈ log)
    (hdotted : DottedName (TokenStream.ofText env.dialect env.source).tokens i x.token name) :
    ∃ c', c'.Orderly ∧ c'.current.isSymbol .dot = true ∧
      (TokenStream.ofText env.dialect env.source).tokens.drop (i + 1) = c'.rest ∧
      x.Told log c' := by
  obtain ⟨hlt, htoken⟩ := List.getElem?_eq_some_iff.1 hdotted.token
  have htokens : (TokenStream.ofText env.dialect env.source).tokens =
      (TokenStream.ofText env.dialect env.source).tokens.take i ++
        x.token :: (TokenStream.ofText env.dialect env.source).tokens.drop (i + 1) := by
    rw [← htoken, ← List.drop_eq_getElem_cons hlt, List.take_append_drop]
  obtain ⟨c', ho', hrest, htold⟩ := hrec.told hx htokens
  refine ⟨c', ho', ?_, hrest.symm, htold⟩
  have hdot := hdotted.dot
  rw [← Nat.add_zero (i + 1), ← List.getElem?_drop, ← hrest] at hdot
  exact hdot

/-- A name in front of a `.` is an owner exactly if it is noted. -/
theorem owner_iff_heeds (hrec : Record env st c log r) {x : Entry} (hx : x ∈ log)
    (hdotted : DottedName (TokenStream.ofText env.dialect env.source).tokens i x.token name) :
    x.fate = .owner name ↔
      st.Heeds (TokenStream.ofText env.dialect env.source).tokens r.passages i x.token := by
  constructor
  · intro hfate
    refine ⟨fun tbl htbl hschema hname => ?_, fun tbl htbl hspan => ?_, fun p hp hin => ?_,
      fun q hq => hrec.not_endsOpen_of_owner hx hfate hq⟩
    · cases hfate.symm.trans (hrec.fate_of_schema hx hdotted.token htbl hschema hname)
    · cases hfate.symm.trans (hrec.fate_of_reference hx htbl hspan)
    · cases hfate.symm.trans ((hrec.passed_iff hx).2 ⟨p, hp, hin⟩)
  · intro hheeds
    obtain ⟨c', ho', hdot, hrest, htold⟩ := hrec.told_of_dotted hx hdotted
    obtain ⟨token, fate⟩ := x
    cases fate with
    | plain =>
        rw [Entry.Told, hdotted.isName, hdot] at htold
        cases htold
    | counted => cases htold.symm.trans hdotted.isName
    | owner name' =>
        obtain rfl : name' = name := Option.some.inj (htold.1.symm.trans hdotted.decoded)
        rfl
    | loose =>
        obtain ⟨q, hq, hopen⟩ := hrec.endsOpen_of_loose hx rfl
        exact absurd hopen (hheeds.noEnd q hq)
    | schema =>
        obtain ⟨c₁, tbl, -, hnext, hmem, hschema⟩ := htold
        refine absurd ?_ (hheeds.noSchema tbl (hrec.mem_references_iff.2 ⟨_, hmem⟩) hschema)
        rw [show i + 2 = i + 1 + 1 from rfl, ← List.getElem?_drop, hrest,
          (Cursor.next_yields ho' (Token.isEnd_of_isSymbol hdot) hnext).1, hrec.span_of_table hmem]
        rfl
    | table tbl =>
        have htbl := hrec.mem_references_iff.2 ⟨_, hx⟩
        exact absurd (hrec.span_of_table hx) (hheeds.noReference tbl htbl)
    | passed =>
        obtain ⟨p, hp, hin⟩ := (hrec.passed_iff hx).1 rfl
        exact absurd hin (hheeds.noPassage p hp)

/-! ## Levels that take an owner -/

/-- Of two levels around a token, one is the other or has its query inside. -/
theorem level_cases (hrec : Record env st c log r) (hwide : t.span.start < t.span.stop)
    {l l' : Level} (hl : l ∈ st.levels) (hl' : l' ∈ st.levels) (hin : t.span.Within l.span)
    (hin' : t.span.Within l'.span) :
    l = l' ∨ (∃ q ∈ l.inside, l' = q.level) ∨ ∃ q ∈ l'.inside, l = q.level := by
  rcases List.mem_cons.1 hl with rfl | hl <;> rcases List.mem_cons.1 hl' with rfl | hl'
  · exact .inl rfl
  · obtain ⟨q', hq', rfl⟩ := List.mem_map.1 hl'
    exact .inr (.inl ⟨q', hq', rfl⟩)
  · obtain ⟨q, hq, rfl⟩ := List.mem_map.1 hl
    exact .inr (.inr ⟨q, hq, rfl⟩)
  · obtain ⟨q, hq, rfl⟩ := List.mem_map.1 hl
    obtain ⟨q', hq', rfl⟩ := List.mem_map.1 hl'
    rcases hrec.apart_or_nested hq hq' with hapart | rfl | hnested | hnested
    · -- Two queries with a token in common do not lie apart.
      obtain ⟨hfrom, hto⟩ := hin
      obtain ⟨hfrom', hto'⟩ := hin'
      change q.span.start ≤ _ at hfrom
      change _ ≤ q.span.stop at hto
      change q'.span.start ≤ _ at hfrom'
      change _ ≤ q'.span.stop at hto'
      omega
    · exact .inl rfl
    · exact .inr (.inr ⟨q, hnested, rfl⟩)
    · exact .inr (.inl ⟨q', hnested, rfl⟩)

/-- At most one level answers to a name. -/
theorem answers_unique (hrec : Record env st c log r) (hwide : t.span.start < t.span.stop)
    {l l' : Level} (hl : l ∈ st.levels) (hl' : l' ∈ st.levels) {tbl tbl' : Table}
    (h : l.Answers t name tbl) (h' : l'.Answers t name tbl') : l = l' := by
  rcases hrec.level_cases hwide hl hl' h.within h'.within with heq | ⟨q, hq, rfl⟩ | ⟨q, hq, rfl⟩
  · exact heq
  · obtain ⟨other, hother, hanswers⟩ := h'.exists_table
    cases hanswers.symm.trans (h.innermost q hq h'.within other hother)
  · obtain ⟨other, hother, hanswers⟩ := h.exists_table
    cases hanswers.symm.trans (h'.innermost q hq h.within other hother)

/-- A marker of a level marks the name of a sharded table, or an owner. -/
theorem marker_cases (hrec : Record env st c log r) {l : Level} (hl : l ∈ st.levels) {m : Marker}
    (hm : m ∈ l.scope.markers) :
    (∃ tbl ∈ l.references, Reader.isSharded env tbl = true ∧ m.Names tbl) ∨
      ∃ i t name tbl, l.Takes st (TokenStream.ofText env.dialect env.source).tokens r.passages m i t
        name tbl := by
  obtain ⟨s, own, r', hown, hread⟩ := hrec.exists_read l hl
  rcases hread.mem_markers.1 hm with hm | ⟨o, ho, hresolve⟩
  · obtain ⟨tbl, htbl, hnames⟩ := hread.declares.exists_table hm
    obtain ⟨hmem, hsharded⟩ := (hread.declares.mem_iff tbl).1 htbl
    exact .inl ⟨tbl, hmem, hsharded, hnames⟩
  · obtain ⟨tbl, hfind, hstart, htable⟩ := Draft.resolve?_eq_some hresolve
    obtain ⟨x, hx, hxstart, hfate⟩ := hread.custody.logged o ho
    obtain ⟨i, hdotted⟩ := hrec.dottedName_of_owner (hown hx) hfate
    refine .inr ⟨i, x.token, o.name, tbl, hdotted, (hrec.owner_iff_heeds (hown hx) hdotted).1 hfate,
      ⟨hread.within hx, ?_, fun q hq hin => ?_⟩, by rw [hstart, hxstart], htable⟩
    · rw [hread.scope]
      exact hfind
    · have hwide := hrec.steps.start_lt_stop hrec.orderly (List.mem_map_of_mem (hown hx))
      obtain ⟨hfrom, hto⟩ := hin
      rw [hread.inside] at hq
      exact hread.custody.unanswered o ho q hq (by omega) (by omega)

/-- A noted name is marked if a level around it has a table that answers to it. -/
theorem marker_of_heeded (hrec : Record env st c log r)
    (hdotted : DottedName (TokenStream.ofText env.dialect env.source).tokens i t name)
    (hheeds : st.Heeds (TokenStream.ofText env.dialect env.source).tokens r.passages i t)
    {l : Level} (hl : l ∈ st.levels) (hin : t.span.Within l.span) {tbl : Table}
    (htbl : tbl ∈ l.scope.tables) (hanswers : tbl.answersTo name = true) :
    ∃ l' ∈ st.levels, ∃ m ∈ l'.scope.markers, m.start = t.span.start := by
  obtain ⟨x, hx, rfl⟩ := hrec.exists_entry (List.mem_of_getElem? hdotted.token) hdotted.isName
  obtain ⟨token, fate⟩ := x
  obtain rfl : fate = .owner name := (hrec.owner_iff_heeds hx hdotted).2 hheeds
  have hb := Statement.mem_blocks_iff.2 ⟨l, hl, rfl⟩
  obtain ⟨m, hm, hstart⟩ := hrec.marker_of_owner hx hb hin htbl hanswers
  obtain ⟨b, hb, hm⟩ := List.mem_flatMap.1 hm
  obtain ⟨l', hl', rfl⟩ := Statement.mem_blocks_iff.1 hb
  exact ⟨l', hl', m, hm, hstart⟩

/-- A level that answers to a noted name holds a marker for it. -/
theorem marker_of_answers (hrec : Record env st c log r)
    (hdotted : DottedName (TokenStream.ofText env.dialect env.source).tokens i t name)
    (hheeds : st.Heeds (TokenStream.ofText env.dialect env.source).tokens r.passages i t)
    {l : Level} (hl : l ∈ st.levels) {tbl : Table} (h : l.Answers t name tbl) :
    ∃ m ∈ l.scope.markers, m.start = t.span.start ∧ m.table = tbl.name := by
  obtain ⟨x, hx, rfl⟩ := hrec.exists_entry (List.mem_of_getElem? hdotted.token) hdotted.isName
  have hwide := hrec.steps.start_lt_stop hrec.orderly (List.mem_map_of_mem hx)
  obtain ⟨other, hother, hanswers⟩ := h.exists_table
  obtain ⟨l', hl', m, hm, hstart⟩ := hrec.marker_of_heeded hdotted hheeds hl h.within hother hanswers
  rcases hrec.marker_cases hl' hm with ⟨tbl', htbl', -, hnames, -⟩ | ⟨j, u, name', tbl', htakes⟩
  · -- A noted name is no table reference.
    exfalso
    obtain ⟨s, own, r', hown, hread⟩ := hrec.exists_read l' hl'
    obtain ⟨token, htoken⟩ := hread.exists_token htbl'
    have hspan := hrec.span_of_table (hown htoken)
    obtain rfl := hrec.entry_eq hx (hown htoken) (by rw [← hstart, hnames, hspan])
    exact hheeds.noReference tbl' (hrec.mem_references_iff.2 ⟨_, hx⟩) hspan
  · obtain ⟨y, hy, rfl⟩ :=
      hrec.exists_entry (List.mem_of_getElem? htakes.dotted.token) htakes.dotted.isName
    obtain rfl := hrec.entry_eq hx hy (by rw [← hstart, htakes.start])
    obtain rfl := Option.some.inj (htakes.dotted.decoded.symm.trans hdotted.decoded)
    obtain rfl := hrec.answers_unique hwide hl hl' h htakes.answers
    obtain rfl := Option.some.inj (h.found.symm.trans htakes.answers.found)
    exact ⟨m, hm, hstart, htakes.table⟩

/-- A marker stands at a name of the log and holds its text. -/
theorem exists_marked (hrec : Record env st c log r) {l : Level} (hl : l ∈ st.levels) {m : Marker}
    (hm : m ∈ l.scope.markers) :
    ∃ x ∈ log, x.token.isName = true ∧ x.token.span.start = m.start ∧
      x.token.text = m.literal := by
  have hplace : m.place ∈ Entry.marked env log := by
    refine hrec.perm_marked.mem_iff.1 (List.mem_append_left _ ?_)
    rw [Block.placesOf_eq]
    refine List.mem_map_of_mem (List.mem_flatMap.2 ⟨_, Statement.mem_blocks_iff.2 ⟨l, hl, rfl⟩, hm⟩)
  obtain ⟨x, hx, heq⟩ := List.mem_map.1 hplace
  obtain ⟨hxlog, hmarked⟩ := List.mem_filter.1 hx
  obtain ⟨hstart, htext⟩ := Prod.mk.inj heq
  refine ⟨x, hxlog, ?_, hstart, htext⟩
  obtain ⟨e, trail⟩ := hrec.trail
  have hfits := trail.fits x hxlog
  obtain ⟨token, fate⟩ := x
  cases fate with
  | owner name => exact hfits
  | table tbl => exact hfits.1
  | plain | counted | loose | schema | passed => cases hmarked

/-- The markers of a level ascend. -/
theorem markers_ascending (hrec : Record env st c log r) {l : Level} (hl : l ∈ st.levels) :
    l.scope.markers.Pairwise fun a b => a.start < b.start :=
  hrec.forall_block (P := fun scope => scope.markers.Pairwise fun a b => a.start < b.start)
    (fun _ => Marker.pairwise_normalize _) _ (Statement.mem_blocks_iff.2 ⟨l, hl, rfl⟩)

end Record

end SqlMarkers
