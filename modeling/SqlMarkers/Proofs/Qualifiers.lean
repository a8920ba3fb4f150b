/-
SqlMarkers.Proofs.Qualifiers — which names in front of a `.` are marked.

A name in front of a `.` that a table in scope answers to has to be marked,
wherever it stands, unless it is the schema of a table reference or part of a
hint (`Qualifier`). The readers overlook some of them (`Statement.Overlooks`):

* the name behind the first `.` of an expression, as in `x.t.c`, and the unit of
  an `INTERVAL`, which are consumed without a look at what follows;
* the name of a table reference that is not sharded itself;
* a name that nobody looked behind, at the end of a query in parentheses.

`marked_iff_of_parse` says that these are all: a qualifier is marked if and only if it
is not overlooked. The proof goes through the fates that the token of a qualifier
can have in the log of the reading.
-/
import SqlMarkers.Proofs.Loose
import SqlMarkers.Proofs.Markers
import SqlMarkers.Proofs.Owners

namespace SqlMarkers

/-! ## Qualifiers -/

/-- The token `t` at index `i` is a name in front of a `.`, and a table that is
declared around it answers to it. It is neither the schema of a table
reference nor part of a hint. -/
structure Qualifier (tokens : List Token) (st : Statement) (passages : List Passage) (i : Nat)
    (t : Token) (name : String) : Prop where
  token : tokens[i]? = some t
  isName : t.isName = true
  dot : tokens[i + 1]?.any (fun d => d.isSymbol .dot) = true
  decoded : t.name? = some name
  declared : ∃ b ∈ st.blocks, t.span.Within b.span ∧
    ∃ tbl ∈ b.scope.tables, tbl.answersTo name = true
  noSchema : ∀ tbl ∈ st.references, tbl.schema.isSome = true →
    tokens[i + 2]?.map Token.span ≠ some tbl.span
  noHint : ∀ p ∈ passages, p.kind = .hint → ¬t.span.Within p.span

theorem qualifier_iff {tokens : List Token} {st : Statement} {passages : List Passage} {i : Nat}
    {t : Token} {name : String} : Qualifier tokens st passages i t name ↔
      tokens[i]? = some t ∧ t.isName = true ∧
        tokens[i + 1]?.any (fun d => d.isSymbol .dot) = true ∧ t.name? = some name ∧
        (∃ b ∈ st.blocks, t.span.Within b.span ∧
          ∃ tbl ∈ b.scope.tables, tbl.answersTo name = true) ∧
        (∀ tbl ∈ st.references, tbl.schema.isSome = true →
          tokens[i + 2]?.map Token.span ≠ some tbl.span) ∧
        ∀ p ∈ passages, p.kind = .hint → ¬t.span.Within p.span :=
  ⟨fun h => ⟨h.token, h.isName, h.dot, h.decoded, h.declared, h.noSchema, h.noHint⟩,
    fun ⟨h₁, h₂, h₃, h₄, h₅, h₆, h₇⟩ => ⟨h₁, h₂, h₃, h₄, h₅, h₆, h₇⟩⟩

instance (tokens : List Token) (st : Statement) (passages : List Passage) (i : Nat) (t : Token)
    (name : String) : Decidable (Qualifier tokens st passages i t name) :=
  decidable_of_iff _ qualifier_iff.symm

namespace Statement

/-- A scope of the statement holds a marker that starts at `t`. -/
def Marks (st : Statement) (t : Token) : Prop :=
  ∃ b ∈ st.blocks, ∃ m ∈ b.scope.markers, m.start = t.span.start

/-- The readers consume `t` without noting it. -/
def Overlooks (st : Statement) (env : Setting) (passages : List Passage) (t : Token) : Prop :=
  (∃ p ∈ passages, p.kind ≠ .hint ∧ t.span.Within p.span) ∨
    (∃ tbl ∈ st.references, tbl.span = t.span ∧ Reader.isSharded env tbl = false) ∨
    ((∃ q ∈ st.attached, q.EndsOpen t.span.stop) ∧ ∀ tbl ∈ st.references, tbl.span ≠ t.span)

instance (st : Statement) (t : Token) : Decidable (st.Marks t) :=
  inferInstanceAs (Decidable (∃ b ∈ st.blocks, ∃ m ∈ b.scope.markers, m.start = t.span.start))

instance (st : Statement) (env : Setting) (passages : List Passage) (t : Token) :
    Decidable (st.Overlooks env passages t) :=
  inferInstanceAs (Decidable (_ ∨ _ ∨ _))

theorem marks_iff {st : Statement} {t : Token} :
    st.Marks t ↔ ∃ m ∈ Block.markersOf st.blocks, m.start = t.span.start := by
  simp only [Marks, Block.markersOf, List.mem_flatMap]
  grind

end Statement

namespace Record

variable {env : Setting} {st : Statement} {c : Cursor} {log : List Entry} {r : Reading}

/-- A name is in the log. -/
theorem exists_entry (hrec : Record env st c log r) {t : Token}
    (ht : t ∈ (TokenStream.ofText env.dialect env.source).tokens) (hname : t.isName = true) :
    ∃ x ∈ log, x.token = t := by
  rw [hrec.tokens_eq] at ht
  rcases List.mem_append.1 ht with hmem | hmem
  · exact List.mem_map.1 hmem
  · -- What is left behind the log are no names.
    exfalso
    obtain ⟨last, hend, hrest | ⟨m, hm, hrest⟩⟩ := hrec.atEnd
    · rw [hrest, List.mem_singleton] at hmem
      rw [← hmem, Token.isEnd_of_isName hname] at hend
      cases hend
    · rw [hrest] at hmem
      rcases List.mem_cons.1 hmem with rfl | hmem
      · rw [Token.isName, Token.isSymbol_iff.1 hm] at hname
        cases hname
      · rw [← List.mem_singleton.1 hmem, Token.isEnd_of_isName hname] at hend
        cases hend

/-- The fate of a token at which a table reference stands. -/
theorem fate_of_reference (hrec : Record env st c log r) {x : Entry} (hx : x ∈ log) {tbl : Table}
    (htbl : tbl ∈ st.references) (hspan : tbl.span = x.token.span) : x.fate = .table tbl := by
  obtain ⟨token, htoken⟩ := hrec.mem_references_iff.1 htbl
  have heq := hrec.entry_eq hx htoken (by rw [← hspan, hrec.span_of_table htoken])
  rw [heq]

/-- Where the entry of a qualifier stands among the tokens. -/
theorem told_of_qualifier (hrec : Record env st c log r) {ps : List Passage} {i : Nat} {x : Entry}
    {name : String} (hx : x ∈ log)
    (hq : Qualifier (TokenStream.ofText env.dialect env.source).tokens st ps i x.token name) :
    ∃ c', c'.Orderly ∧ c'.current.isSymbol .dot = true ∧
      (TokenStream.ofText env.dialect env.source).tokens.drop (i + 1) = c'.rest ∧
      x.Told log c' := by
  obtain ⟨hlt, htoken⟩ := List.getElem?_eq_some_iff.1 hq.token
  have htokens : (TokenStream.ofText env.dialect env.source).tokens =
      (TokenStream.ofText env.dialect env.source).tokens.take i ++
        x.token :: (TokenStream.ofText env.dialect env.source).tokens.drop (i + 1) := by
    rw [← htoken, ← List.drop_eq_getElem_cons hlt, List.take_append_drop]
  obtain ⟨c', ho', hrest, htold⟩ := hrec.told hx htokens
  refine ⟨c', ho', ?_, hrest.symm, htold⟩
  have hdot := hq.dot
  rw [← Nat.add_zero (i + 1), ← List.getElem?_drop, ← hrest] at hdot
  exact hdot

/-- The name of a qualifier is no schema. -/
theorem not_schema_of_qualifier (hrec : Record env st c log r) {ps : List Passage} {i : Nat}
    {x : Entry} {name : String} (hx : x ∈ log)
    (hq : Qualifier (TokenStream.ofText env.dialect env.source).tokens st ps i x.token name) :
    x.fate ≠ .schema := by
  intro hfate
  obtain ⟨c', ho', hdot, hrest, htold⟩ := hrec.told_of_qualifier hx hq
  rw [Entry.Told, hfate] at htold
  obtain ⟨c₁, tbl, -, hnext, hmem, hschema⟩ := htold
  refine hq.noSchema tbl (hrec.mem_references_iff.2 ⟨_, hmem⟩) hschema ?_
  rw [show i + 2 = i + 1 + 1 from rfl, ← List.getElem?_drop, hrest,
    (Cursor.next_yields ho' (Token.isEnd_of_isSymbol hdot) hnext).1, hrec.span_of_table hmem]
  rfl

/-- A qualifier is marked if and only if it is not overlooked. -/
theorem marks_iff (hrec : Record env st c log r) {i : Nat} {t : Token} {name : String}
    (hq : Qualifier (TokenStream.ofText env.dialect env.source).tokens st r.passages i t name) :
    st.Marks t ↔ ¬st.Overlooks env r.passages t := by
  obtain ⟨x, hx, rfl⟩ := hrec.exists_entry (List.mem_of_getElem? hq.token) hq.isName
  obtain ⟨c', -, hdot, -, htold⟩ := hrec.told_of_qualifier hx hq
  have hpassed := hrec.passed_iff hx
  have href : ∀ tbl ∈ st.references, tbl.span = x.token.span → x.fate = .table tbl :=
    fun tbl htbl => hrec.fate_of_reference hx htbl
  have hmarked : st.Marks x.token → x.isMarked env = true := by
    rw [Statement.marks_iff]
    rintro ⟨m, hm, hstart⟩
    exact hrec.isMarked_of_marker hx hm hstart
  obtain ⟨token, fate⟩ := x
  cases fate with
  | plain =>
      rw [Entry.Told, hq.isName, hdot] at htold
      cases htold
  | counted => cases htold.symm.trans hq.isName
  | schema => exact absurd rfl (hrec.not_schema_of_qualifier hx hq)
  | owner name' =>
      obtain rfl : name' = name := Option.some.inj (htold.1.symm.trans hq.decoded)
      obtain ⟨b, hb, hwithin, tbl, htbl, hanswers⟩ := hq.declared
      refine iff_of_true ?_ ?_
      · exact Statement.marks_iff.2 (hrec.marker_of_owner hx hb hwithin htbl hanswers)
      · rintro (⟨p, hp, -, hin⟩ | ⟨tbl', htbl', hspan, -⟩ | ⟨⟨q, hq', hopen⟩, -⟩)
        · cases hpassed.2 ⟨p, hp, hin⟩
        · cases href tbl' htbl' hspan
        · exact hrec.not_endsOpen_of_owner hx rfl hq' hopen
  | loose =>
      refine iff_of_false (fun hmarks => ?_) (not_not_intro (.inr (.inr ⟨?_, ?_⟩)))
      · cases hmarked hmarks
      · exact hrec.endsOpen_of_loose hx rfl
      · intro tbl htbl hspan
        cases href tbl htbl hspan
  | table tbl =>
      have htbl : tbl ∈ st.references := hrec.mem_references_iff.2 ⟨token, hx⟩
      cases hsharded : Reader.isSharded env tbl with
      | true =>
          refine iff_of_true (Statement.marks_iff.2 (hrec.marker_of_table hx hsharded)) ?_
          rintro (⟨p, hp, -, hin⟩ | ⟨tbl', htbl', hspan, hplain⟩ | ⟨-, hnone⟩)
          · cases hpassed.2 ⟨p, hp, hin⟩
          · rw [← Fate.table.inj (href tbl' htbl' hspan), hsharded] at hplain
            cases hplain
          · exact hnone tbl htbl (hrec.span_of_table hx)
      | false =>
          refine iff_of_false (fun hmarks => ?_) (not_not_intro (.inr (.inl ⟨tbl, htbl, ?_, ?_⟩)))
          · exact absurd (hmarked hmarks) (Bool.eq_false_iff.1 hsharded)
          · exact hrec.span_of_table hx
          · exact hsharded
  | passed =>
      obtain ⟨p, hp, hin⟩ := hpassed.1 rfl
      refine iff_of_false (fun hmarks => ?_) (not_not_intro (.inl ⟨p, hp, ?_, hin⟩))
      · cases hmarked hmarks
      · exact fun hhint => hq.noHint p hp hhint hin

end Record

/-! ## Qualifiers of a parsed statement -/

/-- Of the qualifiers of a parsed statement, those are marked that the readers do
not overlook. -/
theorem marked_iff_of_parse {config : Config} {catalogue : Catalogue} {source : String}
    {p : Parsed} (h : parse config catalogue source = .ok p) :
    ∃ tokens r, tokenize config.dialect source = .ok tokens ∧
      (config.setting catalogue source).run = .ok (p.statement, r) ∧
      ∀ i t name, Qualifier tokens p.statement r.passages i t name →
        (p.statement.Marks t ↔
          ¬p.statement.Overlooks (config.setting catalogue source) r.passages t) := by
  obtain ⟨-, -, r, hrun⟩ := parse_ok h
  obtain ⟨c, log, r₁, hrec, hpassages⟩ := Setting.exists_record hrun
  refine ⟨(TokenStream.ofText config.dialect source.toList).tokens, r, ?_, hrun, ?_⟩
  · exact hrec.tokenize_eq
  · intro i t name hq
    rw [hpassages] at hq ⊢
    exact hrec.marks_iff hq

/-- A later link of a chain, in an argument of a call. -/
theorem marked_chain : ∃ (p : Parsed) (tokens : List Token) (r : Reading),
    parse {} Catalogue.everyName "SELECT f(a.b.t.c) FROM t" = .ok p ∧
      tokenize .standard "SELECT f(a.b.t.c) FROM t" = .ok tokens ∧
      (Config.setting {} Catalogue.everyName "SELECT f(a.b.t.c) FROM t").run =
        .ok (p.statement, r) ∧
      Qualifier tokens p.statement r.passages 7 ⟨.identifier, "t", ⟨13, 14⟩⟩ "t" ∧
      p.statement.Marks ⟨.identifier, "t", ⟨13, 14⟩⟩ := by
  obtain ⟨⟨st, r⟩, hrun, hcheck, hseen⟩ : ∃ result,
      (Config.setting {} Catalogue.everyName "SELECT f(a.b.t.c) FROM t").run = .ok result ∧
        (tokenize .standard "SELECT f(a.b.t.c) FROM t").toOption.any (fun tokens =>
          decide (Qualifier tokens result.1 result.2.passages 7
            ⟨.identifier, "t", ⟨13, 14⟩⟩ "t")) = true ∧
        ¬result.1.Overlooks (Config.setting {} Catalogue.everyName "SELECT f(a.b.t.c) FROM t")
          result.2.passages ⟨.identifier, "t", ⟨13, 14⟩⟩ :=
    exists_of_any (by decide +kernel)
  obtain ⟨tokens, htokens, hq⟩ := exists_of_any hcheck
  have hparse := parse_of_run hrun
  obtain ⟨tokens', r', htokens', hrun', hall⟩ := marked_iff_of_parse hparse
  obtain rfl := Except.ok.inj (htokens.symm.trans htokens')
  obtain ⟨-, rfl⟩ := Prod.mk.inj (Except.ok.inj (hrun.symm.trans hrun'))
  exact ⟨_, tokens, r, hparse, htokens, hrun, hq, (hall _ _ _ hq).2 hseen⟩

/-- The second link of a chain is a qualifier that is not marked. -/
theorem unmarked_member : ∃ (p : Parsed) (tokens : List Token) (r : Reading),
    parse {} Catalogue.everyName "SELECT x.t.c FROM t" = .ok p ∧
      tokenize .standard "SELECT x.t.c FROM t" = .ok tokens ∧
      (Config.setting {} Catalogue.everyName "SELECT x.t.c FROM t").run = .ok (p.statement, r) ∧
      Qualifier tokens p.statement r.passages 3 ⟨.identifier, "t", ⟨9, 10⟩⟩ "t" ∧
      ¬p.statement.Marks ⟨.identifier, "t", ⟨9, 10⟩⟩ := by
  obtain ⟨⟨st, r⟩, hrun, hcheck, hunmarked⟩ : ∃ result,
      (Config.setting {} Catalogue.everyName "SELECT x.t.c FROM t").run = .ok result ∧
        (tokenize .standard "SELECT x.t.c FROM t").toOption.any (fun tokens =>
          decide (Qualifier tokens result.1 result.2.passages 3
            ⟨.identifier, "t", ⟨9, 10⟩⟩ "t")) = true ∧
        ¬result.1.Marks ⟨.identifier, "t", ⟨9, 10⟩⟩ :=
    exists_of_any (by decide +kernel)
  obtain ⟨tokens, htokens, hq⟩ := exists_of_any hcheck
  exact ⟨_, tokens, r, parse_of_run hrun, htokens, hrun, hq, hunmarked⟩

end SqlMarkers
