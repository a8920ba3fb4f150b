/-
SqlMarkers.Proofs.Shadowing — local sources do not hide tables further out.

A source of a `FROM` clause that is no sharded table, such as a derived table or a
table that the catalogue does not know, has a name all the same: its alias, or else
its own name. In SQL a name in front of a `.` that such a source goes by means that
source (`Query.Hides`), and it must not be taken for a table of a statement around.

The scopes here hold sharded tables only. The owner is left open by the query, like
one that nothing in the query answers to, and the next level out with a table that
answers to it takes it. `marks_iff_of_hidden` says exactly when that happens, and
`marked_hidden` is an instance of it.
-/
import SqlMarkers.Proofs.Qualifiers
import SqlMarkers.Proofs.Resolution

namespace SqlMarkers

/-! ## Sources and their names -/

mutual

/-- The tables and derived tables among table sources, joined ones and those in
parentheses included. -/
def TableSource.leavesIn : List TableSource → List TableFactor
  | [] => []
  | ⟨factor, joins⟩ :: ss => factor.leaves ++ Join.leavesIn joins ++ TableSource.leavesIn ss

/-- The tables and derived tables of a table factor. -/
def TableFactor.leaves : TableFactor → List TableFactor
  | .table t => [.table t]
  | .derived q aliasName span => [.derived q aliasName span]
  | .group ss => TableSource.leavesIn ss

/-- The tables and derived tables of joins. -/
def Join.leavesIn : List Join → List TableFactor
  | [] => []
  | ⟨_, _, factor, _, _⟩ :: js => factor.leaves ++ Join.leavesIn js

end

namespace TableFactor

/-- The name that a source goes by: its alias, or else the name of the table. -/
def visibleName? : TableFactor → Option String
  | .table t => some (t.aliasName.getD t.name)
  | .derived _ aliasName _ => aliasName
  | .group _ => none

/-- Whether a source is a derived table, or a table that is not sharded. -/
def isUnsharded (env : Setting) : TableFactor → Bool
  | .table t => !Reader.isSharded env t
  | .derived _ _ _ => true
  | .group _ => false

end TableFactor

/-- `q` is the innermost query that `t` stands in, a source of `q` that is not
sharded goes by `name`, and no sharded table of `q` answers to it. -/
structure Query.Hides (q : Query) (env : Setting) (t : Token) (name : String) : Prop where
  within : t.span.Within q.span
  innermost : ∀ q' ∈ q.nested, ¬t.span.Within q'.span
  source : ∃ f ∈ TableSource.leavesIn (q.sources.getD []), f.isUnsharded env = true ∧
    f.visibleName?.any (fun visible => Text.sameWord visible name) = true
  unanswered : ∀ tbl ∈ q.scope.tables, tbl.answersTo name = false

theorem Query.hides_iff {q : Query} {env : Setting} {t : Token} {name : String} :
    q.Hides env t name ↔ t.span.Within q.span ∧ (∀ q' ∈ q.nested, ¬t.span.Within q'.span) ∧
      (∃ f ∈ TableSource.leavesIn (q.sources.getD []), f.isUnsharded env = true ∧
        f.visibleName?.any (fun visible => Text.sameWord visible name) = true) ∧
      ∀ tbl ∈ q.scope.tables, tbl.answersTo name = false :=
  ⟨fun h => ⟨h.within, h.innermost, h.source, h.unanswered⟩,
    fun ⟨h₁, h₂, h₃, h₄⟩ => ⟨h₁, h₂, h₃, h₄⟩⟩

instance (q : Query) (env : Setting) (t : Token) (name : String) :
    Decidable (q.Hides env t name) :=
  decidable_of_iff _ Query.hides_iff.symm

namespace Statement

/-- The queries of a statement: itself, if it is one, and those inside it. -/
def queries (st : Statement) : List Query :=
  match st with
  | .select q => q :: st.nested
  | _ => st.nested

/-- The name `t` at index `i` is noted as an owner, or is the name of a sharded
table. -/
def Notes (st : Statement) (env : Setting) (tokens : List Token) (passages : List Passage)
    (i : Nat) (t : Token) : Prop :=
  (∀ tbl ∈ st.references, tbl.schema.isSome = true →
    tokens[i + 2]?.map Token.span ≠ some tbl.span) ∧
  (∀ p ∈ passages, p.kind = .hint → ¬t.span.Within p.span) ∧ ¬st.Overlooks env passages t

instance (st : Statement) (env : Setting) (tokens : List Token) (passages : List Passage)
    (i : Nat) (t : Token) : Decidable (st.Notes env tokens passages i t) :=
  inferInstanceAs (Decidable (_ ∧ _ ∧ _))

end Statement

/-! ## Marked names -/

namespace Record

variable {env : Setting} {st : Statement} {c : Cursor} {log : List Entry} {r : Reading} {i : Nat}
  {t : Token} {name : String}

/-- No two tokens have the same span. -/
theorem index_eq (hrec : Record env st c log r) {j : Nat} {u : Token}
    (ht : (TokenStream.ofText env.dialect env.source).tokens[i]? = some t)
    (hu : (TokenStream.ofText env.dialect env.source).tokens[j]? = some u)
    (hspan : t.span = u.span) (hwide : t.span.start < t.span.stop) : i = j := by
  have happart := hrec.orderly.apart
  rw [← (Cursor.orderly_ofText hrec.first).2.1, List.pairwise_iff_getElem] at happart
  obtain ⟨hi, rfl⟩ := List.getElem?_eq_some_iff.1 ht
  obtain ⟨hj, rfl⟩ := List.getElem?_eq_some_iff.1 hu
  rcases Nat.lt_trichotomy i j with hlt | heq | hlt
  · have := happart i j hi hj hlt
    rw [← hspan] at this
    omega
  · exact heq
  · have := happart j i hj hi hlt
    rw [← hspan] at this
    omega

/-- The token in front of the `.` of a table's name is its schema. -/
theorem fate_of_schema (hrec : Record env st c log r) {x : Entry} (hx : x ∈ log)
    (ht : (TokenStream.ofText env.dialect env.source).tokens[i]? = some x.token) {tbl : Table}
    (htbl : tbl ∈ st.references) (hschema : tbl.schema.isSome = true)
    (hname : (TokenStream.ofText env.dialect env.source).tokens[i + 2]?.map Token.span =
      some tbl.span) : x.fate = .schema := by
  obtain ⟨token, htoken⟩ := hrec.mem_references_iff.1 htbl
  obtain ⟨e, trail⟩ := hrec.trail
  obtain ⟨a, b, front, behind, hlog⟩ := trail.schema_before htoken hschema
  have ha : (⟨a, .schema⟩ : Entry) ∈ log := by simp [← hlog]
  -- The three tokens stand at the indices from `front.length` on.
  have htokens : (TokenStream.ofText env.dialect env.source).tokens =
      front.map Entry.token ++ a :: b :: token :: (behind.map Entry.token ++ r.cursor.rest) := by
    rw [hrec.tokens_eq, ← hlog]
    simp
  obtain ⟨u, hu, huspan⟩ := Option.map_eq_some_iff.1 hname
  have hwide := hrec.steps.start_lt_stop hrec.orderly (List.mem_map_of_mem htoken)
  have hspan := hrec.span_of_table htoken
  have hlast : (TokenStream.ofText env.dialect env.source).tokens[front.length + 2]? =
      some token := by
    simp [htokens]
  have hindex := hrec.index_eq hlast hu (by rw [huspan, hspan]) hwide
  obtain rfl : i = front.length := by omega
  have hxa : x.token = a := by
    rw [htokens] at ht
    simpa using ht.symm
  rw [hrec.entry_eq hx ha (by rw [hxa])]

/-- A name in front of a `.` that is marked is a qualifier. -/
theorem qualifier_of_marks (hrec : Record env st c log r)
    (hdotted : DottedName (TokenStream.ofText env.dialect env.source).tokens i t name)
    (hmarks : st.Marks t) :
    Qualifier (TokenStream.ofText env.dialect env.source).tokens st r.passages i t name := by
  obtain ⟨x, hx, rfl⟩ := hrec.exists_entry (List.mem_of_getElem? hdotted.token) hdotted.isName
  obtain ⟨b, hb, m, hm, hstart⟩ := hmarks
  have hmarked : x.isMarked env = true := by
    refine hrec.isMarked_of_marker hx (List.mem_flatMap.2 ⟨b, hb, hm⟩) hstart
  have hfate : x.fate ≠ .schema ∧ x.fate ≠ .passed := by
    constructor <;> intro hfate <;> rw [Entry.isMarked, hfate] at hmarked <;> cases hmarked
  refine ⟨hdotted.token, hdotted.isName, hdotted.dot, hdotted.decoded, ?_, ?_, ?_⟩
  · obtain ⟨l, hl, rfl⟩ := Statement.mem_blocks_iff.1 hb
    obtain ⟨s, own, r', hown, hread⟩ := hrec.exists_read l hl
    exact ⟨_, hb, hread.declared_of_marker hrec hown hx hdotted.decoded hm hstart⟩
  · intro tbl htbl hschema hname
    exact hfate.1 (hrec.fate_of_schema hx hdotted.token htbl hschema hname)
  · intro p hp _ hin
    exact hfate.2 ((hrec.passed_iff hx).2 ⟨p, hp, hin⟩)

/-- A name in front of a `.` is marked if a table around it answers to it and it is
noted. -/
theorem marks_iff_notes (hrec : Record env st c log r)
    (hdotted : DottedName (TokenStream.ofText env.dialect env.source).tokens i t name) :
    st.Marks t ↔
      (∃ l ∈ st.levels, t.span.Within l.span ∧
        ∃ tbl ∈ l.scope.tables, tbl.answersTo name = true) ∧
      st.Notes env (TokenStream.ofText env.dialect env.source).tokens r.passages i t := by
  constructor
  · intro hmarks
    have hq := hrec.qualifier_of_marks hdotted hmarks
    obtain ⟨b, hb, hwithin, hanswers⟩ := hq.declared
    obtain ⟨l, hl, rfl⟩ := Statement.mem_blocks_iff.1 hb
    exact ⟨⟨l, hl, hwithin, hanswers⟩, hq.noSchema, hq.noHint, (hrec.marks_iff hq).1 hmarks⟩
  · rintro ⟨⟨l, hl, hwithin, hanswers⟩, hschema, hhint, hseen⟩
    have hb := Statement.mem_blocks_iff.2 ⟨l, hl, rfl⟩
    refine (hrec.marks_iff ⟨hdotted.token, hdotted.isName, hdotted.dot, hdotted.decoded, ?_, hschema,
      hhint⟩).2 hseen
    exact ⟨_, hb, hwithin, hanswers⟩

/-! ## Hidden names -/

/-- A level that a token stands in is that of its innermost query, or lies around
it. -/
theorem level_of_innermost (hrec : Record env st c log r) {q : Query} (hq : q ∈ st.queries)
    (hwide : t.span.start < t.span.stop) (hwithin : t.span.Within q.span)
    (hinnermost : ∀ q' ∈ q.nested, ¬t.span.Within q'.span) {l : Level} (hl : l ∈ st.levels)
    (hin : t.span.Within l.span) : l = q.level ∨ q ∈ l.inside := by
  have hcases : (st = .select q) ∨ q ∈ st.nested := by
    unfold Statement.queries at hq
    split at hq
    · exact (List.mem_cons.1 hq).imp (fun heq => by rw [heq]) id
    · exact .inr hq
  rcases List.mem_cons.1 hl with rfl | hl
  · rcases hcases with rfl | hq
    · exact .inl rfl
    · exact .inr hq
  · obtain ⟨q', hq', rfl⟩ := List.mem_map.1 hl
    rcases hcases with rfl | hq
    · exact absurd hin (hinnermost q' hq')
    · rcases hrec.apart_or_nested hq hq' with hapart | rfl | hnested | hnested
      · -- Two queries with a token in common do not lie apart.
        obtain ⟨hfrom, hto⟩ := hwithin
        obtain ⟨hfrom', hto'⟩ := hin
        change q'.span.start ≤ _ at hfrom'
        change _ ≤ q'.span.stop at hto'
        omega
      · exact .inl rfl
      · exact .inr hnested
      · exact absurd hin (hinnermost q' hnested)

/-- A hidden name is marked if a level around its query has a table that answers to
it, and it is noted. -/
theorem marks_iff_of_hides (hrec : Record env st c log r)
    (hdotted : DottedName (TokenStream.ofText env.dialect env.source).tokens i t name) {q : Query}
    (hq : q ∈ st.queries) (hhides : q.Hides env t name) :
    st.Marks t ↔
      (∃ l ∈ st.levels, q ∈ l.inside ∧ ∃ tbl ∈ l.scope.tables, tbl.answersTo name = true) ∧
      st.Notes env (TokenStream.ofText env.dialect env.source).tokens r.passages i t := by
  obtain ⟨x, hx, rfl⟩ := hrec.exists_entry (List.mem_of_getElem? hdotted.token) hdotted.isName
  have hwide := hrec.steps.start_lt_stop hrec.orderly (List.mem_map_of_mem hx)
  rw [hrec.marks_iff_notes hdotted]
  refine and_congr_left fun _ => ⟨?_, ?_⟩
  · rintro ⟨l, hl, hin, tbl, htbl, hanswers⟩
    rcases hrec.level_of_innermost hq hwide hhides.within hhides.innermost hl hin with rfl | hinside
    · cases (hhides.unanswered tbl htbl).symm.trans hanswers
    · exact ⟨l, hl, hinside, tbl, htbl, hanswers⟩
  · rintro ⟨l, hl, hinside, hanswers⟩
    obtain ⟨s, own, r', -, hread⟩ := hrec.exists_read l hl
    obtain ⟨hfrom, hto⟩ := hread.inside_within hinside
    obtain ⟨hfrom', hto'⟩ := hhides.within
    exact ⟨l, hl, ⟨by omega, by omega⟩, hanswers⟩

end Record

/-! ## Hidden names of a parsed statement -/

/-- A name in front of a `.` that a local source goes by is marked exactly if a
statement around declares a table that answers to it, and the readers note it. -/
theorem marks_iff_of_hidden {config : Config} {catalogue : Catalogue} {source : String}
    {p : Parsed} (h : parse config catalogue source = .ok p) :
    ∃ tokens r, tokenize config.dialect source = .ok tokens ∧
      (config.setting catalogue source).run = .ok (p.statement, r) ∧
      ∀ i t name, DottedName tokens i t name → ∀ q ∈ p.statement.queries,
        q.Hides (config.setting catalogue source) t name →
          (p.statement.Marks t ↔
            (∃ l ∈ p.statement.levels, q ∈ l.inside ∧
              ∃ tbl ∈ l.scope.tables, tbl.answersTo name = true) ∧
            p.statement.Notes (config.setting catalogue source) tokens r.passages i t) := by
  obtain ⟨-, -, r, hrun⟩ := parse_ok h
  obtain ⟨c, log, r₁, hrec, hpassages⟩ := Setting.exists_record hrun
  refine ⟨_, r, hrec.tokenize_eq, hrun, fun i t name hdotted q hq hhides => ?_⟩
  rw [hpassages]
  exact hrec.marks_iff_of_hides hdotted hq hhides

/-- A derived table under the name of no table further out. -/
theorem unmarked_derived : ∃ (p : Parsed) (tokens : List Token) (r : Reading) (q : Query),
    parse {} (Catalogue.known (.ofList ["v"]))
        "SELECT v.a FROM v WHERE EXISTS (SELECT 1 FROM (SELECT 1) t WHERE t.x = 1)" = .ok p ∧
      tokenize .standard
        "SELECT v.a FROM v WHERE EXISTS (SELECT 1 FROM (SELECT 1) t WHERE t.x = 1)" = .ok tokens ∧
      (Config.setting {} (Catalogue.known (.ofList ["v"]))
        "SELECT v.a FROM v WHERE EXISTS (SELECT 1 FROM (SELECT 1) t WHERE t.x = 1)").run =
          .ok (p.statement, r) ∧
      DottedName tokens 18 ⟨.identifier, "t", ⟨65, 66⟩⟩ "t" ∧ q ∈ p.statement.queries ∧
      q.Hides (Config.setting {} (Catalogue.known (.ofList ["v"]))
        "SELECT v.a FROM v WHERE EXISTS (SELECT 1 FROM (SELECT 1) t WHERE t.x = 1)")
          ⟨.identifier, "t", ⟨65, 66⟩⟩ "t" ∧
      ¬p.statement.Marks ⟨.identifier, "t", ⟨65, 66⟩⟩ := by
  obtain ⟨⟨st, r⟩, hrun, hcheck, ⟨q, hq, hhides⟩, hnone⟩ : ∃ result,
      (Config.setting {} (Catalogue.known (.ofList ["v"]))
        "SELECT v.a FROM v WHERE EXISTS (SELECT 1 FROM (SELECT 1) t WHERE t.x = 1)").run =
          .ok result ∧
        (tokenize .standard
          "SELECT v.a FROM v WHERE EXISTS (SELECT 1 FROM (SELECT 1) t WHERE t.x = 1)").toOption.any
            (fun tokens =>
              decide (DottedName tokens 18 ⟨.identifier, "t", ⟨65, 66⟩⟩ "t")) = true ∧
        (∃ q ∈ result.1.queries, q.Hides (Config.setting {} (Catalogue.known (.ofList ["v"]))
          "SELECT v.a FROM v WHERE EXISTS (SELECT 1 FROM (SELECT 1) t WHERE t.x = 1)")
            ⟨.identifier, "t", ⟨65, 66⟩⟩ "t") ∧
        ∀ l ∈ result.1.levels, ∀ tbl ∈ l.scope.tables, tbl.answersTo "t" = false :=
    exists_of_any (by decide +kernel)
  obtain ⟨tokens, htokens, hdotted⟩ := exists_of_any hcheck
  have hparse := parse_of_run hrun
  obtain ⟨tokens', r', htokens', hrun', hall⟩ := marks_iff_of_hidden hparse
  obtain rfl := Except.ok.inj (htokens.symm.trans htokens')
  obtain ⟨-, rfl⟩ := Prod.mk.inj (Except.ok.inj (hrun.symm.trans hrun'))
  refine ⟨_, tokens, r, q, hparse, htokens, hrun, hdotted, hq, hhides, fun hmarks => ?_⟩
  obtain ⟨⟨l, hl, -, tbl, htbl, hanswers⟩, -⟩ := (hall _ _ _ hdotted q hq hhides).1 hmarks
  cases (hnone l hl tbl htbl).symm.trans hanswers

/-- `t` is an unknown table in the query around `t.x`, and `t.x` is marked as the
sharded table further out. -/
theorem marked_hidden : ∃ (p : Parsed) (tokens : List Token) (q : Query),
    parse {} (Catalogue.known (.ofList ["t"]))
        "SELECT * FROM t WHERE EXISTS (SELECT 1 FROM u t WHERE t.x = 1)" = .ok p ∧
      tokenize .standard
        "SELECT * FROM t WHERE EXISTS (SELECT 1 FROM u t WHERE t.x = 1)" = .ok tokens ∧
      DottedName tokens 13 ⟨.identifier, "t", ⟨54, 55⟩⟩ "t" ∧ q ∈ p.statement.queries ∧
      q.Hides (Config.setting {} (Catalogue.known (.ofList ["t"]))
        "SELECT * FROM t WHERE EXISTS (SELECT 1 FROM u t WHERE t.x = 1)")
          ⟨.identifier, "t", ⟨54, 55⟩⟩ "t" ∧
      p.statement.Marks ⟨.identifier, "t", ⟨54, 55⟩⟩ := by
  obtain ⟨p, hparse, hcheck, ⟨q, hq, hhides⟩, hmarks⟩ : ∃ p,
      parse {} (Catalogue.known (.ofList ["t"]))
        "SELECT * FROM t WHERE EXISTS (SELECT 1 FROM u t WHERE t.x = 1)" = .ok p ∧
        (tokenize .standard
          "SELECT * FROM t WHERE EXISTS (SELECT 1 FROM u t WHERE t.x = 1)").toOption.any
            (fun tokens =>
              decide (DottedName tokens 13 ⟨.identifier, "t", ⟨54, 55⟩⟩ "t")) = true ∧
        (∃ q ∈ p.statement.queries, q.Hides (Config.setting {} (Catalogue.known (.ofList ["t"]))
          "SELECT * FROM t WHERE EXISTS (SELECT 1 FROM u t WHERE t.x = 1)")
            ⟨.identifier, "t", ⟨54, 55⟩⟩ "t") ∧
        p.statement.Marks ⟨.identifier, "t", ⟨54, 55⟩⟩ :=
    exists_of_any (by decide +kernel)
  obtain ⟨tokens, htokens, hdotted⟩ := exists_of_any hcheck
  exact ⟨p, tokens, q, hparse, htokens, hdotted, hq, hhides, hmarks⟩

end SqlMarkers
