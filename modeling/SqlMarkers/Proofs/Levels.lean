/-
SqlMarkers.Proofs.Levels — the statement and the queries in it, one by one.

A statement and every query inside it have a scope of their own, parts of their
own, and queries inside them. `Statement.levels` puts them on one list, so that a
property of all scopes of a statement is stated and proved once.

Each level was read on a stretch of the log, from a reading whose scope was still
empty (`Record.exists_read`). What an induction over trails shows therefore holds
of every level.

Two queries of a statement lie apart from each other, or one is inside the other
(`Trail.apart_or_nested`).
-/
import SqlMarkers.Proofs.Owners

namespace SqlMarkers

/-! ## Levels -/

/-- A statement or query with what belongs to itself and what is nested in it. -/
structure Level where
  scope : Scope
  span : Span
  /-- What it keeps itself, without what the queries inside it keep. -/
  parts : List Part
  /-- The queries inside it, at any depth. -/
  inside : List Query

/-- A query as a level. -/
def Query.level (q : Query) : Level := ⟨q.scope, q.span, q.parts, q.nested⟩

/-- A statement as a level. -/
def Statement.level (st : Statement) : Level := ⟨st.scope, st.span, st.parts, st.nested⟩

/-- The levels of a statement: its own one and those of all queries in it. -/
def Statement.levels (st : Statement) : List Level := st.level :: st.nested.map Query.level

/-- The tables that a level names itself: those of its `FROM` clause, the table it
changes, or those it defines. -/
def Level.references (l : Level) : List Table := Part.tables l.parts

theorem Statement.mem_blocks_iff {st : Statement} {b : Block} :
    b ∈ st.blocks ↔ ∃ l ∈ st.levels, b = ⟨l.scope, l.span⟩ := by
  simp only [Statement.blocks, Statement.levels, List.mem_cons, List.mem_map, exists_eq_or_imp,
    exists_exists_and_eq_and]
  refine or_congr Iff.rfl ⟨?_, ?_⟩
  · rintro ⟨q, hq, rfl⟩
    exact ⟨q, hq, rfl⟩
  · rintro ⟨q, hq, rfl⟩
    exact ⟨q, hq, rfl⟩

theorem Statement.forall_mem_levels {st : Statement} {P : Level → Prop} :
    (∀ l ∈ st.levels, P l) ↔ P st.level ∧ ∀ q ∈ st.nested, P q.level := by
  rw [Statement.levels, List.forall_mem_cons, List.forall_mem_map]

/-! ## Their readings -/

/-- The level `l` was read from `s` to `r`, and `own` is the log of that reading. -/
structure Level.Read (env : Setting) (l : Level) (s : Reading) (own : List Entry) (r : Reading) :
    Prop where
  trail : ∃ e, Trail env s own l.parts e r
  orderly : s.cursor.Orderly
  fresh : s.draft = Draft.startingAt s.draft.parameters
  scope : l.scope = r.draft.finish
  inside : l.inside = r.queries l.parts
  start_le : l.span.start ≤ s.cursor.current.span.start
  stop : l.span.stop = r.cursor.lastEnd

namespace Level.Read

variable {env : Setting} {l : Level} {s r : Reading} {own : List Entry}

/-- No query was read before the level. -/
theorem queries_start (hl : l.Read env s own r) : s.queries [] = [] := by
  rw [Reading.queries, hl.fresh]
  rfl

theorem custody (hl : l.Read env s own r) : r.Custody l.parts own := by
  obtain ⟨e, t⟩ := hl.trail
  refine t.custody hl.orderly hl.queries_start ?_
  rw [hl.fresh]
  rfl

theorem within (hl : l.Read env s own r) {x : Entry} (hx : x ∈ own) :
    x.token.span.Within l.span := by
  obtain ⟨e, t⟩ := hl.trail
  have hstart := t.steps.start_le hl.orderly (List.mem_map_of_mem hx)
  have hstop := t.steps.stop_le hl.orderly (List.mem_map_of_mem hx)
  have hfrom := hl.start_le
  have hto := hl.stop
  constructor <;> omega

/-- The queries inside a level lie in its text. -/
theorem inside_within (hl : l.Read env s own r) {q : Query} (hq : q ∈ l.inside) :
    q.span.Within l.span := by
  obtain ⟨e, t⟩ := hl.trail
  rw [hl.inside] at hq
  have hwithin := t.query_within hl.orderly hl.queries_start hq
  have hfrom := hl.start_le
  have hto := hl.stop
  constructor <;> omega

end Level.Read

/-! ## Nesting -/

/-- Two queries lie apart from each other, or one is the other or inside it. -/
def Query.ApartOrNested (q q' : Query) : Prop :=
  (q.span.stop ≤ q'.span.start ∨ q'.span.stop ≤ q.span.start) ∨
    q = q' ∨ q ∈ q'.nested ∨ q' ∈ q.nested

theorem Query.ApartOrNested.symm {q q' : Query} (h : q.ApartOrNested q') : q'.ApartOrNested q := by
  rcases h with h | rfl | h | h
  · exact .inl h.symm
  · exact .inr (.inl rfl)
  · exact .inr (.inr (.inr h))
  · exact .inr (.inr (.inl h))

theorem Trail.apart_or_nested {env : Setting} {s r : Reading} {log : List Entry} {h : List Part}
    {e : Edge} (t : Trail env s log h e r) (ho : s.cursor.Orderly) (hs : s.queries [] = []) :
    ∀ q ∈ r.queries h, ∀ q' ∈ r.queries h, q.ApartOrNested q' := by
  induction t with
  | start s =>
      rw [hs]
      simp
  | pass _ _ _ _ ih | slip _ _ _ _ ih | dot _ _ _ _ ih | owner _ _ _ _ _ ih => exact ih ho hs
  | passage kind _ _ _ _ _ ih => exact ih ho hs
  | count _ _ _ ih =>
      rw [Reading.queries_append rfl]
      exact ih ho hs
  | @table s r r' log front log' h e e' c tbl token _ _ _ hdraft _ _ ih _ =>
      rw [Reading.queries_append rfl, Reading.queries_congr (r := r) (by simp [hdraft])]
      exact ih ho hs
  | @nested s r r' log log' h e e' c q t hselect hc t' _ hscope hspan ih ih' =>
      have hone := Steps.single (Token.isEnd_of_isKeyword hselect) hc
      have ho₁ := t.steps.orderly ho
      have ho₂ := hone.orderly ho₁
      have hbehind := ho₁.behind
      have hcurrent := hone.current_le ho₁
      have hnested : q.nested = r'.queries q.parts := by
        rw [q.nested_eq, hscope]
        rfl
      -- The queries read before lie in front of the new one and of those in it.
      have hfront : ∀ q₁ ∈ r.queries h, ∀ q₂, q₂ = q ∨ q₂ ∈ r'.queries q.parts →
          q₁.ApartOrNested q₂ := by
        intro q₁ hq₁ q₂ hq₂
        have hwithin := t.query_within ho hs hq₁
        refine .inl (.inl ?_)
        rcases hq₂ with rfl | hq₂
        · rw [hspan]
          dsimp only
          omega
        · have hwithin' := t'.query_within ho₂ rfl hq₂
          simp only [Reading.moved_cursor] at hwithin'
          omega
      have hnew : ∀ q₁, q₁ = q ∨ q₁ ∈ r'.queries q.parts → ∀ q₂, q₂ = q ∨ q₂ ∈ r'.queries q.parts →
          q₁.ApartOrNested q₂ := by
        rintro q₁ (rfl | hq₁) q₂ (rfl | hq₂)
        · exact .inr (.inl rfl)
        · exact .inr (.inr (.inr (hnested ▸ hq₂)))
        · exact .inr (.inr (.inl (hnested ▸ hq₁)))
        · exact ih' ho₂ rfl q₁ hq₁ q₂ hq₂
      intro q₁ hq₁ q₂ hq₂
      rcases (Reading.mem_queries_leave hscope).1 hq₁ with hq₁ | hq₁ <;>
        rcases (Reading.mem_queries_leave hscope).1 hq₂ with hq₂ | hq₂
      · exact ih ho hs q₁ hq₁ q₂ hq₂
      · exact hfront q₁ hq₁ q₂ hq₂
      · exact (hfront q₂ hq₂ q₁ hq₁).symm
      · exact hnew q₁ hq₁ q₂ hq₂
  | attach _ _ ih =>
      intro q hq q' hq'
      exact ih ho hs q (Reading.mem_queries_attaching.1 hq) q' (Reading.mem_queries_attaching.1 hq')
  | keep _ _ _ ih =>
      rw [Reading.queries_append rfl]
      exact ih ho hs
  | drop x _ _ ih =>
      rw [← Expr.queries_dropped _ _ x]
      exact ih ho hs
  | settle _ _ ih => exact ih ho hs
  | level _ _ ih => exact ih ho hs
  | perm _ hp ih =>
      intro q hq q' hq'
      exact ih ho hs q ((Reading.mem_queries_perm hp).1 hq) q' ((Reading.mem_queries_perm hp).1 hq')

namespace Record

variable {env : Setting} {st : Statement} {c : Cursor} {log : List Entry} {r : Reading}

/-- Every level of a statement was read on a stretch of its log. -/
theorem exists_read (hrec : Record env st c log r) :
    ∀ l ∈ st.levels, ∃ s own r', own ⊆ log ∧ l.Read env s own r' := by
  refine Statement.forall_mem_levels.2 ⟨?_, fun q hq => ?_⟩
  · refine ⟨Reading.start c, log, r, List.Subset.refl _, ?_⟩
    refine ⟨hrec.trail, hrec.orderly, rfl, hrec.scope, hrec.nested_eq, ?_, ?_⟩
    · change st.span.start ≤ _
      rw [hrec.span]
      exact Nat.le_refl _
    · exact congrArg Span.stop hrec.span
  · obtain ⟨front, own, behind, r₁, r₂, rfl, hfront, hown, hbehind⟩ := hrec.readBetween hq
    obtain ⟨c₁, own', e, hc₁, rfl, t, -⟩ := hown.trail
    have hone := Steps.single (Token.isEnd_of_isKeyword hown.select) hc₁
    have ho₁ := hfront.orderly hrec.orderly
    refine ⟨r₁.enter.moved c₁, own', r₂, fun x hx => by simp [hx], ?_⟩
    refine ⟨⟨e, t⟩, hone.orderly ho₁, rfl, hown.scope, ?_, ?_, ?_⟩
    · change q.nested = _
      rw [q.nested_eq, hown.scope]
      rfl
    · change q.span.start ≤ _
      rw [hown.span]
      exact hone.current_le ho₁
    · exact congrArg Span.stop hown.span

theorem apart_or_nested (hrec : Record env st c log r) {q q' : Query} (hq : q ∈ st.nested)
    (hq' : q' ∈ st.nested) : q.ApartOrNested q' := by
  obtain ⟨e, t⟩ := hrec.trail
  rw [hrec.nested_eq] at hq hq'
  exact t.apart_or_nested hrec.orderly rfl q hq q' hq'

end Record

end SqlMarkers
