/-
SqlMarkers.Proofs.Queries — every query of the tree has a trail of its own.

`Reading.queries` are all queries that were read up to some point, at any depth.
Each of them was read between two points of the trail (`Trail.readBetween`): its
span and its scope come from the trail that starts behind its `SELECT`
(`QueryTrail`). Statements about queries of a tree need no induction over the
tree; they follow from statements about trails.
-/
import SqlMarkers.Proofs.Trail.Statement

namespace SqlMarkers

/-! ## Queries read so far -/

namespace Reading

/-- The queries read so far with `h` in hand, and all queries inside them. -/
def queries (r : Reading) (h : List Part) : List Query :=
  Query.nestedIn (Part.queries h ++ r.draft.subqueries)

variable {r r' : Reading} {h h' : List Part}

theorem queries_congr (hsub : r'.draft.subqueries = r.draft.subqueries) :
    r'.queries h = r.queries h := by
  rw [queries, hsub]
  rfl

@[simp] theorem declaring_subqueries (env : Setting) (t : Table) (token : Token) :
    (r.declaring env t token).draft.subqueries = r.draft.subqueries := by
  unfold declaring
  split <;> rfl

/-- Parts without queries add none. -/
theorem queries_append (hnone : Part.queries h' = []) : r.queries (h ++ h') = r.queries h := by
  rw [queries, Part.queries_append, hnone, List.append_nil]
  rfl

theorem mem_queries_perm (hp : h.Perm h') {q : Query} : q ∈ r.queries h' ↔ q ∈ r.queries h := by
  rw [queries, queries, Query.nestedIn_eq, Query.nestedIn_eq]
  exact ((((hp.symm.filterMap _).append_right _).flatMap_right _).mem_iff)

theorem mem_queries_attaching {q q' : Query} :
    q' ∈ (r.attaching q).queries h ↔ q' ∈ r.queries (h ++ [.query q]) := by
  simp only [queries, attaching, Part.queries_append, Part.queries_cons_query, Part.queries_nil,
    Query.nestedIn_append, List.mem_append]
  grind

/-- The queries after a nested one: those before, the new one, and those in it. -/
theorem mem_queries_leave {q q' : Query} (hscope : q.scope = r'.draft.finish) :
    q' ∈ (r.leave r' q).queries (h ++ [.query q]) ↔
      q' ∈ r.queries h ∨ q' = q ∨ q' ∈ r'.queries q.parts := by
  have hsub : q.scope.subqueries = r'.draft.subqueries := by
    rw [hscope]
    rfl
  simp only [queries, leave, Part.queries_append, Part.queries_cons_query, Part.queries_nil,
    Query.nestedIn_append, Query.nestedIn_singleton, List.mem_append, List.mem_cons, q.nested_eq,
    hsub]
  grind

end Reading

theorem Expr.queries_dropped (r : Reading) (h : List Part) (x : Expr) :
    r.queries (h ++ x.parts) = r.queries h :=
  Reading.queries_append x.queries_parts

/-! ## Their trails -/

/-- A query was read from `r₁`, where its `SELECT` is the current token, to `r₂`. -/
structure QueryTrail (env : Setting) (q : Query) (r₁ : Reading) (log : List Entry)
    (r₂ : Reading) : Prop where
  select : r₁.cursor.current.isKeyword .SELECT = true
  trail : ∃ c log' e, Yields Cursor.next r₁.cursor () c ∧
    log = ⟨r₁.cursor.current, .plain⟩ :: log' ∧
    Trail env (r₁.enter.moved c) log' q.parts e r₂ ∧ e ≠ .midway
  scope : q.scope = r₂.draft.finish
  span : q.span = ⟨r₁.cursor.current.span.start, r₂.cursor.lastEnd⟩

theorem QueryTrail.steps {env : Setting} {q : Query} {r₁ r₂ : Reading} {log : List Entry}
    (h : QueryTrail env q r₁ log r₂) :
    Steps r₁.cursor (log.map Entry.token) r₂.cursor := by
  obtain ⟨c, log', e, hc, rfl, t, -⟩ := h.trail
  exact (Steps.single (Token.isEnd_of_isKeyword h.select) hc).trans t.steps

/-- A query was read on the way from `c` to `c'`. -/
def ReadBetween (env : Setting) (c : Cursor) (log : List Entry) (c' : Cursor) (q : Query) : Prop :=
  ∃ front own behind r₁ r₂, log = front ++ own ++ behind ∧
    Steps c (front.map Entry.token) r₁.cursor ∧ QueryTrail env q r₁ own r₂ ∧
    Steps r₂.cursor (behind.map Entry.token) c'

namespace ReadBetween

variable {env : Setting} {c c₁ c' : Cursor} {log log' : List Entry} {q : Query}

theorem later (h : ReadBetween env c log c₁ q) (hsteps : Steps c₁ (log'.map Entry.token) c') :
    ReadBetween env c (log ++ log') c' q := by
  obtain ⟨front, own, behind, r₁, r₂, rfl, hfront, hown, hbehind⟩ := h
  refine ⟨front, own, behind ++ log', r₁, r₂, by simp, hfront, hown, ?_⟩
  rw [List.map_append]
  exact hbehind.trans hsteps

theorem earlier (hsteps : Steps c (log.map Entry.token) c₁) (h : ReadBetween env c₁ log' c' q) :
    ReadBetween env c (log ++ log') c' q := by
  obtain ⟨front, own, behind, r₁, r₂, rfl, hfront, hown, hbehind⟩ := h
  refine ⟨log ++ front, own, behind, r₁, r₂, by simp, ?_, hown, hbehind⟩
  rw [List.map_append]
  exact hsteps.trans hfront

/-- One more token in front. -/
theorem cons {x : Entry} (h : ReadBetween env c₁ log c' q) (hx : c.current = x.token)
    (hstep : Steps c [c.current] c₁) : ReadBetween env c (x :: log) c' q := by
  have hone : Steps c ([x].map Entry.token) c₁ := by
    rw [List.map_singleton, ← hx]
    exact hstep
  exact h.earlier hone

/-- One more token. -/
theorem snoc (h : ReadBetween env c log c₁ q) {x : Entry} (hx : c₁.current = x.token)
    (hend : c₁.current.isEnd = false) (hc : Yields Cursor.next c₁ () c') :
    ReadBetween env c (log ++ [x]) c' q := by
  refine h.later ?_
  rw [List.map_singleton, ← hx]
  exact .single hend hc

/-- The span of a query lies between the two points, and is not empty. -/
theorem span_within (h : ReadBetween env c log c' q) (ho : c.Orderly) :
    c.current.span.start ≤ q.span.start ∧ q.span.start < q.span.stop ∧
      q.span.stop ≤ c'.lastEnd := by
  obtain ⟨front, own, behind, r₁, r₂, rfl, hfront, hown, hbehind⟩ := h
  have ho₁ := hfront.orderly ho
  have hselect : r₁.cursor.current ∈ own.map Entry.token := by
    obtain ⟨c, log', e, -, rfl, -, -⟩ := hown.trail
    exact List.mem_cons_self
  have hstart := hfront.current_le ho
  have hwide := hown.steps.start_lt_stop ho₁ hselect
  have hstop := hown.steps.stop_le ho₁ hselect
  have hlast := hbehind.lastEnd_le (hown.steps.orderly ho₁)
  rw [hown.span]
  dsimp only
  omega

end ReadBetween

/-- Every query read so far was there at the start, or was read on the way. -/
theorem Trail.readBetween {env : Setting} {s r : Reading} {log : List Entry} {h : List Part}
    {e : Edge} (t : Trail env s log h e r) :
    ∀ q ∈ r.queries h, q ∈ s.queries [] ∨ ReadBetween env s.cursor log r.cursor q := by
  induction t with
  | start s => exact fun q hq => .inl hq
  | pass _ hplain hc _ ih =>
      intro q hq
      exact (ih q hq).imp_right fun hread => hread.snoc rfl (Token.isEnd_of_isPlain hplain) hc
  | slip _ hname hc _ ih | owner _ hname _ hc _ ih =>
      intro q hq
      exact (ih q hq).imp_right fun hread => hread.snoc rfl (Token.isEnd_of_isName hname) hc
  | dot _ _ hmark hc ih =>
      intro q hq
      exact (ih q hq).imp_right fun hread => hread.snoc rfl (Token.isEnd_of_isSymbol hmark) hc
  | count _ hmark hc ih =>
      intro q hq
      rw [Reading.queries_append rfl] at hq
      exact (ih q hq).imp_right fun hread => hread.snoc rfl (Token.isEnd_of_isSymbol hmark) hc
  | passage kind _ _ _ hsteps _ ih =>
      intro q hq
      refine (ih q hq).imp_right fun hread => hread.later ?_
      rw [Entry.map_token_passed]
      exact hsteps
  | @table s r r' log front log' h e e' c tbl token _ hnamed t' hdraft _ _ ih _ =>
      intro q hq
      rw [Reading.queries_append rfl, Reading.queries_congr (r := r) (by simp [hdraft])] at hq
      rw [List.append_assoc, Reading.declaring_cursor]
      refine (ih q hq).imp_right fun hread => hread.later ?_
      simpa using hnamed.steps.trans t'.steps
  | @nested s r r' log log' h e e' c q t hselect hc t' he hscope hspan ih ih' =>
      have hone := Steps.single (Token.isEnd_of_isKeyword hselect) hc
      have hown : QueryTrail env q r (⟨r.cursor.current, .plain⟩ :: log') r' :=
        ⟨hselect, ⟨c, log', e', hc, rfl, t', he⟩, hscope, hspan⟩
      intro q' hq'
      rcases (Reading.mem_queries_leave hscope).1 hq' with hq' | rfl | hq'
      · exact (ih q' hq').imp_right fun hread => hread.later hown.steps
      · exact .inr ⟨log, _, [], r, r', by simp, t.steps, hown, .refl _⟩
      · rcases ih' q' hq' with hq' | hread
        · cases hq'
        · exact .inr ((hread.cons rfl hone).earlier t.steps)
  | attach _ _ ih =>
      intro q' hq'
      exact ih q' (Reading.mem_queries_attaching.1 hq')
  | keep _ _ _ ih =>
      intro q hq
      rw [Reading.queries_append rfl] at hq
      exact ih q hq
  | drop x _ _ ih =>
      intro q hq
      rw [← Expr.queries_dropped _ _ x] at hq
      exact ih q hq
  | settle _ _ ih => exact ih
  | level _ _ ih => exact ih
  | perm _ hp ih =>
      intro q hq
      exact ih q ((Reading.mem_queries_perm hp).1 hq)

end SqlMarkers
