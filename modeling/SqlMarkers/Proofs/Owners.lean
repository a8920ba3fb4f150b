/-
SqlMarkers.Proofs.Owners — which owners are left over.

An owner that a query cannot resolve is handed on to the statement around it.
While it is open, no query that it stands in has a table that answers to it:
every such query has been finished, and has passed the owner on
(`Trail.custody`). An owner that is still open at the end is therefore answered
by no statement or query whose text it stands in (`Record.marker_of_owner`).
-/
import SqlMarkers.Proofs.Fates

namespace SqlMarkers

/-- The owners that are open at `r` are those of entries of the log, and the queries
read so far that they stand in have no table that answers to them. -/
structure Reading.Custody (r : Reading) (h : List Part) (log : List Entry) : Prop where
  logged : ∀ o ∈ r.draft.owners, ∃ x ∈ log, x.token.span.start = o.start ∧ x.fate = .owner o.name
  unanswered : ∀ o ∈ r.draft.owners, ∀ q ∈ r.queries h, q.span.start ≤ o.start →
    o.start < q.span.stop → ∀ tbl ∈ q.scope.tables, tbl.answersTo o.name = false

namespace Reading

variable {r r' : Reading} {h h' : List Part} {log log' : List Entry}

/-- Nothing changes as long as neither owners nor queries are added. -/
theorem Custody.mono (hr : r.Custody h log) (howners : r'.draft.owners = r.draft.owners)
    (hqueries : ∀ q ∈ r'.queries h', q ∈ r.queries h) (hlog : log ⊆ log') :
    r'.Custody h' log' := by
  constructor
  · intro o ho
    rw [howners] at ho
    obtain ⟨x, hx, hstart, hfate⟩ := hr.logged o ho
    exact ⟨x, hlog hx, hstart, hfate⟩
  · intro o ho q hq
    rw [howners] at ho
    exact hr.unanswered o ho q (hqueries q hq)

@[simp] theorem declaring_owners (env : Setting) (t : Table) (token : Token) :
    (r.declaring env t token).draft.owners = r.draft.owners := by
  unfold declaring
  split <;> rfl

end Reading

theorem Draft.answersTo_of_unresolved {d : Draft} {o : Owner} (ho : o ∈ d.unresolved) :
    ∀ tbl ∈ d.tables, tbl.answersTo o.name = false := by
  intro tbl htbl
  have hnone := (List.mem_filter.1 ho).2
  rw [Option.isNone_iff_eq_none, Draft.find?, List.find?_eq_none] at hnone
  exact Bool.eq_false_iff.2 (hnone tbl htbl)

/-- Queries that were read on the way lie between its ends. -/
theorem Trail.query_within {env : Setting} {s r : Reading} {log : List Entry} {h : List Part}
    {e : Edge} (t : Trail env s log h e r) (ho : s.cursor.Orderly) (hs : s.queries [] = [])
    {q : Query} (hq : q ∈ r.queries h) :
    s.cursor.current.span.start ≤ q.span.start ∧ q.span.start < q.span.stop ∧
      q.span.stop ≤ r.cursor.lastEnd := by
  rcases t.readBetween q hq with hstart | hread
  · rw [hs] at hstart
    cases hstart
  · exact hread.span_within ho

theorem Trail.custody {env : Setting} {s r : Reading} {log : List Entry} {h : List Part} {e : Edge}
    (t : Trail env s log h e r) (ho : s.cursor.Orderly) (hs : s.queries [] = [])
    (hnone : s.draft.owners = []) : r.Custody h log := by
  induction t with
  | start s => constructor <;> simp [hnone]
  | pass _ _ _ _ ih | slip _ _ _ _ ih | dot _ _ _ _ ih | passage _ _ _ _ _ _ ih =>
      exact (ih ho hs hnone).mono rfl (fun q hq => hq) (List.subset_append_left _ _)
  | count _ _ _ ih =>
      refine (ih ho hs hnone).mono rfl (fun q hq => ?_) (List.subset_append_left _ _)
      rwa [Reading.queries_append rfl] at hq
  | @owner s r log h e c name t _ _ _ _ ih =>
      have hr := ih ho hs hnone
      constructor
      · intro o howner
        rcases List.mem_append.1 howner with howner | howner
        · obtain ⟨x, hx, hstart, hfate⟩ := hr.logged o howner
          exact ⟨x, List.mem_append_left _ hx, hstart, hfate⟩
        · obtain rfl := List.mem_singleton.1 howner
          exact ⟨_, List.mem_append_right _ (List.mem_singleton_self _), rfl, rfl⟩
      · intro o howner q hq hstart hstop
        rcases List.mem_append.1 howner with howner | howner
        · exact hr.unanswered o howner q hq hstart hstop
        · -- All queries so far end in front of the new owner.
          obtain rfl := List.mem_singleton.1 howner
          have hwithin := t.query_within ho hs (q := q) hq
          have hbehind := (t.steps.orderly ho).behind
          dsimp only at hstop
          omega
  | @table s r r' log front log' h e e' c tbl token _ _ _ hdraft _ _ ih _ =>
      refine (ih ho hs hnone).mono (by rw [Reading.declaring_owners, hdraft]) (fun q hq => ?_) ?_
      · rwa [Reading.queries_append rfl, Reading.queries_congr (r := r) (by simp [hdraft])] at hq
      · rw [List.append_assoc]
        exact List.subset_append_left _ _
  | @nested s r r' log log' h e e' c q t hselect hc t' _ hscope hspan ih ih' =>
      have hone := Steps.single (Token.isEnd_of_isKeyword hselect) hc
      have ho₁ := t.steps.orderly ho
      have ho₂ := hone.orderly ho₁
      have hr := ih ho hs hnone
      have hr' := ih' ho₂ rfl rfl
      have hmem : ∀ o ∈ r'.draft.unresolved, o ∈ r'.draft.owners :=
        fun o howner => (List.mem_filter.1 howner).1
      have hbehind := ho₁.behind
      have hcurrent := hone.current_le ho₁
      constructor
      · intro o howner
        rcases List.mem_append.1 howner with howner | howner
        · obtain ⟨x, hx, hstart, hfate⟩ := hr.logged o howner
          exact ⟨x, List.mem_append_left _ hx, hstart, hfate⟩
        · obtain ⟨x, hx, hstart, hfate⟩ := hr'.logged o (hmem o howner)
          exact ⟨x, List.mem_append_right _ (List.mem_cons_of_mem _ hx), hstart, hfate⟩
      · intro o howner q' hq' hstart hstop
        have hinside := (Reading.mem_queries_leave hscope).1 hq'
        rcases List.mem_append.1 howner with howner | hopen
        · -- The owner stands in front of the new query.
          obtain ⟨x, hx, hxstart, -⟩ := hr.logged o howner
          have hxstop := t.steps.stop_le ho (List.mem_map_of_mem hx)
          have hxwide := t.steps.start_lt_stop ho (List.mem_map_of_mem hx)
          rcases hinside with hold | rfl | hinner
          · exact hr.unanswered o howner q' hold hstart hstop
          · rw [hspan] at hstart
            dsimp only at hstart
            omega
          · have hwithin := t'.query_within ho₂ rfl hinner
            simp only [Reading.moved_cursor] at hwithin
            omega
        · -- The owner stands in the new query, which does not answer to it.
          obtain ⟨x, hx, hxstart, -⟩ := hr'.logged o (hmem o hopen)
          have hle := t'.steps.start_le ho₂ (List.mem_map_of_mem hx)
          simp only [Reading.moved_cursor] at hle
          rcases hinside with hold | rfl | hinner
          · have hwithin := t.query_within ho hs hold
            omega
          · rw [hscope]
            exact Draft.answersTo_of_unresolved hopen
          · exact hr'.unanswered o (hmem o hopen) q' hinner hstart hstop
  | attach _ _ ih =>
      exact (ih ho hs hnone).mono rfl (fun q hq => Reading.mem_queries_attaching.1 hq)
        (List.Subset.refl _)
  | keep _ _ _ ih =>
      refine (ih ho hs hnone).mono rfl (fun q hq => ?_) (List.Subset.refl _)
      rwa [Reading.queries_append rfl] at hq
  | drop x _ _ ih =>
      refine (ih ho hs hnone).mono rfl (fun q hq => ?_) (List.Subset.refl _)
      rwa [Expr.queries_dropped]
  | settle _ _ ih => exact ih ho hs hnone
  | level _ _ ih => exact (ih ho hs hnone).mono rfl (fun _ hq => hq) (List.Subset.refl _)
  | perm _ hp ih =>
      exact (ih ho hs hnone).mono rfl (fun q hq => (Reading.mem_queries_perm hp).1 hq)
        (List.Subset.refl _)

/-! ## Whole statements -/

namespace Record

variable {env : Setting} {st : Statement} {c : Cursor} {log : List Entry} {r : Reading}

theorem custody (hrec : Record env st c log r) : r.Custody st.parts log := by
  obtain ⟨e, t⟩ := hrec.trail
  exact t.custody hrec.orderly rfl rfl

/-- Only marked tokens have a marker. -/
theorem isMarked_of_marker (hrec : Record env st c log r) {x : Entry} (hx : x ∈ log) {m : Marker}
    (hm : m ∈ Block.markersOf st.blocks) (hstart : m.start = x.token.span.start) :
    x.isMarked env = true := by
  have hplace : m.place ∈ Entry.marked env log := by
    refine hrec.perm_marked.mem_iff.1 (List.mem_append_left _ ?_)
    rw [Block.placesOf_eq]
    exact List.mem_map_of_mem hm
  obtain ⟨y, hy, heq⟩ := List.mem_map.1 hplace
  obtain ⟨hylog, hymarked⟩ := List.mem_filter.1 hy
  have hxy := hrec.entry_eq hx hylog (hstart.symm.trans (Prod.mk.inj heq).1.symm)
  rwa [hxy]

/-- A marked token has a marker, or it is an owner that is left over. -/
theorem marker_or_unresolved (hrec : Record env st c log r) {x : Entry} (hx : x ∈ log)
    (hmarked : x.isMarked env = true) :
    (∃ m ∈ Block.markersOf st.blocks, m.start = x.token.span.start) ∨
      ∃ o ∈ r.draft.unresolved, o.start = x.token.span.start ∧ x.fate = .owner o.name := by
  have hplace : x.token.place ∈ Entry.marked env log :=
    List.mem_map_of_mem (List.mem_filter.2 ⟨hx, hmarked⟩)
  rcases List.mem_append.1 (hrec.perm_marked.mem_iff.2 hplace) with hplace | hplace
  · rw [Block.placesOf_eq] at hplace
    obtain ⟨m, hm, heq⟩ := List.mem_map.1 hplace
    exact .inl ⟨m, hm, (Prod.mk.inj heq).1⟩
  · obtain ⟨o, hopen, heq⟩ := List.mem_map.1 hplace
    have hstart := (Prod.mk.inj heq).1
    obtain ⟨y, hy, hystart, hfate⟩ := hrec.custody.logged o (List.mem_filter.1 hopen).1
    have hxy := hrec.entry_eq hx hy (hstart.symm.trans hystart.symm)
    exact .inr ⟨o, hopen, hstart, hxy ▸ hfate⟩

/-- The name of a sharded table has a marker. -/
theorem marker_of_table (hrec : Record env st c log r) {token : Token} {tbl : Table}
    (hx : ⟨token, .table tbl⟩ ∈ log) (hsharded : Reader.isSharded env tbl = true) :
    ∃ m ∈ Block.markersOf st.blocks, m.start = token.span.start := by
  rcases hrec.marker_or_unresolved hx hsharded with hmarker | ⟨o, -, -, hfate⟩
  · exact hmarker
  · cases hfate

/-- An owner has a marker if a block that it stands in has a table that answers to
it. -/
theorem marker_of_owner (hrec : Record env st c log r) {token : Token} {name : String}
    (hx : ⟨token, .owner name⟩ ∈ log) {b : Block} (hb : b ∈ st.blocks)
    (hwithin : token.span.Within b.span) {tbl : Table} (htbl : tbl ∈ b.scope.tables)
    (hanswers : tbl.answersTo name = true) :
    ∃ m ∈ Block.markersOf st.blocks, m.start = token.span.start := by
  rcases hrec.marker_or_unresolved hx rfl with hmarker | ⟨o, hopen, hstart, hfate⟩
  · exact hmarker
  · exfalso
    obtain rfl := Fate.owner.inj hfate
    have hwide := hrec.steps.start_lt_stop hrec.orderly (List.mem_map_of_mem hx)
    dsimp only at hstart hwide
    obtain ⟨hfrom, hto⟩ := hwithin
    have hfalse : tbl.answersTo o.name = false := by
      rcases List.mem_cons.1 hb with rfl | hb
      · rw [hrec.scope] at htbl
        exact Draft.answersTo_of_unresolved hopen tbl htbl
      · obtain ⟨q, hq, rfl⟩ := List.mem_map.1 hb
        rw [hrec.nested_eq] at hq
        change q.span.start ≤ _ at hfrom
        change _ ≤ q.span.stop at hto
        exact hrec.custody.unanswered o (List.mem_filter.1 hopen).1 q hq (by omega) (by omega) tbl
          htbl
    rw [hfalse] at hanswers
    cases hanswers

end Record

end SqlMarkers
