/-
SqlMarkers.Proofs.Loose — where names get lost.

A loose name is one in front of a `.` that was consumed without a look at what
follows. No reader of the same query goes on behind it, so it is the last token
of a query, and this query was read in the middle of parentheses and attached to
the scope around it (`Trail.astray`).

Not every query of this kind ends with a loose name. It can also end with a name
that was noted as an owner; then the text that it ends was kept
(`Trail.kept`), while no kept text ends at a loose name (`Trail.short`). This is
how the tree tells the two apart.
-/
import SqlMarkers.Proofs.Fates

namespace SqlMarkers

/-! ## Ends of parts -/

/-- Where a part ends. -/
def Part.stop : Part → Nat
  | .table t => t.span.stop
  | .query q => q.span.stop
  | .placeholder _ span => span.stop
  | .verbatim span => span.stop

/-- No kept text reaches up to `n`, in hand or in a query in hand that does. -/
def Part.Short (n : Nat) : Part → Prop
  | .verbatim span => span.stop < n
  | .query q => q.span.stop < n ∨ ∀ span, .verbatim span ∈ q.parts → span.stop < n
  | _ => True

theorem Part.short_of_stop_lt {n : Nat} {p : Part} (h : p.stop < n) : p.Short n := by
  cases p with
  | table t => trivial
  | query q => exact .inl h
  | placeholder index span => trivial
  | verbatim span => exact h

section Trail

variable {env : Setting} {s r : Reading} {log : List Entry} {h : List Part} {e : Edge}

/-- What is in hand ends where the cursor is, or before. -/
theorem Trail.stop_le (t : Trail env s log h e r) (ho : s.cursor.Orderly) :
    ∀ p ∈ h, p.stop ≤ r.cursor.lastEnd := by
  -- The parts so far, after the cursor has moved on.
  have hmove : ∀ {h : List Part} {c c' : Cursor} {ts : List Token}, c.Orderly → Steps c ts c' →
      (∀ p ∈ h, p.stop ≤ c.lastEnd) → ∀ p ∈ h, p.stop ≤ c'.lastEnd :=
    fun ho hsteps hle p hp => Nat.le_trans (hle p hp) (hsteps.lastEnd_le ho)
  induction t with
  | start s =>
      intro p hp
      cases hp
  | pass t hplain hc _ ih =>
      exact hmove (t.steps.orderly ho) (.single (Token.isEnd_of_isPlain hplain) hc) (ih ho)
  | slip t hname hc _ ih | owner t hname _ hc _ ih =>
      exact hmove (t.steps.orderly ho) (.single (Token.isEnd_of_isName hname) hc) (ih ho)
  | dot t _ hmark hc ih =>
      exact hmove (t.steps.orderly ho) (.single (Token.isEnd_of_isSymbol hmark) hc) (ih ho)
  | count t hmark hc ih =>
      intro p hp
      rcases List.mem_append.1 hp with hp | hp
      · exact hmove (t.steps.orderly ho) (.single (Token.isEnd_of_isSymbol hmark) hc) (ih ho) p hp
      · rw [List.mem_singleton.1 hp]
        exact Nat.le_of_eq (Cursor.lastEnd_of_next hc).symm
  | passage _ t _ _ hsteps _ ih => exact hmove (t.steps.orderly ho) hsteps (ih ho)
  | @table s r r' log front log' h e e' c tbl token t hnamed t' _ _ hspan ih _ =>
      have ho₁ := t.steps.orderly ho
      have ho₂ := hnamed.steps.orderly ho₁
      intro p hp
      rw [Reading.declaring_cursor]
      rcases List.mem_append.1 hp with hp | hp
      · exact hmove ho₁ (hnamed.steps.trans t'.steps) (ih ho) p hp
      · rw [List.mem_singleton.1 hp, Part.stop, hspan]
        exact Nat.le_trans (hnamed.steps.stop_le ho₁ (by simp)) (t'.steps.lastEnd_le ho₂)
  | @nested s r r' log log' h e e' c q t hselect hc t' _ _ hspan ih _ =>
      intro p hp
      rcases List.mem_append.1 hp with hp | hp
      · exact hmove (t.steps.orderly ho)
          ((Steps.single (Token.isEnd_of_isKeyword hselect) hc).trans t'.steps) (ih ho) p hp
      · obtain rfl := List.mem_singleton.1 hp
        exact Nat.le_of_eq (congrArg Span.stop hspan)
  | attach _ _ ih => exact fun p hp => ih ho p (List.mem_append_left _ hp)
  | keep start _ _ ih =>
      intro p hp
      rcases List.mem_append.1 hp with hp | hp
      · exact ih ho p hp
      · obtain rfl := List.mem_singleton.1 hp
        exact Nat.le_refl _
  | drop x _ _ ih => exact fun p hp => ih ho p (List.mem_append_left _ hp)
  | settle _ _ ih => exact ih ho
  | level _ _ ih => exact ih ho
  | perm _ hp ih => exact fun p hmem => ih ho p (hp.mem_iff.2 hmem)

/-- A `.` follows a loose name. -/
theorem Trail.dot_of_loose (t : Trail env s log h e r) (he : e = .loose) :
    r.cursor.current.isSymbol .dot = true := by
  induction t with
  | start | pass | dot | count | owner | passage | attach | keep | settle => cases he
  | slip _ _ _ hdot _ => exact hdot
  | table _ _ _ _ _ _ _ ih' =>
      rw [Reading.declaring_cursor]
      exact ih' he
  | @nested _ _ _ _ _ _ _ e' _ _ _ _ _ _ _ _ _ _ ih' =>
      cases e' with
      | loose => exact ih' rfl
      | settled | midway => cases he
  | drop _ _ _ ih => exact ih he
  | perm _ _ ih => exact ih he
  | level _ _ ih => exact ih he

/-- No kept text ends at a loose name. -/
theorem Trail.short (t : Trail env s log h e r) (ho : s.cursor.Orderly) (he : e = .loose) :
    ∀ p ∈ h, p.Short r.cursor.lastEnd := by
  induction t with
  | start | pass | dot | count | owner | passage | attach | keep | settle => cases he
  | slip t hname hc _ _ =>
      intro p hp
      refine Part.short_of_stop_lt (Nat.lt_of_le_of_lt (t.stop_le ho p hp) ?_)
      exact (Steps.single (Token.isEnd_of_isName hname) hc).lastEnd_lt (t.steps.orderly ho)
        (by simp)
  | @table s r r' log front log' h e e' c tbl token t hnamed t' _ _ _ _ _ =>
      intro p hp
      rw [Reading.declaring_cursor]
      rcases List.mem_append.1 hp with hp | hp
      · refine Part.short_of_stop_lt (Nat.lt_of_le_of_lt (t.stop_le ho p hp) ?_)
        exact (hnamed.steps.trans t'.steps).lastEnd_lt (t.steps.orderly ho) (by simp)
      · rw [List.mem_singleton.1 hp]
        trivial
  | @nested s r r' log log' h e e' c q t hselect hc t' _ _ _ _ ih' =>
      have hone := Steps.single (Token.isEnd_of_isKeyword hselect) hc
      have ho₁ := t.steps.orderly ho
      intro p hp
      rcases List.mem_append.1 hp with hp | hp
      · refine Part.short_of_stop_lt (Nat.lt_of_le_of_lt (t.stop_le ho p hp) ?_)
        exact (hone.trans t'.steps).lastEnd_lt ho₁ (by simp)
      · rw [List.mem_singleton.1 hp]
        cases e' with
        | loose => exact .inr fun span hspan => ih' (hone.orderly ho₁) rfl _ hspan
        | settled | midway => cases he
  | drop _ _ _ ih => exact fun p hp => ih ho he p (List.mem_append_left _ hp)
  | perm _ hp ih => exact fun p hmem => ih ho he p (hp.mem_iff.2 hmem)
  | level _ _ ih => exact ih ho he

/-- A `.` follows an owner that is the last token. -/
theorem Trail.dot_of_owner (t : Trail env s log h e r) (ho : s.cursor.Orderly) {x : Entry}
    (hx : x ∈ log) {name : String} (hfate : x.fate = .owner name)
    (hlast : x.token.span.stop = r.cursor.lastEnd) :
    r.cursor.current.isSymbol .dot = true := by
  obtain ⟨ts, c₁, c₂, us, hts, hcurrent, hnext, hus, htold⟩ := (t.met x hx).met
  have hend : c₁.current.isEnd = false := by
    rw [hcurrent]
    exact t.steps.isEnd_eq (List.mem_map_of_mem hx)
  have ho₂ := (hts.orderly ho).next hend hnext
  by_cases hne : us = []
  · subst hne
    rw [Entry.Told, hfate] at htold
    rw [hus.eq_of_nil]
    exact htold.2
  · have hlt := hus.lastEnd_lt ho₂ hne
    rw [Cursor.lastEnd_of_next hnext, hcurrent] at hlt
    omega

/-- Entries end before a cursor that has moved on. -/
theorem Trail.stop_lt_of_mem (t : Trail env s log h e r) (ho : s.cursor.Orderly) {ts : List Token}
    {c : Cursor} (hsteps : Steps r.cursor ts c) (hne : ts ≠ []) {x : Entry} (hx : x ∈ log) :
    x.token.span.stop < c.lastEnd :=
  Nat.lt_of_le_of_lt (t.steps.stop_le ho (List.mem_map_of_mem hx))
    (hsteps.lastEnd_lt (t.steps.orderly ho) hne)

/-- Where an owner is the last token and no operand is left in the middle, the text
that it ends was kept. -/
theorem Trail.kept (t : Trail env s log h e r) (ho : s.cursor.Orderly) (he : e ≠ .midway)
    {x : Entry} (hx : x ∈ log) {name : String} (hfate : x.fate = .owner name)
    (hlast : x.token.span.stop = r.cursor.lastEnd) :
    ∃ span, .verbatim span ∈ h ∧ span.stop = r.cursor.lastEnd := by
  -- The owner is the last token, and a token that is no owner was consumed last.
  have hsnoc : ∀ {s r : Reading} {log : List Entry} {h : List Part} {e : Edge} {c : Cursor}
      {y : Entry}, Trail env s log h e r → s.cursor.Orderly → Steps r.cursor [y.token] c →
      y.fate ≠ .owner name → x ∈ log ++ [y] → x.token.span.stop = c.lastEnd → False := by
    intro s r log h e c y t ho hsteps hy hx hlast
    rcases List.mem_append.1 hx with hx | hx
    · exact Nat.ne_of_lt (t.stop_lt_of_mem ho hsteps (by simp) hx) hlast
    · rw [List.mem_singleton.1 hx] at hfate
      exact hy hfate
  induction t with
  | start s => cases hx
  | pass t hplain hc _ _ =>
      exact (hsnoc t ho (.single (Token.isEnd_of_isPlain hplain) hc) (by simp) hx hlast).elim
  | slip t hname hc _ _ =>
      exact (hsnoc t ho (.single (Token.isEnd_of_isName hname) hc) (by simp) hx hlast).elim
  | dot t _ hmark hc _ | count t hmark hc _ =>
      exact (hsnoc t ho (.single (Token.isEnd_of_isSymbol hmark) hc) (by simp) hx hlast).elim
  | owner => exact absurd rfl he
  | passage kind t _ hne hsteps _ _ =>
      rcases List.mem_append.1 hx with hx | hx
      · exact absurd hlast (Nat.ne_of_lt (t.stop_lt_of_mem ho hsteps hne hx))
      · obtain ⟨token, -, rfl⟩ := List.mem_map.1 hx
        cases hfate
  | @table s r r' log front log' h e e' c tbl token t hnamed t' _ _ _ _ ih' =>
      rw [Reading.declaring_cursor] at hlast
      simp only [List.append_assoc, List.mem_append, List.mem_cons] at hx
      rcases hx with hx | hx | rfl | hx
      · have hsteps := hnamed.steps.trans t'.steps
        exact absurd hlast (Nat.ne_of_lt (t.stop_lt_of_mem ho hsteps (by simp) hx))
      · rcases hnamed.fate_front x hx with hplain | hplain <;> rw [hplain] at hfate <;> cases hfate
      · cases hfate
      · obtain ⟨span, hspan, -⟩ := ih' (hnamed.steps.orderly (t.steps.orderly ho)) he hx hlast
        cases hspan
  | @nested s r r' log log' h e e' c q t hselect hc t' he' _ _ _ ih' =>
      have hone := Steps.single (Token.isEnd_of_isKeyword hselect) hc
      have ho' := hone.orderly (t.steps.orderly ho)
      rcases List.mem_append.1 hx with hx | hx
      · exact absurd hlast
          (Nat.ne_of_lt (t.stop_lt_of_mem ho (hone.trans t'.steps) (by simp) hx))
      · rcases List.mem_cons.1 hx with rfl | hx
        · cases hfate
        · obtain ⟨span, hspan, hstop⟩ := ih' ho' he' hx hlast
          cases e' with
          | loose => exact absurd hstop (Nat.ne_of_lt (t'.short ho' rfl _ hspan))
          | settled | midway => exact absurd rfl he
  | attach => exact absurd rfl he
  | keep start _ _ _ => exact ⟨_, List.mem_append_right _ (List.mem_singleton_self _), rfl⟩
  | drop y t hdot ih =>
      obtain ⟨span, hspan, hstop⟩ := ih ho he hx hlast
      rcases List.mem_append.1 hspan with hspan | hspan
      · exact ⟨span, hspan, hstop⟩
      · -- A dropped text has no `.` behind it, but the owner has.
        have hverbatim : y.isVerbatim = true := by
          cases y <;> simp_all [Expr.parts, Expr.isVerbatim]
        have hnone := hdot hverbatim
        rw [t.dot_of_owner ho hx hfate hlast] at hnone
        cases hnone
  | settle t hdot _ =>
      rw [t.dot_of_owner ho hx hfate hlast] at hdot
      cases hdot
  | level _ _ ih => exact ih ho he hx hlast
  | perm _ hp ih =>
      obtain ⟨span, hspan, hstop⟩ := ih ho he hx hlast
      exact ⟨span, hp.mem_iff.1 hspan, hstop⟩

end Trail

/-! ## Attached queries -/

/-- The queries that were attached to the scope in the making, or to that of a
query read so far. -/
def Reading.attached (r : Reading) (h : List Part) : List Query :=
  r.draft.subqueries ++ (r.queries h).flatMap fun q => q.scope.subqueries

/-- The kept texts among parts. -/
def Part.verbatims (parts : List Part) : List Span :=
  parts.filterMap fun
    | .verbatim span => some span
    | _ => none

theorem Part.mem_verbatims {parts : List Part} {span : Span} :
    span ∈ Part.verbatims parts ↔ .verbatim span ∈ parts := by
  rw [Part.verbatims, List.mem_filterMap]
  constructor
  · rintro ⟨p, hp, heq⟩
    cases p with
    | verbatim => exact Option.some.inj heq ▸ hp
    | table | query | placeholder => cases heq
  · exact fun hp => ⟨_, hp, rfl⟩

/-- A query ends at `n`, and no text that it keeps ends there. -/
def Query.EndsOpen (q : Query) (n : Nat) : Prop :=
  q.span.stop = n ∧ ∀ span ∈ Part.verbatims q.parts, span.stop ≠ n

instance (q : Query) (n : Nat) : Decidable (q.EndsOpen n) :=
  inferInstanceAs (Decidable (_ ∧ _))

namespace Reading

variable {r r' : Reading} {h h' : List Part} {q q' : Query}

theorem mem_attached : q' ∈ r.attached h ↔
    q' ∈ r.draft.subqueries ∨ ∃ q ∈ r.queries h, q' ∈ q.scope.subqueries := by
  rw [attached, List.mem_append, List.mem_flatMap]

theorem mem_attached_mono (hsub : r.draft.subqueries ⊆ r'.draft.subqueries)
    (hqueries : r.queries h ⊆ r'.queries h') (hq : q ∈ r.attached h) : q ∈ r'.attached h' := by
  rcases mem_attached.1 hq with hq | ⟨q', hq', hq⟩
  · exact mem_attached.2 (.inl (hsub hq))
  · exact mem_attached.2 (.inr ⟨q', hqueries hq', hq⟩)

/-- What was attached inside a query is attached in the tree. -/
theorem mem_attached_leave (hscope : q.scope = r'.draft.finish) (hq' : q' ∈ r'.attached q.parts) :
    q' ∈ (r.leave r' q).attached (h ++ [.query q]) := by
  rw [mem_attached]
  rcases mem_attached.1 hq' with hq' | ⟨q₁, hq₁, hq'⟩
  · refine .inr ⟨q, (mem_queries_leave hscope).2 (.inr (.inl rfl)), ?_⟩
    rw [hscope]
    exact hq'
  · exact .inr ⟨q₁, (mem_queries_leave hscope).2 (.inr (.inr hq₁)), hq'⟩

end Reading

/-- A query that was attached ends open at `n`. -/
def Reading.LosesAt (r : Reading) (h : List Part) (n : Nat) : Prop :=
  ∃ q ∈ r.attached h, q.EndsOpen n

namespace Reading.LosesAt

variable {env : Setting} {r r' : Reading} {h h' : List Part} {q : Query} {tbl : Table}
  {token : Token} {n : Nat}

theorem mono (hr : r.LosesAt h n) (hsub : r.draft.subqueries ⊆ r'.draft.subqueries)
    (hqueries : r.queries h ⊆ r'.queries h') : r'.LosesAt h' n := by
  obtain ⟨q, hq, hopen⟩ := hr
  exact ⟨q, mem_attached_mono hsub hqueries hq, hopen⟩

/-- What was lost in front of a table is lost behind it. -/
theorem declaring (hr : r.LosesAt h n) (hdraft : r'.draft = r.draft) :
    (r'.declaring env tbl token).LosesAt (h ++ [.table tbl]) n := by
  have hsub : (r'.declaring env tbl token).draft.subqueries = r.draft.subqueries := by
    rw [declaring_subqueries, hdraft]
  refine hr.mono (by rw [hsub]; exact List.Subset.refl _) ?_
  rw [queries_append rfl, queries_congr hsub]
  exact List.Subset.refl _

/-- What was lost behind the name of a table, in its alias and its hints, stays so when the
table is declared. -/
theorem declaring_behind (hr : r'.LosesAt [] n) :
    (r'.declaring env tbl token).LosesAt (h ++ [.table tbl]) n := by
  have hsub : (r'.declaring env tbl token).draft.subqueries = r'.draft.subqueries :=
    declaring_subqueries ..
  refine hr.mono (by rw [hsub]; exact List.Subset.refl _) ?_
  rw [queries_append rfl, queries_congr hsub]
  intro q hq
  rw [queries, Query.nestedIn_append]
  exact List.mem_append_right _ hq

/-- What was lost in front of a nested query is lost behind it. -/
theorem leave (hr : r.LosesAt h n) (hscope : q.scope = r'.draft.finish) :
    (r.leave r' q).LosesAt (h ++ [.query q]) n :=
  hr.mono (List.Subset.refl _) fun _ hq => (mem_queries_leave hscope).2 (.inl hq)

/-- What was lost inside a nested query is lost behind it. -/
theorem leave_inside (hr : r'.LosesAt q.parts n) (hscope : q.scope = r'.draft.finish) :
    (r.leave r' q).LosesAt (h ++ [.query q]) n := by
  obtain ⟨q', hq', hopen⟩ := hr
  exact ⟨q', mem_attached_leave hscope hq', hopen⟩

theorem attaching (hr : r.LosesAt (h ++ [.query q]) n) : (r.attaching q).LosesAt h n :=
  hr.mono (List.subset_append_left _ _) fun _ hq => mem_queries_attaching.2 hq

end Reading.LosesAt

section Trail

variable {env : Setting} {s r : Reading} {log : List Entry} {h : List Part} {e : Edge}

/-- Where no `.` comes next, nothing is loose at the end. -/
theorem Trail.losesAt_of_dot (t : Trail env s log h e r) {n : Nat}
    (hdot : r.cursor.current.isSymbol .dot = false)
    (hcases : (e = .loose ∧ n = r.cursor.lastEnd) ∨ r.LosesAt h n) : r.LosesAt h n := by
  rcases hcases with ⟨he, -⟩ | hr
  · rw [t.dot_of_loose he] at hdot
    cases hdot
  · exact hr

/-- A query that ends with a loose name is attached right behind this name. -/
theorem Trail.losesAt_attaching {q : Query} (t : Trail env s log (h ++ [.query q]) .loose r)
    (ho : s.cursor.Orderly) (hstop : r.cursor.lastEnd = q.span.stop) :
    (r.attaching q).LosesAt h r.cursor.lastEnd := by
  refine ⟨q, ?_, hstop.symm, fun span hspan => ?_⟩
  · rw [Reading.mem_attached]
    exact .inl (List.mem_append_right _ (List.mem_singleton_self _))
  · -- Nothing was consumed since the query was read.
    rcases t.short ho rfl (.query q) (by simp) with hlt | hshort
    · omega
    · exact Nat.ne_of_lt (hshort span (Part.mem_verbatims.1 hspan))

theorem Entry.mem_of_mem_snoc {x y : Entry} (hx : x ∈ log ++ [y]) (hfate : x.fate = .loose)
    (hy : y.fate ≠ .loose) : x ∈ log := by
  rcases List.mem_append.1 hx with hx | hx
  · exact hx
  · rw [List.mem_singleton.1 hx] at hfate
    exact absurd hfate hy

/-- A loose name is the last token of the trail, or of a query that was attached. -/
theorem Trail.astray (t : Trail env s log h e r) (ho : s.cursor.Orderly) {x : Entry}
    (hx : x ∈ log) (hfate : x.fate = .loose) :
    (e = .loose ∧ x.token.span.stop = r.cursor.lastEnd) ∨ r.LosesAt h x.token.span.stop := by
  induction t with
  | start s => cases hx
  | pass t hplain _ _ ih =>
      have hx := Entry.mem_of_mem_snoc hx hfate (by simp)
      exact .inr (t.losesAt_of_dot (Token.isDot_of_isPlain hplain) (ih ho hx))
  | slip t hname hc _ ih =>
      rcases List.mem_append.1 hx with hx | hx
      · have hdot := Token.isDot_of_isPlain (Token.isPlain_of_isName hname)
        exact .inr (t.losesAt_of_dot hdot (ih ho hx))
      · rw [List.mem_singleton.1 hx]
        exact .inl ⟨rfl, (Cursor.lastEnd_of_next hc).symm⟩
  | dot t he _ _ ih =>
      have hx := Entry.mem_of_mem_snoc hx hfate (by simp)
      exact .inr ((ih ho hx).resolve_left fun hloose => he hloose.1)
  | @count s r log h e c t hmark _ ih =>
      have hx := Entry.mem_of_mem_snoc hx hfate (by simp)
      have hdot : r.cursor.current.isSymbol .dot = false := by
        rw [Token.isSymbol, Token.isSymbol_iff.1 hmark]
        rfl
      refine .inr ((t.losesAt_of_dot hdot (ih ho hx)).mono (List.Subset.refl _) fun q' hq' => ?_)
      rwa [Reading.queries_append rfl]
  | owner t hname _ _ _ ih =>
      have hx := Entry.mem_of_mem_snoc hx hfate (by simp)
      have hdot := Token.isDot_of_isPlain (Token.isPlain_of_isName hname)
      exact .inr (t.losesAt_of_dot hdot (ih ho hx))
  | passage kind t hplain _ _ _ ih =>
      rcases List.mem_append.1 hx with hx | hx
      · exact .inr (t.losesAt_of_dot (Token.isDot_of_isPlain hplain) (ih ho hx))
      · obtain ⟨token, -, rfl⟩ := List.mem_map.1 hx
        cases hfate
  | @table s r r' log front log' h e e' c tbl token t hnamed t' hdraft _ _ ih ih' =>
      rw [Reading.declaring_cursor]
      simp only [List.append_assoc, List.mem_append, List.mem_cons] at hx
      rcases hx with hx | hx | rfl | hx
      · have hdot := Token.isDot_of_isPlain (Token.isPlain_of_isName hnamed.isName)
        exact .inr ((t.losesAt_of_dot hdot (ih ho hx)).declaring hdraft)
      · rcases hnamed.fate_front x hx with hplain | hplain <;> rw [hplain] at hfate <;> cases hfate
      · cases hfate
      · exact (ih' (hnamed.steps.orderly (t.steps.orderly ho)) hx).imp_right (·.declaring_behind)
  | @nested s r r' log log' h e e' c q t hselect hc t' _ hscope _ ih ih' =>
      have hone := Steps.single (Token.isEnd_of_isKeyword hselect) hc
      rcases List.mem_append.1 hx with hx | hx
      · have hdot : r.cursor.current.isSymbol .dot = false := by
          rw [Token.isSymbol, Token.isKeyword_iff.1 hselect]
          rfl
        exact .inr ((t.losesAt_of_dot hdot (ih ho hx)).leave hscope)
      · rcases List.mem_cons.1 hx with rfl | hx
        · cases hfate
        · rcases ih' (hone.orderly (t.steps.orderly ho)) hx with ⟨rfl, hlast⟩ | hr
          · exact .inl ⟨rfl, hlast⟩
          · exact .inr (hr.leave_inside hscope)
  | @attach s r log h e q t hstop ih =>
      rcases ih ho hx with ⟨rfl, hlast⟩ | hr
      · exact .inr (hlast ▸ t.losesAt_attaching ho hstop)
      · exact .inr hr.attaching
  | keep start t he ih =>
      have hr := (ih ho hx).resolve_left fun hloose => he hloose.1
      refine .inr (hr.mono (List.Subset.refl _) fun q' hq' => ?_)
      rwa [Reading.queries_append rfl]
  | drop y t _ ih =>
      refine (ih ho hx).imp_right fun hr => hr.mono (List.Subset.refl _) ?_
      rw [Expr.queries_dropped]
      exact List.Subset.refl _
  | settle t hdot ih => exact .inr (t.losesAt_of_dot hdot (ih ho hx))
  | level _ _ ih => exact ih ho hx
  | perm _ hp ih =>
      refine (ih ho hx).imp_right fun hr => hr.mono (List.Subset.refl _) ?_
      exact fun q₁ hq₁ => (Reading.mem_queries_perm hp).2 hq₁

end Trail

/-! ## Whole statements -/

/-- The queries that a statement, or a query in it, found inside kept text. -/
def Statement.attached (st : Statement) : List Query :=
  st.blocks.flatMap fun b => b.scope.subqueries

/-- A query that is attached to one that was read was read too. -/
theorem ReadBetween.attached {env : Setting} {c c' : Cursor} {log : List Entry} {q q' : Query}
    (h : ReadBetween env c log c' q) (hq' : q' ∈ q.scope.subqueries) :
    ReadBetween env c log c' q' := by
  obtain ⟨front, own, behind, r₁, r₂, rfl, hfront, hown, hbehind⟩ := h
  refine ReadBetween.later (ReadBetween.earlier hfront ?_) hbehind
  obtain ⟨c₁, log', e, hc₁, rfl, t, -⟩ := hown.trail
  have hmem : q' ∈ r₂.queries q.parts := by
    rw [Reading.queries, Query.nestedIn_append, Query.nestedIn_eq r₂.draft.subqueries]
    rw [hown.scope] at hq'
    exact List.mem_append_right _ (List.mem_flatMap.2 ⟨q', hq', List.mem_cons_self⟩)
  rcases t.readBetween q' hmem with hstart | hread
  · cases hstart
  · exact hread.cons rfl (.single (Token.isEnd_of_isKeyword hown.select) hc₁)

/-- A query that ends with an owner keeps the text that the owner ends. -/
theorem ReadBetween.not_endsOpen {env : Setting} {c c' : Cursor} {log : List Entry} {q : Query}
    (h : ReadBetween env c log c' q) (ho : c.Orderly) {x : Entry} (hx : x ∈ log) {name : String}
    (hfate : x.fate = .owner name) : ¬q.EndsOpen x.token.span.stop := by
  rintro ⟨hstop, hopen⟩
  obtain ⟨front, own, behind, r₁, r₂, rfl, hfront, hown, hbehind⟩ := h
  have ho₁ := hfront.orderly ho
  have ho₂ := hown.steps.orderly ho₁
  have hspan : q.span.stop = r₂.cursor.lastEnd := by rw [hown.span]
  rcases List.mem_append.1 hx with hx | hx
  · rcases List.mem_append.1 hx with hx | hx
    · have hlt : r₁.cursor.lastEnd < r₂.cursor.lastEnd := by
        refine hown.steps.lastEnd_lt ho₁ ?_
        obtain ⟨_, _, _, -, rfl, -, -⟩ := hown.trail
        simp
      have := hfront.stop_le ho (List.mem_map_of_mem hx)
      omega
    · obtain ⟨c₁, log', e, hc₁, rfl, t, he⟩ := hown.trail
      rcases List.mem_cons.1 hx with rfl | hx
      · cases hfate
      · have ho' := (Steps.single (Token.isEnd_of_isKeyword hown.select) hc₁).orderly ho₁
        obtain ⟨span, hmem, hend⟩ := t.kept ho' he hx hfate (by omega)
        exact hopen span (Part.mem_verbatims.2 hmem) (by omega)
  · have hstart := hbehind.start_le ho₂ (List.mem_map_of_mem hx)
    have hwide := hbehind.start_lt_stop ho₂ (List.mem_map_of_mem hx)
    have := ho₂.behind
    omega

namespace Record

variable {env : Setting} {st : Statement} {c : Cursor} {log : List Entry} {r : Reading}

theorem attached_eq (hrec : Record env st c log r) : st.attached = r.attached st.parts := by
  rw [Statement.attached, Statement.blocks, List.flatMap_cons, List.flatMap_map, hrec.nested_eq,
    hrec.scope]
  rfl

/-- A loose name is the last token of an attached query. -/
theorem endsOpen_of_loose (hrec : Record env st c log r) {x : Entry} (hx : x ∈ log)
    (hfate : x.fate = .loose) : ∃ q ∈ st.attached, q.EndsOpen x.token.span.stop := by
  obtain ⟨e, t⟩ := hrec.trail
  rw [hrec.attached_eq]
  rcases t.astray hrec.orderly hx hfate with ⟨he, -⟩ | hq
  · -- At the end of the text no `.` follows.
    have hdot := t.dot_of_loose he
    have hcurrent : r.cursor.rest.head? = some r.cursor.current := rfl
    obtain ⟨last, hend, hrest | ⟨m, hm, hrest⟩⟩ := hrec.atEnd
    · obtain rfl : last = r.cursor.current := by simpa [hrest] using hcurrent
      rw [Token.isEnd_of_isSymbol hdot] at hend
      cases hend
    · obtain rfl : m = r.cursor.current := by simpa [hrest] using hcurrent
      rw [Token.isSymbol_iff] at hdot hm
      rw [hdot] at hm
      cases hm
  · exact hq

/-- No attached query ends open at an owner. -/
theorem not_endsOpen_of_owner (hrec : Record env st c log r) {x : Entry} (hx : x ∈ log)
    {name : String} (hfate : x.fate = .owner name) {q : Query} (hq : q ∈ st.attached) :
    ¬q.EndsOpen x.token.span.stop := by
  have hread : ReadBetween env c log r.cursor q := by
    obtain ⟨b, hb, hq⟩ := List.mem_flatMap.1 hq
    rcases List.mem_cons.1 hb with rfl | hb
    · refine hrec.readBetween ?_
      rw [st.nested_eq, Query.nestedIn_append, Query.nestedIn_eq st.scope.subqueries]
      exact List.mem_append_right _ (List.mem_flatMap.2 ⟨q, hq, List.mem_cons_self⟩)
    · obtain ⟨q₁, hq₁, rfl⟩ := List.mem_map.1 hb
      exact (hrec.readBetween hq₁).attached hq
  exact hread.not_endsOpen hrec.orderly hx hfate

end Record

end SqlMarkers
