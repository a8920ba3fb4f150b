/-
SqlMarkers.Proofs.Parameters — `?` are numbered in the order of the text.

Every `?` of a statement counts, wherever it stands, unless it is part of a hint
(`countedMarks`). The count goes on through nested queries and through text that is
kept as it is, so that

* the number of parameters is the number of `?` that count;
* the index of a placeholder is the number of `?` in front of it;
* a query has counted the `?` up to its end.

The log of the reading tells which `?` were counted (`Entry.questions`). `Numbering`
states the last two points for the placeholders and queries read so far, and
`Trail.numbering` is the induction. A placeholder that is read and then becomes part
of a kept text is counted like any other, but it is no placeholder of the tree.
-/
import Mathlib.Data.List.Count
import Mathlib.Data.List.Perm.Subperm
import SqlMarkers.Proofs.Levels
import SqlMarkers.Proofs.Markers

namespace SqlMarkers

/-! ## Placeholders -/

/-- A `?` that the tree keeps. -/
structure Placeholder where
  index : Nat
  span : Span
deriving DecidableEq, Repr

/-- The placeholders among parts. -/
def Part.placeholders (parts : List Part) : List Placeholder :=
  parts.filterMap fun
    | .placeholder index span => some ⟨index, span⟩
    | _ => none

/-- Every placeholder of a statement and of the queries in it. -/
def Statement.keptPlaceholders (st : Statement) : List Placeholder :=
  st.levels.flatMap fun l => Part.placeholders l.parts

/-- The placeholders read so far with `h` in hand. -/
def Reading.placeholders (r : Reading) (h : List Part) : List Placeholder :=
  Part.placeholders h ++ (r.queries h).flatMap fun q => Part.placeholders q.parts

namespace Part

variable (as bs : List Part)

@[simp] theorem placeholders_nil : placeholders [] = [] := rfl

@[simp] theorem placeholders_append :
    placeholders (as ++ bs) = placeholders as ++ placeholders bs :=
  List.filterMap_append

@[simp] theorem placeholders_cons_query (q : Query) :
    placeholders (.query q :: as) = placeholders as := rfl

@[simp] theorem placeholders_cons_table (t : Table) :
    placeholders (.table t :: as) = placeholders as := rfl

@[simp] theorem placeholders_cons_placeholder (i : Nat) (s : Span) :
    placeholders (.placeholder i s :: as) = ⟨i, s⟩ :: placeholders as := rfl

@[simp] theorem placeholders_cons_verbatim (s : Span) :
    placeholders (.verbatim s :: as) = placeholders as := rfl

end Part

namespace Reading

variable {r r' : Reading} {h h' : List Part} {q : Query}

theorem placeholders_congr (hsub : r'.draft.subqueries = r.draft.subqueries) :
    r'.placeholders h = r.placeholders h := by
  rw [placeholders, queries_congr hsub]
  rfl

/-- Parts without queries add their own placeholders. -/
theorem placeholders_append (hnone : Part.queries h' = []) :
    (r.placeholders (h ++ h')).Perm (r.placeholders h ++ Part.placeholders h') := by
  rw [placeholders, queries_append hnone, Part.placeholders_append, placeholders,
    List.append_assoc, List.append_assoc]
  exact List.perm_append_comm.append_left _

/-- Parts without queries and placeholders add none. -/
theorem placeholders_append_of_nil (hnone : Part.queries h' = [])
    (hnone' : Part.placeholders h' = []) : r.placeholders (h ++ h') = r.placeholders h := by
  rw [placeholders, queries_append hnone, Part.placeholders_append, hnone', List.append_nil]
  rfl

theorem placeholders_perm (hp : h.Perm h') : (r.placeholders h').Perm (r.placeholders h) := by
  have hqueries : (r.queries h').Perm (r.queries h) := by
    rw [queries, queries, Query.nestedIn_eq, Query.nestedIn_eq]
    exact ((hp.symm.filterMap _).append_right _).flatMap_right _
  exact (hp.symm.filterMap _).append (hqueries.flatMap_right _)

theorem placeholders_attaching :
    ((r.attaching q).placeholders h).Perm (r.placeholders (h ++ [.query q])) := by
  rw [List.perm_iff_count]
  intro a
  simp only [placeholders, queries, attaching, Part.placeholders_append,
    Part.placeholders_cons_query, Part.placeholders_nil, Part.queries_append,
    Part.queries_cons_query, Part.queries_nil, Query.nestedIn_append, List.flatMap_append,
    List.count_append, List.append_nil]
  omega

/-- A nested query adds its placeholders and those of the queries in it. -/
theorem placeholders_leave (hscope : q.scope = r'.draft.finish) :
    ((r.leave r' q).placeholders (h ++ [.query q])).Perm
      (r.placeholders h ++ r'.placeholders q.parts) := by
  have hsub : q.scope.subqueries = r'.draft.subqueries := by
    rw [hscope]
    rfl
  rw [List.perm_iff_count]
  intro a
  simp only [placeholders, queries, leave, Part.placeholders_append,
    Part.placeholders_cons_query, Part.placeholders_nil, Part.queries_append,
    Part.queries_cons_query, Part.queries_nil, Query.nestedIn_append, Query.nestedIn_singleton,
    List.flatMap_append, List.flatMap_cons, List.count_append, List.append_nil, q.nested_eq, hsub]
  omega

end Reading

/-! ## Counting -/

namespace Token

variable {ts us : List Token} {n m : Nat}

/-- The number of tokens that start before `n`. -/
def countBefore (ts : List Token) (n : Nat) : Nat :=
  ts.countP fun t => decide (t.span.start < n)

theorem countBefore_append : countBefore (ts ++ us) n = countBefore ts n + countBefore us n :=
  List.countP_append

theorem countBefore_eq_zero (h : ∀ t ∈ ts, n ≤ t.span.start) : countBefore ts n = 0 := by
  refine List.countP_eq_zero.2 fun t ht => ?_
  simpa using h t ht

theorem countBefore_eq_length (h : ∀ t ∈ ts, t.span.start < n) : countBefore ts n = ts.length := by
  refine List.countP_eq_length.2 fun t ht => ?_
  simpa using h t ht

/-- A token that starts at `n` or later is not counted. -/
theorem countBefore_lt_length {t : Token} (ht : t ∈ ts) (hn : n ≤ t.span.start) :
    countBefore ts n < ts.length := by
  rw [countBefore, List.countP_lt_length_iff]
  exact ⟨t, ht, by simpa using hn⟩

/-- A token between `n` and `m` makes a difference. -/
theorem countBefore_lt_countBefore {t : Token} (ht : t ∈ ts) (hn : n ≤ t.span.start)
    (hm : t.span.start < m) : countBefore ts n < countBefore ts m := by
  obtain ⟨before, after, rfl⟩ := List.append_of_mem ht
  have hle : ∀ us : List Token, countBefore us n ≤ countBefore us m := by
    intro us
    refine List.countP_mono_left fun u _ hu => ?_
    simp only [decide_eq_true_eq] at hu ⊢
    omega
  have hbefore := hle before
  have hafter := hle after
  have hleft : countBefore [t] n = 0 := countBefore_eq_zero (by simpa using hn)
  have hright : countBefore [t] m = 1 := countBefore_eq_length (by simpa using hm)
  rw [List.append_cons, countBefore_append, countBefore_append, countBefore_append,
    countBefore_append, hleft, hright]
  omega

end Token

/-- The `?` of a log that were counted. -/
def Entry.questions (log : List Entry) : List Token :=
  (log.filter fun x => decide (x.fate = .counted)).map Entry.token

namespace Entry

variable {log log' : List Entry}

@[simp] theorem questions_nil : questions [] = [] := rfl

@[simp] theorem questions_append : questions (log ++ log') = questions log ++ questions log' := by
  simp [questions]

@[simp] theorem questions_passed (ts : List Token) : questions (ts.map (⟨·, .passed⟩)) = [] := by
  simp [questions]

theorem questions_cons_of_ne {x : Entry} (hx : x.fate ≠ .counted) :
    questions (x :: log) = questions log := by
  simp [questions, hx]

theorem questions_counted (t : Token) : questions [⟨t, .counted⟩] = [t] := rfl

theorem mem_of_mem_questions {t : Token} (ht : t ∈ questions log) : t ∈ log.map Entry.token := by
  obtain ⟨x, hx, rfl⟩ := List.mem_map.1 ht
  exact List.mem_map_of_mem (List.mem_filter.1 hx).1

end Entry

theorem Named.questions_front {c c' : Cursor} {schema : Option String} {front : List Entry}
    {token : Token} (h : Named c schema front token c') : Entry.questions front = [] := by
  cases h <;> rfl

/-- The count goes up by the `?` of the log. -/
theorem Trail.parameters_eq {env : Setting} {s r : Reading} {log : List Entry} {h : List Part}
    {e : Edge} (t : Trail env s log h e r) :
    r.draft.parameters = s.draft.parameters + (Entry.questions log).length := by
  induction t with
  | start s => rfl
  | pass _ _ _ _ ih | slip _ _ _ _ ih | dot _ _ _ _ ih | owner _ _ _ _ _ ih =>
      rw [Entry.questions_append, Entry.questions_cons_of_ne (by simp), Entry.questions_nil,
        List.append_nil]
      exact ih
  | count _ _ _ ih =>
      rw [Entry.questions_append, Entry.questions_counted, List.length_append, ← Nat.add_assoc]
      exact congrArg (· + 1) ih
  | passage kind _ _ _ _ _ ih => simpa using ih
  | @table s r r' log front log' h e e' c tbl token _ hnamed _ hdraft _ _ ih ih' =>
      -- Behind the name nothing is counted, since the draft stays as it was.
      have hnone : (Entry.questions log').length = 0 := by
        rw [hdraft, Reading.moved_draft] at ih'
        omega
      have hparameters :
          (r'.declaring env tbl token).draft.parameters = r'.draft.parameters := by
        unfold Reading.declaring
        split <;> rfl
      rw [hparameters, hdraft, ih, Entry.questions_append, Entry.questions_append,
        hnamed.questions_front, Entry.questions_cons_of_ne (by simp), List.append_nil,
        List.length_append, hnone, Nat.add_zero]
  | @nested s r r' log log' h e e' c q _ _ _ _ _ hscope _ ih ih' =>
      have hleave : (r.leave r' q).draft.parameters = r'.draft.parameters := by
        change q.scope.parameters = _
        rw [hscope]
        rfl
      have henter : (r.enter.moved c).draft.parameters = r.draft.parameters := rfl
      rw [hleave, ih', henter, ih, Entry.questions_append, Entry.questions_cons_of_ne (by simp),
        List.length_append, Nat.add_assoc]
  | attach _ _ ih => exact ih
  | keep _ _ _ ih => exact ih
  | drop _ _ _ ih => exact ih
  | settle _ _ ih => exact ih
  | level _ _ ih => exact ih
  | perm _ _ ih => exact ih

/-! ## Numbering -/

/-- Placeholders and queries are numbered by the `?` in `marks`, from `n` on. -/
structure Numbering (n : Nat) (ps : List Placeholder) (qs : List Query) (marks : List Token) :
    Prop where
  index : ∀ p ∈ ps, p.index = n + Token.countBefore marks p.span.start
  stands : ∀ p ∈ ps, ∃ t ∈ marks, t.span = p.span
  scope : ∀ q ∈ qs, q.scope.parameters = n + Token.countBefore marks q.span.stop
  distinct : (ps.map Placeholder.index).Nodup

namespace Numbering

variable {n : Nat} {ps ps' : List Placeholder} {qs qs' : List Query} {marks marks' : List Token}

theorem nil : Numbering n [] [] marks where
  index := by simp
  stands := by simp
  scope := by simp
  distinct := List.nodup_nil

theorem mono (hn : Numbering n ps qs marks) (hps : ps'.Subperm ps) (hqs : ∀ q ∈ qs', q ∈ qs) :
    Numbering n ps' qs' marks where
  index p hp := hn.index p (hps.subset hp)
  stands p hp := hn.stands p (hps.subset hp)
  scope q hq := hn.scope q (hqs q hq)
  distinct := by
    obtain ⟨l, hperm, hsub⟩ := hps
    exact (hperm.map _).nodup_iff.1 (hn.distinct.sublist (hsub.map _))

/-- Later `?` change nothing. -/
theorem append (hn : Numbering n ps qs marks)
    (hmarks : ∀ a ∈ marks, ∀ b ∈ marks', a.span.start < b.span.start)
    (hstop : ∀ q ∈ qs, ∀ b ∈ marks', q.span.stop ≤ b.span.start) :
    Numbering n ps qs (marks ++ marks') where
  index p hp := by
    obtain ⟨a, ha, hspan⟩ := hn.stands p hp
    have hnone : Token.countBefore marks' p.span.start = 0 := by
      refine Token.countBefore_eq_zero fun b hb => ?_
      rw [← hspan]
      exact Nat.le_of_lt (hmarks a ha b hb)
    rw [Token.countBefore_append, hnone]
    exact hn.index p hp
  stands p hp := by
    obtain ⟨a, ha, hspan⟩ := hn.stands p hp
    exact ⟨a, List.mem_append_left _ ha, hspan⟩
  scope q hq := by
    rw [Token.countBefore_append, Token.countBefore_eq_zero (hstop q hq)]
    exact hn.scope q hq
  distinct := hn.distinct

/-- Earlier `?` are part of what the numbering starts from. -/
theorem prepend (hn : Numbering (n + marks.length) ps qs marks')
    (hmarks : ∀ a ∈ marks, ∀ b ∈ marks', a.span.start < b.span.start)
    (hstop : ∀ q ∈ qs, ∀ a ∈ marks, a.span.start < q.span.stop) :
    Numbering n ps qs (marks ++ marks') where
  index p hp := by
    obtain ⟨b, hb, hspan⟩ := hn.stands p hp
    have hall : Token.countBefore marks p.span.start = marks.length := by
      refine Token.countBefore_eq_length fun a ha => ?_
      rw [← hspan]
      exact hmarks a ha b hb
    rw [Token.countBefore_append, hall, ← Nat.add_assoc]
    exact hn.index p hp
  stands p hp := by
    obtain ⟨b, hb, hspan⟩ := hn.stands p hp
    exact ⟨b, List.mem_append_right _ hb, hspan⟩
  scope q hq := by
    rw [Token.countBefore_append, Token.countBefore_eq_length (hstop q hq), ← Nat.add_assoc]
    exact hn.scope q hq
  distinct := hn.distinct

/-- Two numberings whose indices lie apart. -/
theorem union (hn : Numbering n ps qs marks) (hn' : Numbering n ps' qs' marks) {m : Nat}
    (hbelow : ∀ p ∈ ps, p.index < m) (habove : ∀ p ∈ ps', m ≤ p.index) :
    Numbering n (ps ++ ps') (qs ++ qs') marks where
  index := List.forall_mem_append.2 ⟨hn.index, hn'.index⟩
  stands := List.forall_mem_append.2 ⟨hn.stands, hn'.stands⟩
  scope := List.forall_mem_append.2 ⟨hn.scope, hn'.scope⟩
  distinct := by
    rw [List.map_append]
    refine List.nodup_append.2 ⟨hn.distinct, hn'.distinct, ?_⟩
    intro i hi j hj
    obtain ⟨p, hp, rfl⟩ := List.mem_map.1 hi
    obtain ⟨p', hp', rfl⟩ := List.mem_map.1 hj
    have := hbelow p hp
    have := habove p' hp'
    omega

theorem index_lt (hn : Numbering n ps qs marks) {p : Placeholder} (hp : p ∈ ps) :
    p.index < n + marks.length := by
  obtain ⟨t, ht, hspan⟩ := hn.stands p hp
  have hlt := Token.countBefore_lt_length ht (Nat.le_refl t.span.start)
  rw [hn.index p hp, ← hspan]
  omega

/-- Indices ascend in the order of the text. -/
theorem index_lt_index (hn : Numbering n ps qs marks) {p p' : Placeholder} (hp : p ∈ ps)
    (hp' : p' ∈ ps) (hlt : p.span.start < p'.span.start) : p.index < p'.index := by
  obtain ⟨t, ht, hspan⟩ := hn.stands p hp
  have hstart : t.span.start = p.span.start := by rw [hspan]
  have hcount := Token.countBefore_lt_countBefore ht (n := p.span.start) (m := p'.span.start)
    (by omega) (by omega)
  rw [hn.index p hp, hn.index p' hp']
  omega

end Numbering

section Trail

variable {env : Setting} {s r : Reading} {log log' : List Entry} {h : List Part} {e : Edge}

/-- The `?` of a log come before those of what follows it. -/
theorem Trail.questions_lt (t : Trail env s log h e r) (ho : s.cursor.Orderly) {c : Cursor}
    (hsteps : Steps r.cursor (log'.map Entry.token) c) :
    ∀ a ∈ Entry.questions log, ∀ b ∈ Entry.questions log', a.span.start < b.span.start := by
  intro a ha b hb
  have ho₁ := t.steps.orderly ho
  have hstop := t.steps.stop_le ho (Entry.mem_of_mem_questions ha)
  have hwide := t.steps.start_lt_stop ho (Entry.mem_of_mem_questions ha)
  have hstart := hsteps.start_le ho₁ (Entry.mem_of_mem_questions hb)
  have hbehind := ho₁.behind
  omega

/-- What was numbered stays so when more tokens are read. -/
theorem Trail.numbering_later (t : Trail env s log h e r) (ho : s.cursor.Orderly)
    (hs : s.queries [] = []) {n : Nat}
    (hn : Numbering n (r.placeholders h) (r.queries h) (Entry.questions log)) {c : Cursor}
    (hsteps : Steps r.cursor (log'.map Entry.token) c) :
    Numbering n (r.placeholders h) (r.queries h) (Entry.questions (log ++ log')) := by
  rw [Entry.questions_append]
  refine hn.append (t.questions_lt ho hsteps) fun q hq b hb => ?_
  have ho₁ := t.steps.orderly ho
  have hwithin := t.query_within ho hs hq
  have hstart := hsteps.start_le ho₁ (Entry.mem_of_mem_questions hb)
  have hbehind := ho₁.behind
  omega

/-- A nested query goes on with the count. -/
theorem Trail.numbering_nested {r' : Reading} {e' : Edge} {c : Cursor} {q : Query}
    (t : Trail env s log h e r) (ho : s.cursor.Orderly)
    (hselect : r.cursor.current.isKeyword .SELECT = true)
    (hc : Yields Cursor.next r.cursor () c) (t' : Trail env (r.enter.moved c) log' q.parts e' r')
    (hscope : q.scope = r'.draft.finish)
    (hspan : q.span = ⟨r.cursor.current.span.start, r'.cursor.lastEnd⟩)
    (hn : Numbering r.draft.parameters (r'.placeholders q.parts) (r'.queries q.parts)
      (Entry.questions log')) :
    Numbering s.draft.parameters (r'.placeholders q.parts) (q :: r'.queries q.parts)
      (Entry.questions (log ++ ⟨r.cursor.current, .plain⟩ :: log')) := by
  have hone := Steps.single (Token.isEnd_of_isKeyword hselect) hc
  have ho₁ := t.steps.orderly ho
  have ho₂ := hone.orderly ho₁
  have hbehind := ho₁.behind
  have hcurrent := hone.current_le ho₁
  rw [Entry.questions_append, Entry.questions_cons_of_ne (by simp)]
  -- The query itself is counted up to its end.
  have hq : Numbering r.draft.parameters (r'.placeholders q.parts) (q :: r'.queries q.parts)
      (Entry.questions log') := by
    refine ⟨hn.index, hn.stands, List.forall_mem_cons.2 ⟨?_, hn.scope⟩, hn.distinct⟩
    rw [hspan, Token.countBefore_eq_length, hscope]
    · exact t'.parameters_eq
    · intro b hb
      have hwide := t'.steps.start_lt_stop ho₂ (Entry.mem_of_mem_questions hb)
      have hstop := t'.steps.stop_le ho₂ (Entry.mem_of_mem_questions hb)
      dsimp only
      omega
  rw [t.parameters_eq] at hq
  have hsteps : Steps r.cursor
      (List.map Entry.token (⟨r.cursor.current, .plain⟩ :: log')) r'.cursor :=
    hone.trans t'.steps
  have hall := t.questions_lt ho hsteps
  rw [Entry.questions_cons_of_ne (by simp)] at hall
  refine hq.prepend hall ?_
  intro q' hq' a ha
  have hwide := t.steps.start_lt_stop ho (Entry.mem_of_mem_questions ha)
  have hstop := t.steps.stop_le ho (Entry.mem_of_mem_questions ha)
  rcases List.mem_cons.1 hq' with rfl | hq'
  · have hlast := hsteps.lastEnd_le ho₁
    rw [hspan]
    dsimp only
    omega
  · have hwithin := t'.query_within ho₂ rfl hq'
    simp only [Reading.moved_cursor] at hwithin
    omega

/-- Placeholders and queries are numbered in the order of the text. -/
theorem Trail.numbering (t : Trail env s log h e r) (ho : s.cursor.Orderly)
    (hs : s.queries [] = []) :
    Numbering s.draft.parameters (r.placeholders h) (r.queries h) (Entry.questions log) := by
  induction t with
  | start s =>
      rw [Reading.placeholders, hs]
      exact .nil
  | pass t hplain hc _ ih =>
      exact t.numbering_later ho hs (ih ho hs) (.single (Token.isEnd_of_isPlain hplain) hc)
  | slip t hname hc _ ih | owner t hname _ hc _ ih =>
      exact t.numbering_later ho hs (ih ho hs) (.single (Token.isEnd_of_isName hname) hc)
  | dot t _ hmark hc ih =>
      exact t.numbering_later ho hs (ih ho hs) (.single (Token.isEnd_of_isSymbol hmark) hc)
  | @count s r log h e c t hmark hc ih =>
      have hone : Steps r.cursor (List.map Entry.token [⟨r.cursor.current, .counted⟩]) c :=
        .single (Token.isEnd_of_isSymbol hmark) hc
      have hold := t.numbering_later ho hs (ih ho hs) hone
      have hbefore := t.questions_lt ho hone
      have hnew : Numbering s.draft.parameters
          [⟨r.draft.parameters, r.cursor.current.span⟩] []
          (Entry.questions (log ++ [⟨r.cursor.current, .counted⟩])) := by
        rw [Entry.questions_append, Entry.questions_counted]
        refine Numbering.prepend ?_ hbefore (by simp)
        refine ⟨?_, ?_, by simp, List.nodup_singleton _⟩
        · simp [t.parameters_eq, Token.countBefore]
        · simp
      have hall := hold.union hnew (m := r.draft.parameters)
        (fun p hp => by
          rw [t.parameters_eq]
          exact (ih ho hs).index_lt hp)
        (by simp)
      refine hall.mono (Reading.placeholders_append rfl).subperm fun q hq => ?_
      rw [Reading.queries_append rfl] at hq
      exact List.mem_append_left _ hq
  | @passage s r log h e c ts kind t _ _ hsteps _ ih =>
      have hpassed : Steps r.cursor (List.map Entry.token (ts.map (⟨·, .passed⟩))) c := by
        rw [Entry.map_token_passed]
        exact hsteps
      exact t.numbering_later ho hs (ih ho hs) hpassed
  | @table s r r' log front log' h e e' c tbl token t hnamed t' hdraft _ _ ih _ =>
      have hsub : (r'.declaring env tbl token).draft.subqueries = r.draft.subqueries := by
        rw [Reading.declaring_subqueries, hdraft]
      have hsteps : Steps r.cursor
          ((front ++ ⟨token, .table tbl⟩ :: log').map Entry.token) r'.cursor := by
        simpa using hnamed.steps.trans t'.steps
      have hold := t.numbering_later ho hs (ih ho hs) hsteps
      rw [List.append_assoc]
      rw [Reading.placeholders_append_of_nil rfl rfl, Reading.placeholders_congr hsub,
        Reading.queries_append rfl, Reading.queries_congr hsub]
      exact hold
  | @nested s r r' log log' h e e' c q t hselect hc t' _ hscope hspan ih ih' =>
      have hone := Steps.single (Token.isEnd_of_isKeyword hselect) hc
      have ho₂ := hone.orderly (t.steps.orderly ho)
      have hinner : Numbering r.draft.parameters _ _ _ := ih' ho₂ rfl
      have hsteps : Steps r.cursor
          (List.map Entry.token (⟨r.cursor.current, .plain⟩ :: log')) r'.cursor :=
        hone.trans t'.steps
      have hold := t.numbering_later ho hs (ih ho hs) hsteps
      have hnew := t.numbering_nested ho hselect hc t' hscope hspan hinner
      have hall := hold.union hnew (m := r.draft.parameters)
        (fun p hp => by
          rw [t.parameters_eq]
          exact (ih ho hs).index_lt hp)
        (fun p hp => by
          rw [hinner.index p hp]
          exact Nat.le_add_right _ _)
      refine hall.mono (Reading.placeholders_leave hscope).subperm fun q' hq' => ?_
      rw [List.mem_append, List.mem_cons]
      exact (Reading.mem_queries_leave hscope).1 hq'
  | attach _ _ ih =>
      exact (ih ho hs).mono Reading.placeholders_attaching.subperm
        fun q hq => Reading.mem_queries_attaching.1 hq
  | keep _ _ _ ih =>
      rw [Reading.placeholders_append_of_nil rfl rfl, Reading.queries_append rfl]
      exact ih ho hs
  | drop x _ _ ih =>
      refine (ih ho hs).mono ?_ fun q hq => ?_
      · refine List.Subperm.trans ?_ (Reading.placeholders_append x.queries_parts).symm.subperm
        exact (List.sublist_append_left _ _).subperm
      · rwa [Expr.queries_dropped]
  | settle _ _ ih => exact ih ho hs
  | level _ _ ih => exact ih ho hs
  | perm _ hp ih =>
      exact (ih ho hs).mono (Reading.placeholders_perm hp).subperm
        fun q hq => (Reading.mem_queries_perm hp).1 hq

end Trail

/-! ## Whole statements -/

/-- A token is part of a hint. -/
def Token.InHint (passages : List Passage) (t : Token) : Prop :=
  ∃ p ∈ passages, p.kind = .hint ∧ t.span.Within p.span

instance (passages : List Passage) (t : Token) : Decidable (t.InHint passages) :=
  inferInstanceAs (Decidable (∃ p ∈ passages, p.kind = .hint ∧ t.span.Within p.span))

/-- The `?` of a text that are not part of a hint. -/
def countedMarks (tokens : List Token) (passages : List Passage) : List Token :=
  tokens.filter fun t => t.isSymbol .question && !decide (t.InHint passages)

/-- A statement is numbered by the `?` in `marks`. -/
structure Statement.NumberedBy (st : Statement) (marks : List Token) : Prop where
  total : st.parameterCount = marks.length
  /-- The index of a placeholder is the number of `?` in front of it. -/
  index : ∀ p ∈ st.keptPlaceholders, p.index = Token.countBefore marks p.span.start
  /-- A placeholder stands at a `?` that counts. -/
  stands : ∀ p ∈ st.keptPlaceholders, ∃ t ∈ marks, t.span = p.span
  /-- A query has counted the `?` in front of its end. -/
  scope : ∀ q ∈ st.nested, q.scope.parameters = Token.countBefore marks q.span.stop
  distinct : (st.keptPlaceholders.map Placeholder.index).Nodup
  /-- Indices ascend in the order of the text. -/
  ascending : ∀ p ∈ st.keptPlaceholders, ∀ p' ∈ st.keptPlaceholders,
    p.span.start < p'.span.start → p.index < p'.index
  below : ∀ p ∈ st.keptPlaceholders, p.index < st.parameterCount

namespace Record

variable {env : Setting} {st : Statement} {c : Cursor} {log : List Entry} {r : Reading}

/-- A `?` is counted if and only if it is not part of a hint. -/
theorem counted_iff (hrec : Record env st c log r) {x : Entry} (hx : x ∈ log) :
    x.fate = .counted ↔ x.token.isSymbol .question = true ∧ ¬x.token.InHint r.passages := by
  obtain ⟨e, t⟩ := hrec.trail
  have hfits := t.fits x hx
  have hpassed := hrec.passed_iff hx
  have hname : x.token.isName = true → x.token.isSymbol .question = false :=
    fun hname => Token.isQuestion_of_isPlain (Token.isPlain_of_isName hname)
  obtain ⟨token, fate⟩ := x
  cases fate with
  | counted =>
      refine iff_of_true rfl ⟨hfits, ?_⟩
      rintro ⟨p, hp, -, hin⟩
      cases hpassed.2 ⟨p, hp, hin⟩
  | plain => exact iff_of_false (by simp) fun hmark => by cases hfits.symm.trans hmark.1
  | owner _ | loose | schema =>
      exact iff_of_false (by simp) fun hmark => by cases (hname hfits).symm.trans hmark.1
  | table _ => exact iff_of_false (by simp) fun hmark => by cases (hname hfits.1).symm.trans hmark.1
  | passed =>
      refine iff_of_false (by simp) fun ⟨hmark, hhint⟩ => ?_
      obtain ⟨p, hp, hin⟩ := hpassed.1 rfl
      have hplain := hrec.surveyed.isPlain p hp (fun hkind => hhint ⟨p, hp, hkind, hin⟩) _ hx hin
      cases (Token.isQuestion_of_isPlain hplain).symm.trans hmark

/-- The `?` that are not part of a hint are those of the log. -/
theorem countedMarks_eq (hrec : Record env st c log r) :
    countedMarks (TokenStream.ofText env.dialect env.source).tokens r.passages =
      Entry.questions log := by
  have hlog : (log.map Entry.token).filter
      (fun t => t.isSymbol .question && !decide (t.InHint r.passages)) = Entry.questions log := by
    rw [List.filter_map, Entry.questions]
    congr 1
    refine List.filter_congr fun x hx => ?_
    rw [Bool.eq_iff_iff]
    simpa using (hrec.counted_iff hx).symm
  -- Behind the log there is a `;` at most.
  have hrest : ∀ t ∈ r.cursor.rest, t.isSymbol .question = false := by
    obtain ⟨last, hend, hrest | ⟨m, hm, hrest⟩⟩ := hrec.atEnd
    · rw [hrest]
      simp [Token.isSymbol, Token.isEnd_iff.1 hend]
    · rw [hrest]
      simp [Token.isSymbol, Token.isEnd_iff.1 hend, Token.isSymbol_iff.1 hm]
  rw [countedMarks, hrec.tokens_eq, List.filter_append, hlog]
  refine (congrArg _ (List.filter_eq_nil_iff.2 fun t ht => ?_)).trans (List.append_nil _)
  simp [hrest t ht]

theorem numberedBy (hrec : Record env st c log r) :
    st.NumberedBy
      (countedMarks (TokenStream.ofText env.dialect env.source).tokens r.passages) := by
  rw [hrec.countedMarks_eq]
  obtain ⟨e, t⟩ := hrec.trail
  have hplaceholders : st.keptPlaceholders = r.placeholders st.parts := by
    rw [Statement.keptPlaceholders, Statement.levels, List.flatMap_cons, List.flatMap_map,
      hrec.nested_eq]
    rfl
  have htotal : st.parameterCount = (Entry.questions log).length := by
    rw [Statement.parameterCount, hrec.scope]
    exact t.parameters_eq.trans (Nat.zero_add _)
  have hn := t.numbering hrec.orderly rfl
  rw [← hplaceholders, ← hrec.nested_eq] at hn
  refine ⟨htotal, fun p hp => ?_, hn.stands, fun q hq => ?_, hn.distinct, ?_, fun p hp => ?_⟩
  · exact (hn.index p hp).trans (Nat.zero_add _)
  · exact (hn.scope q hq).trans (Nat.zero_add _)
  · exact fun p hp p' hp' => hn.index_lt_index hp hp'
  · rw [htotal]
    exact Nat.lt_of_lt_of_eq (hn.index_lt hp) (Nat.zero_add _)

end Record

/-! ## Parameters of a parsed statement -/

/-- The `?` of a parsed statement are numbered in the order of the text. -/
theorem numberedBy_of_parse {config : Config} {catalogue : Catalogue} {source : String}
    {p : Parsed} (h : parse config catalogue source = .ok p) :
    ∃ tokens r, tokenize config.dialect source = .ok tokens ∧
      (config.setting catalogue source).run = .ok (p.statement, r) ∧
      p.statement.NumberedBy (countedMarks tokens r.passages) := by
  obtain ⟨-, -, r, hrun⟩ := parse_ok h
  obtain ⟨c, log, r₁, hrec, hpassages⟩ := Setting.exists_record hrun
  refine ⟨_, r, hrec.tokenize_eq, hrun, ?_⟩
  rw [hpassages]
  exact hrec.numberedBy

/-- A `?` in a hint, one in a kept text and one in a nested query. -/
theorem numberedBy_select : ∃ (p : Parsed) (tokens : List Token) (r : Reading),
    parse { dialect := .mysql } Catalogue.everyName
        "SELECT ? FROM t USE KEY (?) WHERE f(?) IN (SELECT a FROM u LIMIT ?)" = .ok p ∧
      tokenize .mysql
        "SELECT ? FROM t USE KEY (?) WHERE f(?) IN (SELECT a FROM u LIMIT ?)" = .ok tokens ∧
      (Config.setting { dialect := .mysql } Catalogue.everyName
        "SELECT ? FROM t USE KEY (?) WHERE f(?) IN (SELECT a FROM u LIMIT ?)").run =
          .ok (p.statement, r) ∧
      p.statement.keptPlaceholders = [⟨0, ⟨7, 8⟩⟩, ⟨2, ⟨65, 66⟩⟩] ∧
      ((countedMarks tokens r.passages).map fun t => t.span.start) = [7, 36, 65] ∧
      p.statement.NumberedBy (countedMarks tokens r.passages) := by
  obtain ⟨⟨st, r⟩, hrun, hkept, hcheck⟩ : ∃ result,
      (Config.setting { dialect := .mysql } Catalogue.everyName
        "SELECT ? FROM t USE KEY (?) WHERE f(?) IN (SELECT a FROM u LIMIT ?)").run =
          .ok result ∧
        result.1.keptPlaceholders = [⟨0, ⟨7, 8⟩⟩, ⟨2, ⟨65, 66⟩⟩] ∧
        (tokenize .mysql
          "SELECT ? FROM t USE KEY (?) WHERE f(?) IN (SELECT a FROM u LIMIT ?)").toOption.any
            (fun tokens => decide (
              ((countedMarks tokens result.2.passages).map fun t => t.span.start) =
                [7, 36, 65])) = true :=
    exists_of_any (by decide +kernel)
  obtain ⟨tokens, htokens, hmarks⟩ := exists_of_any hcheck
  have hparse := parse_of_run hrun
  obtain ⟨tokens', r', htokens', hrun', hnumbered⟩ := numberedBy_of_parse hparse
  obtain rfl := Except.ok.inj (htokens.symm.trans htokens')
  obtain ⟨-, rfl⟩ := Prod.mk.inj (Except.ok.inj (hrun.symm.trans hrun'))
  exact ⟨_, tokens, r, hparse, htokens, hrun, hkept, hmarks, hnumbered⟩

end SqlMarkers
