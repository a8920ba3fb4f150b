/-
SqlMarkers.Proofs.Readback.Query — queries are read back.

A query is a select list with words in front of it, and clauses behind it. A legible query
recovers if the readers below it read back what is legible below (`Inner.Recovers`); by
induction on the height of the tower, each level of it reads back what is legible there.

`TOP` is rendered in front of the select list but is the paging of the query, so the two are
followed together: `SameTop` says that what was read for `TOP` is rendered like that paging.

The glyphs of the clauses are chosen once (`ClauseGlyphs`). What follows the query may be an
`ON`, which is harmless unless it stands right behind a bare join. For that to happen no clause
may be written behind the sources, and this is read off the text (`endsInBareJoin_eq`).
-/
import SqlMarkers.Proofs.Readback.Clause

namespace SqlMarkers

open Glyph

namespace Reader

variable {env : Setting} {depth rank levels : Nat} {below : Below} {inner : Inner} {r : Reading}
  {gs hs : List Glyph}

/-! ## In front of the select list -/

/-- Glyphs with `DISTINCT` in front, if duplicates are dropped. -/
def distinctly (distinct : Bool) (gs : List Glyph) : List Glyph :=
  if distinct then word .DISTINCT :: spaced gs else gs

/-- The text of `DISTINCT`, with a blank behind. -/
def distinctText (distinct : Bool) : String := if distinct then "DISTINCT " else ""

/-- The glyphs of `PERCENT`. -/
def percentGlyphs (percent : Bool) : List Glyph := if percent then spaced [word .PERCENT] else []

/-- The glyphs of `WITH TIES`. -/
def tiesGlyphs (withTies : Bool) : List Glyph :=
  if withTies then spaced (word .WITH :: spaced [word .TIES]) else []

/-- Glyphs with `TOP` in front, if that is the form of paging. -/
def topped (d : Dialect) (gs : List Glyph) : Option Paging → List Glyph
  | some ⟨.top, _, some n, percent, withTies⟩ =>
      word .TOP :: spaced (enclosed (valueGlyphs d n) ++
        (percentGlyphs percent ++ (tiesGlyphs withTies ++ spaced gs)))
  | _ => gs

/-- The text of a legible select item begins as an expression does. -/
theorem item_opens {x : SelectItem} (h : x.legible env.dialect levels = true) :
    (ahead (Glyph.ofText env.dialect (Render.item x))).opensExpression = true := by
  obtain ⟨x', u, u', hkind, hyields⟩ := exists_of_recovers h
  rw [← hkind]
  exact selectItem_opens hyields

/-- `DISTINCT` is read where it is written; no select item begins with such a word. -/
theorem attains_distinctness {distinct : Bool} (hne : gs ≠ [])
    (hopens : ahead gs ∉ [.keyword .ALL, .keyword .DISTINCT, .keyword .DISTINCTROW])
    (hat : r.At env depth (distinctly distinct gs ++ hs)) :
    Attains distinctness r fun distinct' r' =>
      distinct' = distinct ∧ r'.At env depth (gs ++ hs) := by
  refine .current ?_
  rw [hat.kind]
  cases distinct with
  | true => exact hat.next.bind fun _ r' hat' => .pure ⟨rfl, hat'.unspaced⟩
  | false =>
      have hat : r.At env depth (gs ++ hs) := hat
      rw [distinctly, if_neg Bool.false_ne_true, ahead_append hne]
      generalize ahead gs = k at hopens
      split
      iterate 3 simp at hopens
      exact .pure ⟨rfl, hat⟩

/-- A query is read with this for `TOP` if it is written with this paging clause. -/
def SameTop (paging top : Option Paging) : Prop :=
  (∃ p t, paging = some p ∧ top = some t ∧ p.form = .top ∧ t.form = .top ∧
    Render.paging t = Render.paging p) ∨
  ((∀ p ∈ paging, p.form ≠ .top) ∧ top = none)

/-- `WITH TIES` is read where it is written. No select item begins with `WITH`. -/
theorem attains_tiesRest {count : PagingValue} {percent withTies : Bool} (hne : gs ≠ [])
    (hopens : (ahead gs).opensExpression = true)
    (hat : r.At env depth (tiesGlyphs withTies ++ (spaced gs ++ hs))) :
    Attains (tiesRest count percent) r fun top r' =>
      top = some ⟨.top, none, some count, percent, withTies⟩ ∧ r'.At env depth (gs ++ hs) := by
  refine .atKeyword ?_
  rw [hat.isKeyword]
  cases withTies with
  | true =>
      refine hat.peek.bind ?_
      rintro t r₁ ⟨hkind, rfl⟩
      refine .after (a := true) (s := r₁) ?_ ?_
      · rw [Token.isKeyword, hkind]
        rfl
      · refine hat.next.bind fun _ r₂ hat₂ => ?_
        refine hat₂.unspaced.next.bind fun _ r₃ hat₃ => ?_
        exact .pure ⟨rfl, Reading.At.unspaced hat₃⟩
  | false =>
      have hwith : ahead (spaced gs ++ hs) ≠ .keyword .WITH := by
        rw [ahead_append (by simpa using hne), ahead_spaced]
        exact ne_of_opensExpression hopens _ rfl
      rw [tiesGlyphs, if_neg Bool.false_ne_true, List.nil_append, beq_false_of_ne hwith]
      exact .after (a := false) (s := r) rfl (.pure ⟨rfl, Reading.At.unspaced hat⟩)

/-- `PERCENT` is a name where it is not expected, so the first select item must not begin with
it. -/
theorem attains_topRest (count : PagingValue) {percent withTies : Bool} (hne : gs ≠ [])
    (hopens : (ahead gs).opensExpression = true) (hpercent : ahead gs ≠ .keyword .PERCENT)
    (hat : r.At env depth (percentGlyphs percent ++ (tiesGlyphs withTies ++ (spaced gs ++ hs)))) :
    Attains (topRest count) r fun top r' =>
      top = some ⟨.top, none, some count, percent, withTies⟩ ∧ r'.At env depth (gs ++ hs) := by
  cases percent with
  | true =>
      refine (hat.skipOneOf rfl).bind ?_
      rintro _ r₁ ⟨rfl, hat₁⟩
      exact attains_tiesRest hne hopens hat₁
  | false =>
      have hat : r.At env depth (tiesGlyphs withTies ++ (spaced gs ++ hs)) := hat
      refine .after (hat.skipNone ?_) (attains_tiesRest hne hopens hat)
      cases withTies with
      | true => rfl
      | false =>
          show [Kind.keyword .PERCENT].contains (ahead (spaced gs ++ hs)) = false
          rw [ahead_append (by simpa using hne), ahead_spaced]
          simpa using hpercent

/-- `TOP` is read back in front of a select list. -/
theorem attains_optionalTop {paging : Option Paging}
    (h : paging.all (·.isBuilt (Leaf.legible env.dialect levels)) = true)
    (hne : gs ≠ []) (hopens : (ahead gs).opensExpression = true)
    (hpercent : paging.all (fun p => p.form != .top || ahead gs != .keyword .PERCENT) = true)
    (hat : r.At env depth (topped env.dialect gs paging ++ hs)) :
    Attains (optionalTop env) r fun top r' =>
      SameTop paging top ∧ r'.At env depth (gs ++ hs) := by
  by_cases htop : ∀ p ∈ paging, p.form ≠ .top
  · have hat : r.At env depth (gs ++ hs) := by
      rcases paging with _ | ⟨_ | _ | _ | _, _, _ | n, _, _⟩ <;>
        first | exact hat | exact absurd rfl (htop _ rfl)
    unfold optionalTop
    split
    · exact .pure ⟨.inr ⟨htop, rfl⟩, hat⟩
    · have hnone : Yields (skipKeyword .TOP) r false r := by
        refine hat.skipNone ?_
        rw [ahead_append hne]
        simpa using ne_of_opensExpression hopens _ rfl
      exact .after hnone (.pure ⟨.inr ⟨htop, rfl⟩, hat⟩)
  · obtain ⟨p, rfl, hform⟩ : ∃ p, paging = some p ∧ p.form = .top := by
      simpa using htop
    obtain ⟨form, offset, rowCount, percent, withTies⟩ := p
    cases hform
    simp only [Option.all_some, Paging.isBuilt, Bool.and_eq_true] at h
    obtain ⟨hword, hcount⟩ := h
    have hdialect := Leaf.sqlserver_of_top hword
    cases rowCount with
    | none => cases hcount
    | some n =>
        have hvalue := pagingValue_recovers env depth hcount
        rw [topped] at hat
        unfold optionalTop
        rw [if_neg (by simp [hdialect])]
        refine (hat.skipOneOf rfl).bind ?_
        rintro _ r₁ ⟨rfl, hat₁⟩
        have hat₁ := hat₁.unspaced
        rw [List.append_assoc, enclosed_append] at hat₁
        refine .atSymbol ?_
        rw [hat₁.isSymbol]
        refine (hat₁.accept rfl).bind fun opening r₂ hat₂ => ?_
        refine (hvalue.attains rfl hat₂).bind ?_
        rintro n' r₃ ⟨hn', hat₃⟩
        refine (hat₃.close opening).bind fun _ r₄ hat₄ => ?_
        simp only [List.append_assoc] at hat₄
        refine .after (s := r₄) (a := n') rfl ?_
        refine Attains.mono (attains_topRest n' hne hopens ?_ hat₄) ?_
        · simpa using hpercent
        · rintro _ r₅ ⟨rfl, hat₅⟩
          refine ⟨.inl ⟨_, _, rfl, rfl, rfl, rfl, ?_⟩, hat₅⟩
          simp only [Render.paging, hn']

/-! ## The select list -/

/-- Either `TOP` is written or nothing is. -/
theorem ahead_topped (d : Dialect) (gs : List Glyph) (paging : Option Paging) :
    ahead (topped d gs paging) = .keyword .TOP ∨ topped d gs paging = gs := by
  rcases paging with _ | ⟨_ | _ | _ | _, _, _ | n, _, _⟩ <;>
    first | exact .inr rfl | exact .inl rfl

theorem topped_ne_nil {d : Dialect} {paging : Option Paging} (h : gs ≠ []) :
    topped d gs paging ≠ [] := by
  rcases paging with _ | ⟨_ | _ | _ | _, _, _ | n, _, _⟩ <;>
    first | exact h | exact List.cons_ne_nil _ _

theorem spell_topped {paging : Option Paging}
    (h : paging.all (·.isBuilt (Leaf.legible env.dialect levels)) = true)
    (hne : gs ≠ []) :
    spell (topped env.dialect gs paging) = (Render.topClause paging).toList ++ spell gs := by
  rcases paging with _ | ⟨_ | _ | _ | _, _, _ | n, percent, withTies⟩
  iterate 7 rfl
  · simp [Paging.isBuilt] at h
  · obtain ⟨-, hcount⟩ := Bool.and_eq_true_iff.1 h
    have hvalue := pagingValue_recovers env 0 hcount
    rw [topped, spell_cons, enclosed_append, spell_spaced (List.cons_ne_nil _ _), spell_cons,
      spell_append, valueGlyphs, hvalue.spells, spell_cons, spell_append, spell_append,
      spell_spaced hne]
    cases percent <;> cases withTies <;>
      simp [Render.topClause, Render.paging, percentGlyphs, tiesGlyphs] <;> rfl

/-- Behind `TOP (...)` the first item must be able to stand behind a parenthesis. -/
theorem leads_topped {paging : Option Paging}
    (h : paging.all (·.isBuilt (Leaf.legible env.dialect levels)) = true)
    (hleads : Leads env.dialect gs)
    (htrails : (∃ p ∈ paging, p.form = .top) → Trails env.dialect (spaced gs)) :
    Leads env.dialect (topped env.dialect gs paging) := by
  rcases paging with _ | ⟨_ | _ | _ | _, _, _ | n, percent, withTies⟩
  iterate 7 exact hleads
  · exact hleads
  · obtain ⟨hword, hcount⟩ := Bool.and_eq_true_iff.1 h
    have hdialect := Leaf.sqlserver_of_top hword
    have hvalue := pagingValue_recovers env 0 hcount
    have hlist := htrails ⟨_, rfl, rfl⟩
    have hties : Trails env.dialect (tiesGlyphs withTies) := by
      rw [hdialect]
      cases withTies with
      | true => exact .words (by decide) (.word (by decide))
      | false => exact .nil
    have hpercent : Trails env.dialect (percentGlyphs percent) := by
      rw [hdialect]
      cases percent with
      | true => exact .word (by decide)
      | false => exact .nil
    exact sound_clause (by rw [hdialect]; decide) rfl
      ((sound_enclosed hvalue.leads).append (hpercent.append (hties.append hlist)))

theorem spell_distinctly {distinct : Bool} (hne : gs ≠ []) :
    spell (distinctly distinct gs) = (distinctText distinct).toList ++ spell gs := by
  cases distinct with
  | false => rfl
  | true =>
      rw [distinctly, if_pos rfl, spell_cons, spell_spaced hne, distinctText, if_pos rfl]
      rfl

theorem leads_distinctly {d : Dialect} (distinct : Bool) (h : Leads d gs) :
    Leads d (distinctly distinct gs) := by
  cases distinct with
  | false => exact h
  | true => exact sound_clause (by cases d <;> decide) rfl h

/-- The glyphs of a select list, and how they begin. -/
structure RecoversItems (env : Setting) (depth : Nat) (inner : Inner) (paging : Option Paging)
    (items : List SelectItem) (gs : List Glyph) : Prop where
  recovers : Recovers env depth (commaSeparated (selectItem env inner)) (listText Render.item)
    (fun k => k.stopsItem && k != .symbol .comma) items gs
  opens : (ahead gs).opensExpression = true
  trails : (∃ p ∈ paging, p.form = .top) → Trails env.dialect (spaced gs)
  behindPercent : paging.all (fun p => p.form != .top || ahead gs != .keyword .PERCENT) = true

/-- A select list is read back, and begins as an expression does. -/
theorem items_recover (hin : inner.Admits env depth levels) {paging : Option Paging}
    {items : List SelectItem} (hne : items ≠ []) (h : items.all (·.legible env.dialect levels) = true)
    (htop : paging.all (fun p => p.form != .top || items.head?.all (·.legibleBehindTop env.dialect)) =
      true) :
    ∃ gs, RecoversItems env depth inner paging items gs := by
  rw [List.all_eq_true] at h
  obtain ⟨x, gs, tail, hhead, ⟨hgs, hlegible⟩, hgsne, htail, hrecovers⟩ :=
    commaSeparated_splits (fun _ => Kind.stopsItem)
      (fun x gs => gs = Glyph.ofText env.dialect (Render.item x) ∧
        x.legible env.dialect levels = true) hne
      (fun x hx => ⟨_, item_recovers hin (h x hx), rfl, h x hx⟩) (fun _ => rfl)
  subst hgs
  rw [hhead, Option.all_some] at htop
  have hbehind : (∃ p ∈ paging, p.form = .top) → x.legibleBehindTop env.dialect = true := by
    rintro ⟨p, hp, hform⟩
    obtain rfl : paging = some p := hp
    simpa [hform] using htop
  refine ⟨_, hrecovers.weaken fun k hk => ?_, ?_, fun hsome => ?_, ?_⟩
  · rw [Bool.and_eq_true] at hk ⊢
    refine ⟨?_, hk.2⟩
    cases items.getLast? with
    | none => rfl
    | some x => exact hk.1
  · rw [ahead_append hgsne]
    exact item_opens hlegible
  · have hstands := hbehind hsome
    rw [SelectItem.legibleBehindTop, Bool.and_eq_true] at hstands
    exact .ofText (isRow_of_recovers hlegible) hstands.1 htail
  · cases paging with
    | none => rfl
    | some p =>
        rw [Option.all_some, Bool.or_eq_true, bne_iff_ne]
        by_cases hform : p.form = .top
        · have hpercent := hbehind ⟨p, rfl, hform⟩
          rw [SelectItem.legibleBehindTop, Bool.and_eq_true] at hpercent
          rw [ahead_append hgsne]
          exact .inr hpercent.2
        · exact .inl hform

/-! ## Behind the select list -/

/-- What a query is read with behind its select list. -/
def queryClauses (env : Setting) (inner : Inner) (start : Nat) (distinct : Bool)
    (top : Option Paging) (items : List SelectItem) : Reader Query := do
  let sources ← fromClause env inner
  let filter ← conditionClause env inner .WHERE
  let groupBy ← groupBy env inner
  let having ← conditionClause env inner .HAVING
  let orderBy ← orderBy env inner
  let pagingStart ← here
  let paging ← optionalPaging
  if top.isSome && paging.isSome then failAt pagingStart .topWithPaging
  let (lock, option) ← trailingOptions env
  refuseSetOperation
  let span : Span := ⟨start, ← lastEnd⟩
  let scope := (← get).draft.finish
  return { distinct, items, sources, filter, groupBy, having, orderBy
           paging := paging <|> top, lock, option, scope, span }

/-- The text of a query behind its select list. -/
def clausesText (q : Query) : String :=
  fromText q.sources ++ (conditionText .WHERE q.filter ++
    (Render.orderClause " GROUP BY " q.groupBy ++ (conditionText .HAVING q.having ++
      (Render.orderClause " ORDER BY " q.orderBy ++ (Render.pagingClause q.paging ++
        optionsText (q.lock, q.option))))))

theorem conditionText_where (filter : Option ConditionList) :
    conditionText .WHERE filter = Render.whereClause filter := by
  cases filter <;> rfl

theorem query_text (q : Query) :
    Render.query q = "SELECT " ++ (distinctText q.distinct ++ (Render.topClause q.paging ++
      (listText Render.item q.items ++ clausesText q))) := by
  obtain ⟨distinct, items, sources, filter, groupBy, having, orderBy, paging, lock, option, _, _⟩ := q
  rw [Render.query.eq_def, clausesText, conditionText_where]
  simp only [String.append_assoc]
  cases having <;> rfl

/-- The first token behind an optional clause is its own, or nothing is written for it. -/
theorem RecoversClause.text_eq_empty {α : Type} {m : Reader α} {text : α → String}
    {follow : Kind → Bool} {x : α} (h : RecoversClause env depth rank m text follow x gs)
    (hrank : (ahead (gs ++ hs)).clauseRank ≠ rank) :
    text x = "" ∧ ahead (gs ++ hs) = ahead hs := by
  have hnil : gs = [] := by
    by_contra hne
    rw [ahead_append hne] at hrank
    exact hrank (h.first hne)
  subst hnil
  exact ⟨String.toList_inj.1 h.spells.symm, rfl⟩

/-- What may follow a query comes behind all of its clauses. -/
theorem endsQuery_rank {bare : Bool} {k : Kind} (h : k.endsQuery bare = true) :
    k.clauseRank = 8 := by
  unfold Kind.endsQuery at h
  split at h
  · rfl
  · rfl
  · rfl
  · cases h

/-- A paging clause behind the other clauses does not go with `TOP`. -/
theorem pagings_of_text {paging paging' top : Option Paging} (hsame : SameTop paging top)
    (htext : Render.pagingClause paging' = Render.pagingClause paging)
    (hform : ∀ p ∈ paging', p.form ≠ .top) :
    (top.isSome && paging'.isSome) = false ∧
      Render.pagingClause (paging' <|> top) = Render.pagingClause paging ∧
      Render.topClause (paging' <|> top) = Render.topClause paging := by
  rcases hsame with ⟨p, t, rfl, rfl, hp, ht, hrender⟩ | ⟨hnone, rfl⟩
  · cases paging' with
    | none => simp [Render.pagingClause, Render.topClause, hp, ht, hrender]
    | some p' => simp [Render.pagingClause, hp, hform p' rfl] at htext
  · cases paging' with
    | none =>
        cases paging with
        | none => simp
        | some p => simp [Render.pagingClause, hnone p rfl] at htext
    | some p' =>
        refine ⟨rfl, htext, ?_⟩
        cases paging with
        | none => simp [Render.topClause, hform p' rfl]
        | some p => simp [Render.topClause, hform p' rfl, hnone p rfl]

/-- A clause without text is left out. -/
theorem filter_isNone {k : Keyword} {filter : Option ConditionList}
    (h : conditionText k filter = "") : filter.isNone = true := by
  cases filter with
  | none => rfl
  | some w => simp [conditionText, ← String.toList_inj] at h

theorem items_isEmpty {c : Char} {keyword : List Char} {items : List OrderItem}
    (h : Render.orderClause (String.ofList (c :: keyword)) items = "") : items.isEmpty = true := by
  by_contra hne
  rw [Render.orderClause, if_neg hne] at h
  simp [← String.toList_inj] at h

theorem paging_isTop {paging : Option Paging} (h : Render.pagingClause paging = "") :
    paging.all (·.form == .top) = true := by
  cases paging with
  | none => rfl
  | some p =>
      by_contra hform
      rw [Option.all_some, beq_iff_eq] at hform
      simp [Render.pagingClause, hform, ← String.toList_inj] at h

theorem options_isNone {lock : Option Lock} {option : Option String}
    (h : optionsText (lock, option) = "") : lock.isNone = true ∧ option.isNone = true := by
  cases option with
  | some text =>
      rw [optionsText, ← String.toList_inj] at h
      simp at h
  | none =>
      rcases lock with _ | _ | _ <;>
        first | exact ⟨rfl, rfl⟩ | simp [optionsText, Render.lockClause] at h

/-- No set operation starts at a token that may follow a query. -/
theorem yields_noSetOperation (hat : r.At env depth hs) (hrank : (ahead hs).clauseRank = 8) :
    Yields refuseSetOperation r () r := by
  refine yields_bind.2 ⟨r.cursor.current, r, yields_current.2 ⟨rfl, rfl⟩, ?_⟩
  rw [hat.kind]
  generalize ahead hs = k at hrank
  split
  iterate 3 cases hrank
  rfl

/-- The glyphs of the clauses of a query. -/
structure ClauseGlyphs where
  sources : List Glyph
  filter : List Glyph
  groupBy : List Glyph
  having : List Glyph
  orderBy : List Glyph
  paging : List Glyph
  options : List Glyph

namespace ClauseGlyphs

/-- All of the glyphs behind `FROM` and its sources. -/
def later (g : ClauseGlyphs) : List Glyph :=
  g.filter ++ (g.groupBy ++ (g.having ++ (g.orderBy ++ (g.paging ++ g.options))))

end ClauseGlyphs

/-- The glyphs are those of the clauses of the query, and each clause recovers. -/
structure RecoversClauses (env : Setting) (depth : Nat) (inner : Inner) (q : Query)
    (g : ClauseGlyphs) : Prop where
  sources : RecoversClause env depth 1 (fromClause env inner) fromText
    (fun k => !((q.sources.getD []).getLast?.any (·.endsInBareJoin) && k == .keyword .ON)) q.sources
    g.sources
  filter : RecoversClause env depth 2 (conditionClause env inner .WHERE) (conditionText .WHERE)
    (fun _ => true) q.filter g.filter
  groupBy : RecoversClause env depth 3 (groupBy env inner) (Render.orderClause " GROUP BY ")
    (fun _ => true) q.groupBy g.groupBy
  having : RecoversClause env depth 4 (conditionClause env inner .HAVING) (conditionText .HAVING)
    (fun _ => true) q.having g.having
  orderBy : RecoversClause env depth 5 (orderBy env inner) (Render.orderClause " ORDER BY ")
    (fun _ => true) q.orderBy g.orderBy
  paging : RecoversClause env depth 6 optionalPaging Render.pagingClause (fun _ => true) q.paging
    g.paging
  options : RecoversClause env depth 7 (trailingOptions env) optionsText (fun _ => true)
    (q.lock, q.option) g.options

theorem clauses_recover (hin : inner.Recovers env depth levels below) {q : Query}
    (h : q.isBuilt (Leaf.legible env.dialect levels) below = true) :
    ∃ g, RecoversClauses env depth inner q g := by
  simp only [Query.isBuilt, Bool.and_eq_true] at h
  obtain ⟨⟨⟨⟨⟨⟨⟨⟨-, hsources⟩, hfilter⟩, hgroup⟩, hhaving⟩, horder⟩, hpaging⟩, hlock⟩, hoption⟩ := h
  obtain ⟨sources, hsources⟩ := from_recovers hin hsources
  obtain ⟨filter, hfilter⟩ := conditionClause_recovers hin .WHERE
    (by cases env.dialect <;> decide) rfl hfilter
  obtain ⟨group, hgroup⟩ := groupBy_recovers hin.admits hgroup
  obtain ⟨having, hhaving⟩ := conditionClause_recovers hin .HAVING
    (by cases env.dialect <;> decide) rfl hhaving
  obtain ⟨order, horder⟩ := orderBy_recovers hin.admits horder
  have hlegible : q.paging.all (·.isBuilt (Leaf.legible env.dialect levels)) = true := by
    cases hp : q.paging with
    | none => rfl
    | some p =>
        rw [hp] at hpaging
        exact (Bool.and_eq_true_iff.1 hpaging).1
  obtain ⟨paging, hpaging⟩ := optionalPaging_recovers depth hlegible
  have hlock : q.lock ≠ some .shareMode ∨ env.dialect = .mysql := by
    rw [Bool.or_eq_true, bne_iff_ne] at hlock
    exact hlock.imp_right (Leaf.mysql_of_word (by decide))
  exact ⟨⟨sources, filter, group, having, order, paging, _⟩, hsources, hfilter, hgroup, hhaving,
    horder, hpaging, options_recover depth hlock hoption⟩

namespace RecoversClauses

variable {q : Query} {g : ClauseGlyphs} (h : RecoversClauses env depth inner q g)
include h

theorem spells : spell (g.sources ++ g.later) = (clausesText q).toList := by
  simp only [ClauseGlyphs.later, spell_append, h.sources.spells, h.filter.spells, h.groupBy.spells,
    h.having.spells, h.orderBy.spells, h.paging.spells, h.options.spells, clausesText,
    String.toList_append]

/-- Each clause begins with a blank, so all of them can stand behind any token. -/
theorem trails : Trails env.dialect (g.sources ++ g.later) :=
  h.sources.trails.append (h.filter.trails.append (h.groupBy.trails.append (h.having.trails.append
    (h.orderBy.trails.append (h.paging.trails.append h.options.trails)))))

/-- What stands behind the sources is the first clause that is written, or what follows the
query. -/
theorem later_rank (hhs : (ahead hs).clauseRank = 8) : 1 < (ahead (g.later ++ hs)).clauseRank := by
  simp only [ClauseGlyphs.later, List.append_assoc]
  refine h.filter.rank_append (by decide) (h.groupBy.rank_append (by decide)
    (h.having.rank_append (by decide) (h.orderBy.rank_append (by decide)
      (h.paging.rank_append (by decide) (h.options.rank_append (by decide) ?_)))))
  rw [hhs]
  decide

/-- If what follows the query stands behind the sources, no other clause is written. -/
theorem endsInBareJoin_eq (hrank : (ahead (g.later ++ hs)).clauseRank = 8) :
    ahead (g.later ++ hs) = ahead hs ∧
      q.endsInBareJoin = (q.sources.getD []).getLast?.any (·.endsInBareJoin) := by
  simp only [ClauseGlyphs.later, List.append_assoc] at hrank ⊢
  obtain ⟨hfilter, heq⟩ := h.filter.text_eq_empty (ne_of_eq_of_ne hrank (by decide))
  rw [heq] at hrank ⊢
  obtain ⟨hgroup, heq⟩ := h.groupBy.text_eq_empty (ne_of_eq_of_ne hrank (by decide))
  rw [heq] at hrank ⊢
  obtain ⟨hhaving, heq⟩ := h.having.text_eq_empty (ne_of_eq_of_ne hrank (by decide))
  rw [heq] at hrank ⊢
  obtain ⟨horder, heq⟩ := h.orderBy.text_eq_empty (ne_of_eq_of_ne hrank (by decide))
  rw [heq] at hrank ⊢
  obtain ⟨hpaging, heq⟩ := h.paging.text_eq_empty (ne_of_eq_of_ne hrank (by decide))
  rw [heq] at hrank ⊢
  obtain ⟨hoptions, heq⟩ := h.options.text_eq_empty (ne_of_eq_of_ne hrank (by decide))
  refine ⟨heq, ?_⟩
  rw [Query.endsInBareJoin, filter_isNone hfilter, items_isEmpty hgroup, filter_isNone hhaving,
    items_isEmpty horder, paging_isTop hpaging, (options_isNone hoptions).1,
    (options_isNone hoptions).2]
  rfl

/-- The clauses are read one by one. -/
theorem attains {start : Nat} {distinct : Bool} {top : Option Paging} {items : List SelectItem}
    (hend : (ahead hs).endsQuery q.endsInBareJoin = true) (htop : SameTop q.paging top)
    (hat : r.At env depth (g.sources ++ (g.later ++ hs))) :
    Attains (queryClauses env inner start distinct top items) r fun q' r' =>
      (q'.distinct = distinct ∧ q'.items = items ∧
        Render.topClause q'.paging = Render.topClause q.paging ∧ clausesText q' = clausesText q) ∧
        r'.At env depth hs := by
  have hhs := endsQuery_rank hend
  have hfollow : (!((q.sources.getD []).getLast?.any (·.endsInBareJoin) &&
      ahead (g.later ++ hs) == .keyword .ON)) = true := by
    by_cases hon : ahead (g.later ++ hs) = .keyword .ON
    · obtain ⟨heq, hbare⟩ := h.endsInBareJoin_eq (by rw [hon]; rfl)
      rw [← heq, hon, hbare] at hend
      rw [hon, beq_self_eq_true, Bool.and_true]
      exact hend
    · rw [beq_false_of_ne hon, Bool.and_false]
      rfl
  have hrank := h.later_rank hhs
  simp only [ClauseGlyphs.later, List.append_assoc] at hfollow hrank hat
  have hoptions : 6 < (ahead (g.options ++ hs)).clauseRank :=
    h.options.rank_append (by decide) (by omega)
  have hpaging : 5 < (ahead (g.paging ++ (g.options ++ hs))).clauseRank :=
    h.paging.rank_append (by decide) (by omega)
  have horder : 4 < (ahead (g.orderBy ++ (g.paging ++ (g.options ++ hs)))).clauseRank :=
    h.orderBy.rank_append (by decide) (by omega)
  have hhaving : 3 < (ahead (g.having ++ (g.orderBy ++ (g.paging ++ (g.options ++ hs))))).clauseRank :=
    h.having.rank_append (by decide) (by omega)
  have hgroup : 2 < (ahead (g.groupBy ++ (g.having ++ (g.orderBy ++ (g.paging ++
      (g.options ++ hs)))))).clauseRank :=
    h.groupBy.rank_append (by decide) (by omega)
  refine (h.sources.attains hrank hfollow hat).bind ?_
  rintro sources r₁ ⟨hsources', hat₁⟩
  refine (h.filter.attains hgroup rfl hat₁).bind ?_
  rintro filter r₂ ⟨hfilter', hat₂⟩
  refine (h.groupBy.attains hhaving rfl hat₂).bind ?_
  rintro groupBy r₃ ⟨hgroup', hat₃⟩
  refine (h.having.attains horder rfl hat₃).bind ?_
  rintro having r₄ ⟨hhaving', hat₄⟩
  refine (h.orderBy.attains hpaging rfl hat₄).bind ?_
  rintro orderBy r₅ ⟨horder', hat₅⟩
  refine .here ((h.paging.attains hoptions rfl hat₅).withYields.bind ?_)
  rintro paging r₆ ⟨⟨hpaging', hat₆⟩, hyields⟩
  obtain ⟨halone, hclause, htopClause⟩ :=
    pagings_of_text htop hpaging' (optionalPaging_form hyields)
  rw [halone, if_neg Bool.false_ne_true]
  refine (h.options.attains (by omega) rfl hat₆).bind ?_
  rintro ⟨lock, option⟩ r₇ ⟨hoptions', hat₇⟩
  refine .after (yields_noSetOperation hat₇ hhs) ?_
  refine .lastEnd (.get (.pure ⟨⟨rfl, rfl, htopClause, ?_⟩, hat₇⟩))
  simp only [clausesText, hsources', hfilter', hgroup', hhaving', horder', hclause,
    hoptions']

end RecoversClauses

/-! ## The query -/

/-- The list that is topped begins with `TOP` or with an expression. -/
theorem ahead_topped_ne {paging : Option Paging} (hopens : (ahead gs).opensExpression = true)
    {k : Kind} (hk : k.opensExpression = false) (hktop : k ≠ .keyword .TOP) :
    ahead (topped env.dialect gs paging) ≠ k := by
  rcases ahead_topped env.dialect gs paging with htop | hnone
  · rw [htop]
    exact hktop.symm
  · rw [hnone]
    exact ne_of_opensExpression hopens k hk

/-- No option is rendered in front of a select list, so none is read. -/
theorem yields_noSelectOptions {paging : Option Paging} (hne : gs ≠ [])
    (hopens : (ahead gs).opensExpression = true)
    (hat : r.At env depth (topped env.dialect gs paging ++ hs)) :
    Yields (skipKeywords selectOptions) r () r := by
  refine hat.skipWhile ?_
  rw [ahead_append (topped_ne_nil hne)]
  have hall : ∀ k ∈ selectOptions.map Kind.keyword, k.opensExpression = false ∧ k ≠ .keyword .TOP := by
    decide
  rw [← Bool.not_eq_true, List.contains_iff_mem]
  intro hmem
  obtain ⟨hk, hktop⟩ := hall _ hmem
  exact ahead_topped_ne hopens hk hktop rfl

/-- A legible query recovers in front of what may follow it. -/
theorem query_recovers (hin : inner.Recovers env depth levels below) {q : Query}
    (h : q.isBuilt (Leaf.legible env.dialect levels) below = true) :
    ∃ gs, Recovers env depth (query env inner) Render.query (Kind.endsQuery q.endsInBareJoin) q gs ∧
      ahead gs = .keyword .SELECT ∧ Trails env.dialect (spaced gs) := by
  obtain ⟨g, hg⟩ := clauses_recover hin h
  simp only [Query.isBuilt, Bool.and_eq_true, Bool.not_eq_true', List.isEmpty_eq_false_iff] at h
  obtain ⟨⟨⟨⟨⟨⟨⟨⟨⟨hne, hitems⟩, -⟩, -⟩, -⟩, -⟩, -⟩, hpaging⟩, -⟩, -⟩ := h
  obtain ⟨hpaging, htop⟩ : q.paging.all (·.isBuilt (Leaf.legible env.dialect levels)) = true ∧
      q.paging.all (fun p => p.form != .top || q.items.head?.all (·.legibleBehindTop env.dialect)) =
        true := by
    cases hp : q.paging with
    | none => exact ⟨rfl, rfl⟩
    | some p =>
        rw [hp] at hpaging
        exact Bool.and_eq_true_iff.1 hpaging
  obtain ⟨items, hlist⟩ := items_recover hin.admits hne hitems htop
  have hlistne := hlist.recovers.nonempty
  have hleads := (leads_distinctly q.distinct
    (leads_topped hpaging hlist.recovers.leads hlist.trails)).append hg.trails
  have hplain : Plain env.dialect .SELECT := by cases env.dialect <;> decide
  refine ⟨word .SELECT :: spaced (distinctly q.distinct (topped env.dialect items q.paging) ++
    (g.sources ++ g.later)), ⟨?_, List.cons_ne_nil _ _, sound_clause hplain rfl hleads,
      fun {r hs} hend hat => ?_⟩, rfl, .clause hplain rfl hleads⟩
  · have hdistinct : distinctly q.distinct (topped env.dialect items q.paging) ≠ [] := by
      rw [distinctly]
      split
      · exact List.cons_ne_nil _ _
      · exact topped_ne_nil hlistne
    rw [spell_cons, spell_spaced (by simp [hdistinct]), spell_append, hg.spells,
      spell_distinctly (topped_ne_nil hlistne), spell_topped hpaging hlistne, hlist.recovers.spells,
      query_text]
    simp only [String.toList_append, List.append_assoc]
    rfl
  · refine .here ((hat.accept rfl).bind fun _ r₁ hat₁ => ?_)
    have hat₁ := hat₁.unspaced
    rw [List.append_assoc, List.append_assoc] at hat₁
    have hwords : ahead (topped env.dialect items q.paging) ∉
        [.keyword .ALL, .keyword .DISTINCT, .keyword .DISTINCTROW] := by
      simp only [List.mem_cons, List.not_mem_nil, or_false, not_or]
      exact ⟨ahead_topped_ne hlist.opens rfl (by decide), ahead_topped_ne hlist.opens rfl (by decide),
        ahead_topped_ne hlist.opens rfl (by decide)⟩
    refine (attains_distinctness (topped_ne_nil hlistne) hwords hat₁).bind ?_
    rintro distinct r₂ ⟨rfl, hat₂⟩
    suffices hrest : Attains (do
        let top ← optionalTop env
        let items ← commaSeparated (selectItem env inner)
        queryClauses env inner r.cursor.current.span.start q.distinct top items) r₂
        fun q' r' => Render.query q' = Render.query q ∧ r'.At env depth hs by
      dsimp only
      split
      · exact .after (yields_noSelectOptions hlistne hlist.opens hat₂) hrest
      · exact hrest
    refine (attains_optionalTop hpaging hlistne hlist.opens hlist.behindPercent hat₂).bind ?_
    rintro top r₃ ⟨hsame, hat₃⟩
    have hitem : ((ahead (g.sources ++ (g.later ++ hs))).stopsItem &&
        ahead (g.sources ++ (g.later ++ hs)) != .symbol .comma) = true := by
      have hfirst := hg.sources.rank_append (n := 0) (by decide)
        (Nat.lt_of_succ_lt (hg.later_rank (endsQuery_rank hend)))
      have hall := Kind.endsAll_of_clauseRank hfirst
      have hstop := hall.conditions
      rw [Kind.stopsConditions, Bool.and_eq_true] at hstop
      rw [Bool.and_eq_true, bne_iff_ne]
      exact ⟨stopsItem_of_stopsPredicate hstop.1, fun heq => hall.ne (by simp [heq])⟩
    refine (hlist.recovers.attains hitem hat₃).bind ?_
    rintro items' r₄ ⟨hitems', hat₄⟩
    refine (hg.attains hend hsame hat₄).mono ?_
    rintro q' r₅ ⟨⟨hdistinct, hitems, htopClause, hclauses⟩, hat₅⟩
    refine ⟨?_, hat₅⟩
    rw [query_text, query_text, hdistinct, htopClause, hitems, hitems', hclauses]

end Reader

/-! ## The tower of readers -/

/-- The readers that may nest `m` levels deeper read back what is legible down to that. -/
theorem Inner.recovers_upTo {env : Setting} {n m depth : Nat} (hn : n ≤ m)
    (h : depth + n ≤ env.limit) :
    (Inner.upTo env m).Recovers env depth n (.upTo (Leaf.legible env.dialect) n) := by
  induction n generalizing m depth with
  | zero =>
      exact ⟨Inner.admits_zero env depth _, fun _ h => absurd h Bool.false_ne_true,
        fun _ h => absurd h Bool.false_ne_true, fun _ h => absurd h Bool.false_ne_true,
        fun _ h => absurd h Bool.false_ne_true⟩
  | succ n ih =>
      have hadmits := Inner.admits_upTo hn h
      obtain ⟨m, rfl⟩ : ∃ m', m = m' + 1 := ⟨m - 1, by omega⟩
      have hin : (Inner.upTo env m).Recovers env (depth + 1) n
          (.upTo (Leaf.legible env.dialect) n) :=
        ih (Nat.le_of_succ_le_succ hn) (by omega)
      have hdepth : depth < env.limit := by omega
      refine ⟨hadmits, fun q hq => ?_, fun p hp => ?_, fun cs hcs => ?_, fun ss hss => ?_⟩
      · obtain ⟨gs, hgs, hfirst⟩ := Reader.query_recovers hin hq
        exact ⟨gs, hgs.nested hdepth, hfirst⟩
      · obtain ⟨gs, hgs, hfirst⟩ := Reader.predicate_recovers hin hp
        exact ⟨gs, hgs.nested hdepth, hfirst⟩
      · obtain ⟨gs, hne, hgs, hfirst⟩ := Reader.enclosed_recovers hin hcs
        exact ⟨gs, hne, hgs.nested hdepth, hfirst⟩
      · obtain ⟨gs, hgs, hfirst⟩ := Reader.sources_recover hin hss
        refine ⟨gs, (hgs.weaken fun k hk => ?_).nested hdepth, hfirst⟩
        obtain rfl : k = .symbol .rightParen := by simpa using hk
        cases ss.getLast?.any (·.endsInBareJoin) <;> rfl

end SqlMarkers
