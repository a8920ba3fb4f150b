/-
SqlMarkers.Proofs.Readback.Clause — optional clauses are read back.

Clauses come in a fixed order, and each kind of clause begins with words of its own
(`Kind.clauseRank`). So a clause that is left out is known from the token in its place,
which begins a later clause or ends the statement.

`Reader.RecoversClause` puts this into one statement for all clauses: a clause of rank `rank`
is read back in front of everything of a higher rank. A query is then a chain of such
statements, and what stands in front of a clause that is left out is what stands behind it
(`rank_append`).

Locks and options come in any order and may come several times, so they are read in a loop.
They are rendered once each, the lock first, and `OptionsRead` tells how far the loop has come.
-/
import SqlMarkers.Proofs.Readback.Source
import SqlMarkers.Proofs.Shape
import SqlMarkers.Reader.Query

namespace SqlMarkers

open Glyph

/-- How late the clause comes that begins with a token of this kind. What may follow a query
comes last. -/
def Kind.clauseRank : Kind → Nat
  | .keyword .FROM => 1
  | .keyword .WHERE => 2
  | .keyword .GROUP => 3
  | .keyword .HAVING => 4
  | .keyword .ORDER => 5
  | .keyword .LIMIT | .keyword .OFFSET | .keyword .FETCH => 6
  | .keyword .FOR | .keyword .LOCK | .keyword .OPTION => 7
  | .keyword .ON | .symbol .rightParen | .endOfInput => 8
  | _ => 0

/-- Whether a token of this kind ends the entry of `ORDER BY` or `GROUP BY` in front of it. -/
def Kind.stopsOrder (k : Kind) : Bool :=
  k.stopsOperand && !List.contains [.keyword .ASC, .keyword .DESC, .keyword .NULLS] k

/-- A token that begins a clause ends whatever may stand in front of it. -/
structure Kind.EndsAll (k : Kind) : Prop where
  conditions : k.stopsConditions = true
  table : k.stopsTable = true
  order : k.stopsOrder = true
  source : k.endsSource false = true
  bareSource : k ≠ .keyword .ON → k.endsSource true = true
  ne : k ∉ [.symbol .comma, .keyword .WITH, .keyword .UNION, .keyword .INTERSECT, .keyword .EXCEPT,
    .keyword .ROW, .keyword .ROWS]

/-- The first word of a clause ends operands, items, tables, orders and conditions alike. -/
theorem Kind.endsAll_of_clauseRank {k : Kind} {n : Nat} (h : n < k.clauseRank) : k.EndsAll := by
  unfold clauseRank at h
  split at h
  all_goals first | exact absurd h (Nat.not_lt_zero n) | (constructor <;> decide)

/-- Words of different ranks are different words. -/
theorem Kind.ne_of_clauseRank {k k' : Kind} {n : Nat} (h : n < k.clauseRank)
    (h' : k'.clauseRank ≤ n) : k ≠ k' := by
  rintro rfl
  omega

/-- The glyphs make up the text of an optional clause, none if it is left out, and are read as
something with this text, in front of every later clause that `follow` admits. -/
structure Reader.RecoversClause {α : Type} (env : Setting) (depth rank : Nat) (m : Reader α)
    (text : α → String) (follow : Kind → Bool) (x : α) (gs : List Glyph) : Prop where
  spells : spell gs = (text x).toList
  trails : Trails env.dialect gs
  first : gs ≠ [] → (ahead gs).clauseRank = rank
  attains : ∀ {r hs}, rank < (ahead hs).clauseRank → follow (ahead hs) = true →
    r.At env depth (gs ++ hs) → Attains m r fun a r' => text a = text x ∧ r'.At env depth hs

namespace Reader

variable {env : Setting} {depth rank levels : Nat} {below : Below} {inner : Inner} {r : Reading}
  {gs hs : List Glyph}

namespace RecoversClause

variable {α : Type} {m : Reader α} {text : α → String} {follow : Kind → Bool} {x : α}

/-- What stands in front of a clause stands in front of it or of what follows it. -/
theorem rank_append (h : RecoversClause env depth rank m text follow x gs) {n : Nat} (hn : n < rank)
    (hhs : n < (ahead hs).clauseRank) : n < (ahead (gs ++ hs)).clauseRank := by
  by_cases hgs : gs = []
  · rw [hgs]
    exact hhs
  · rw [ahead_append hgs, h.first hgs]
    exact hn

end RecoversClause

/-- No keyword of an earlier clause stands in front of a later one. -/
theorem yields_skipKeyword_none {k : Keyword} (hat : r.At env depth hs)
    (hrank : rank < (ahead hs).clauseRank) (hk : (Kind.keyword k).clauseRank ≤ rank) :
    Yields (skipKeyword k) r false r :=
  hat.skipNone (by simpa using Kind.ne_of_clauseRank hrank hk)

/-! ## `FROM` -/

/-- The text of an optional `FROM` clause. -/
def fromText : Option (List TableSource) → String
  | some ss => " FROM " ++ Render.sources ss
  | none => ""

/-- A `FROM` clause is read back, in front of an `ON` only if its last join has conditions or
columns. -/
theorem from_recovers (hin : inner.Recovers env depth levels below) {sources : Option (List TableSource)}
    (h : sources.all (sourcesBuilt (Leaf.legible env.dialect levels) below) = true) :
    ∃ gs, RecoversClause env depth 1 (fromClause env inner) fromText
      (fun k => !((sources.getD []).getLast?.any (·.endsInBareJoin) && k == .keyword .ON))
      sources gs := by
  cases sources with
  | none =>
      refine ⟨[], rfl, .nil, fun hne => absurd rfl hne, fun {r hs} hrank _ hat => ?_⟩
      exact .after (yields_skipKeyword_none hat hrank (by decide)) (.pure ⟨rfl, hat⟩)
  | some ss =>
      obtain ⟨gs, hgs, -⟩ := sources_recover hin h
      refine ⟨spaced (word .FROM :: spaced gs), ?_,
        .clause (by cases env.dialect <;> decide) rfl hgs.leads, fun _ => rfl,
        fun {r hs} hrank hfollow hat => ?_⟩
      · rw [spell_spaced (List.cons_ne_nil _ _), spell_cons, spell_spaced hgs.nonempty, hgs.spells]
        simp [fromText]
        rfl
      · have hall := Kind.endsAll_of_clauseRank hrank
        refine (hat.unspaced.skipOneOf rfl).bind ?_
        rintro _ r₁ ⟨rfl, hat₁⟩
        have hend : ((ahead hs).endsSource (ss.getLast?.any (·.endsInBareJoin)) &&
            ahead hs != .symbol .comma) = true := by
          rw [Bool.and_eq_true, bne_iff_ne]
          refine ⟨?_, fun hcomma => hall.ne (by simp [hcomma])⟩
          simp only [Option.getD_some] at hfollow
          cases hbare : ss.getLast?.any (·.endsInBareJoin) with
          | false => exact hall.source
          | true => exact hall.bareSource (by simpa [hbare] using hfollow)
        refine (hgs.attains hend hat₁.unspaced).bind ?_
        rintro ss' r₂ ⟨hss', hat₂⟩
        exact .pure ⟨by rw [fromText, fromText, hss'], hat₂⟩

/-! ## `WHERE` and `HAVING` -/

/-- The text of the conditions behind `keyword`, if there are any. -/
def conditionText (keyword : Keyword) : Option ConditionList → String
  | some w => " " ++ keyword.spelling ++ " " ++ Render.conditionList w
  | none => ""

theorem conditionList_eq (w : ConditionList) :
    Render.conditionList w = Render.conditions w.conditions := by
  obtain ⟨cs, span⟩ := w
  rw [Render.conditionList]

theorem conditionClause_recovers (hin : inner.Recovers env depth levels below) (keyword : Keyword)
    (hplain : Plain env.dialect keyword) (hends : (Kind.keyword keyword).endsOperand = false)
    {filter : Option ConditionList}
    (h : filter.all (fun w =>
      conditionsBuilt (Leaf.legible env.dialect levels) below w.conditions) = true) :
    ∃ gs, RecoversClause env depth (Kind.keyword keyword).clauseRank
      (conditionClause env inner keyword) (conditionText keyword) (fun _ => true) filter gs := by
  cases filter with
  | none =>
      refine ⟨[], rfl, .nil, fun hne => absurd rfl hne, fun {r hs} hrank _ hat => ?_⟩
      exact .after (yields_skipKeyword_none hat hrank (Nat.le_refl _)) (.pure ⟨rfl, hat⟩)
  | some w =>
      obtain ⟨gs, hgs, -⟩ := conditions_recover hin h
      refine ⟨spaced (word keyword :: spaced gs), ?_, .clause hplain hends hgs.leads, fun _ => rfl,
        fun {r hs} hrank _ hat => ?_⟩
      · rw [spell_spaced (List.cons_ne_nil _ _), spell_cons, spell_spaced hgs.nonempty, hgs.spells,
          conditionText, conditionList_eq]
        simp
      · refine (hat.unspaced.skipOneOf (by simp)).bind ?_
        rintro _ r₁ ⟨rfl, hat₁⟩
        have hstop := (Kind.endsAll_of_clauseRank hrank).conditions
        refine .here ((hgs.attains hstop hat₁.unspaced).bind ?_)
        rintro cs' r₂ ⟨hcs', hat₂⟩
        refine .lastEnd (.pure ⟨?_, hat₂⟩)
        rw [conditionText, conditionText, conditionList_eq, conditionList_eq, hcs']

/-! ## `GROUP BY` and `ORDER BY` -/

/-- The glyphs of a direction. -/
def directionGlyphs : Option Direction → List Glyph
  | some .ascending => spaced [word .ASC]
  | some .descending => spaced [word .DESC]
  | none => []

/-- The glyphs of a place of nulls. -/
def nullsGlyphs : Option NullsPlace → List Glyph
  | some .first => spaced (word .NULLS :: spaced [word .FIRST])
  | some .last => spaced (word .NULLS :: spaced [word .LAST])
  | none => []

/-- A direction is read back where none follows it. -/
theorem attains_direction {direction : Option Direction}
    (hend : ahead hs ∉ [.keyword .ASC, .keyword .DESC])
    (hat : r.At env depth (directionGlyphs direction ++ hs)) :
    Attains optionalDirection r fun direction' r' =>
      direction' = direction ∧ r'.At env depth hs := by
  refine .current ?_
  rw [hat.kind]
  match direction with
  | some .ascending => exact hat.next.bind fun _ _ hat => .pure ⟨rfl, hat⟩
  | some .descending => exact hat.next.bind fun _ _ hat => .pure ⟨rfl, hat⟩
  | none =>
      rw [directionGlyphs, List.nil_append]
      generalize ahead hs = k at hend
      split
      · simp at hend
      · simp at hend
      · exact .pure ⟨rfl, hat⟩

theorem attains_nulls {nulls : Option NullsPlace} (hend : ahead hs ≠ .keyword .NULLS)
    (hat : r.At env depth (nullsGlyphs nulls ++ hs)) :
    Attains optionalNulls r fun nulls' r' => nulls' = nulls ∧ r'.At env depth hs := by
  have hsome : ∀ {k : Keyword} {place}, (k = .FIRST ∧ place = .first) ∨ (k = .LAST ∧ place = .last) →
      r.At env depth (spaced (word .NULLS :: spaced [word k]) ++ hs) →
      Attains optionalNulls r fun nulls' r' => nulls' = some place ∧ r'.At env depth hs := by
    intro k place hk hat
    refine (hat.unspaced.skipOneOf rfl).bind ?_
    rintro _ r₁ ⟨rfl, hat₁⟩
    refine .current ?_
    rw [hat₁.kind]
    rcases hk with ⟨rfl, rfl⟩ | ⟨rfl, rfl⟩ <;>
      exact hat₁.next.bind fun _ _ hat => .pure ⟨rfl, hat⟩
  match nulls with
  | some .first => exact hsome (.inl ⟨rfl, rfl⟩) hat
  | some .last => exact hsome (.inr ⟨rfl, rfl⟩) hat
  | none =>
      have hat : r.At env depth hs := hat
      exact .after (hat.skipNone (by simpa using hend)) (.pure ⟨rfl, hat⟩)

/-- The words behind an entry are set off by blanks. -/
theorem trails_direction (d : Dialect) (direction : Option Direction) :
    Trails d (directionGlyphs direction) := by
  match direction with
  | some .ascending => exact .word (by cases d <;> decide)
  | some .descending => exact .word (by cases d <;> decide)
  | none => exact .nil

theorem trails_nulls (d : Dialect) (nulls : Option NullsPlace) : Trails d (nullsGlyphs nulls) := by
  match nulls with
  | some .first => exact .words (by cases d <;> decide) (.word (by cases d <;> decide))
  | some .last => exact .words (by cases d <;> decide) (.word (by cases d <;> decide))
  | none => exact .nil

/-- An entry of `ORDER BY` is read back, with its direction and the place of nulls. -/
theorem orderItem_recovers (hin : inner.Admits env depth levels) {o : OrderItem}
    (h : o.isBuilt (Leaf.legible env.dialect levels) = true) :
    ∃ gs, Recovers env depth (orderItem env inner) Render.orderItem Kind.stopsOrder o gs := by
  obtain ⟨e, direction, nulls⟩ := o
  have he : e.legible env.dialect levels = true := h
  have he := expr_recovers hin he
  have htrails := (trails_direction env.dialect direction).append (trails_nulls env.dialect nulls)
  refine ⟨Glyph.ofText env.dialect (Render.expr e) ++ (directionGlyphs direction ++ nullsGlyphs nulls),
    ?_, by simp [he.nonempty], he.leads.append htrails, fun {r hs} hstop hat => ?_⟩
  · rw [spell_append, he.spells, spell_append, Render.orderItem]
    rcases direction with _ | _ | _ <;> rcases nulls with _ | _ | _ <;>
      simp [directionGlyphs, nullsGlyphs] <;> rfl
  · simp only [Kind.stopsOrder, Bool.and_eq_true, Bool.not_eq_true', List.contains_eq_mem,
      decide_eq_false_iff_not, List.mem_cons, List.not_mem_nil, or_false, not_or] at hstop
    obtain ⟨hoperand, hasc, hdesc, hnulls⟩ := hstop
    rw [List.append_assoc, List.append_assoc] at hat
    have hbehind : ahead (nullsGlyphs nulls ++ hs) ∉ [.keyword .ASC, .keyword .DESC] := by
      rcases nulls with _ | _ | _
      · simpa [nullsGlyphs] using ⟨hasc, hdesc⟩
      · simp [nullsGlyphs]
      · simp [nullsGlyphs]
    have hexpr :
        (ahead (directionGlyphs direction ++ (nullsGlyphs nulls ++ hs))).stopsOperand = true := by
      rcases direction with _ | _ | _
      · rcases nulls with _ | _ | _
        · exact hoperand
        · rfl
        · rfl
      · rfl
      · rfl
    refine (he.attains hexpr hat).bind ?_
    rintro e' r₁ ⟨he', hat₁⟩
    refine (attains_direction hbehind hat₁).bind ?_
    rintro _ r₂ ⟨rfl, hat₂⟩
    refine (attains_nulls hnulls hat₂).bind ?_
    rintro _ r₃ ⟨rfl, hat₃⟩
    refine .pure ⟨?_, hat₃⟩
    rw [Render.orderItem, Render.orderItem, he']

/-- Entries are rendered as a list with commas. -/
theorem orderClause_eq {keyword : String} {items : List OrderItem} (h : items ≠ []) :
    Render.orderClause keyword items = keyword ++ listText Render.orderItem items := by
  rw [Render.orderClause, if_neg (by simpa using h), listText]

/-- An optional clause of entries behind a word and `BY`. What is read behind the entries
finds nothing. -/
theorem byClause_recovers {m : Reader (List OrderItem)} {k : Keyword} (hk : k = .GROUP ∨ k = .ORDER)
    (hin : inner.Admits env depth levels) (rest : List OrderItem → Reader (List OrderItem))
    (hm : m = do
      if ← skipKeyword k then
        let _ ← acceptKeyword .BY
        let items ← commaSeparated (orderItem env inner)
        rest items
      else return [])
    (hrest : ∀ items {r hs}, (Kind.keyword k).clauseRank < (ahead hs).clauseRank →
      r.At env depth hs →
      Attains (rest items) r fun items' r' => items' = items ∧ r'.At env depth hs)
    {items : List OrderItem} (h : items.all (·.isBuilt (Leaf.legible env.dialect levels)) = true) :
    ∃ gs, RecoversClause env depth (Kind.keyword k).clauseRank m
      (Render.orderClause (" " ++ k.spelling ++ " BY ")) (fun _ => true) items gs := by
  subst hm
  by_cases hne : items = []
  · subst hne
    refine ⟨[], rfl, .nil, fun hne => absurd rfl hne, fun {r hs} hrank _ hat => ?_⟩
    exact .after (yields_skipKeyword_none hat hrank (Nat.le_refl _)) (.pure ⟨rfl, hat⟩)
  · rw [List.all_eq_true] at h
    obtain ⟨gs, hgs, -⟩ := list_recovers Kind.stopsOrder (fun _ => True) hne
      (fun o ho => (orderItem_recovers hin (h o ho)).imp fun _ hgs => ⟨hgs, trivial⟩) rfl
    refine ⟨spaced (word k :: spaced (word .BY :: spaced gs)), ?_, .byClause hk hgs.leads,
      fun _ => rfl, fun {r hs} hrank _ hat => ?_⟩
    · rw [spell_spaced (List.cons_ne_nil _ _), spell_cons, spell_spaced (List.cons_ne_nil _ _),
        spell_cons, spell_spaced hgs.nonempty, hgs.spells, orderClause_eq hne]
      simp
      rfl
    · have hall := Kind.endsAll_of_clauseRank hrank
      have hend : ((ahead hs).stopsOrder && ahead hs != .symbol .comma) = true := by
        rw [Bool.and_eq_true, bne_iff_ne]
        exact ⟨hall.order, fun hcomma => hall.ne (by simp [hcomma])⟩
      refine (hat.unspaced.skipOneOf (by simp)).bind ?_
      rintro _ r₁ ⟨rfl, hat₁⟩
      refine (hat₁.unspaced.accept rfl).bind fun _ r₂ hat₂ => ?_
      refine (hgs.attains hend hat₂.unspaced).bind ?_
      rintro items' r₃ ⟨hitems', hat₃⟩
      refine (hrest items' hrank hat₃).mono ?_
      rintro _ r₄ ⟨rfl, hat₄⟩
      refine ⟨?_, hat₄⟩
      rw [orderClause_eq (ne_nil_of_listText hitems' hgs.text_ne), orderClause_eq hne, hitems']

/-- No `WITH ROLLUP` is rendered behind `GROUP BY`, so none is read. -/
theorem groupBy_recovers (hin : inner.Admits env depth levels) {items : List OrderItem}
    (h : items.all (·.isBuilt (Leaf.legible env.dialect levels)) = true) :
    ∃ gs, RecoversClause env depth 3 (groupBy env inner) (Render.orderClause " GROUP BY ")
      (fun _ => true) items gs := by
  refine byClause_recovers (.inl rfl) hin (fun items => do
    let rollup ← if ← atKeyword .WITH then pure ((← peek).isKeyword .ROLLUP) else pure false
    if rollup then
      next
      next
    return items) rfl (fun items r hs hrank hat => ?_) h
  have hwith := (Kind.endsAll_of_clauseRank hrank).ne
  refine .atKeyword ?_
  rw [hat.isKeyword, beq_false_of_ne fun heq => hwith (by simp [heq])]
  exact .pure ⟨rfl, hat⟩

/-- `ORDER BY` reads nothing behind its entries. -/
theorem orderBy_recovers (hin : inner.Admits env depth levels) {items : List OrderItem}
    (h : items.all (·.isBuilt (Leaf.legible env.dialect levels)) = true) :
    ∃ gs, RecoversClause env depth 5 (orderBy env inner) (Render.orderClause " ORDER BY ")
      (fun _ => true) items gs :=
  byClause_recovers (.inr rfl) hin (fun items => return items) (by simp [orderBy])
    (fun _ _ _ _ hat => .pure ⟨rfl, hat⟩) h

/-! ## Paging -/

/-- The glyphs of a paging value. -/
def valueGlyphs (d : Dialect) (v : PagingValue) : List Glyph :=
  Glyph.ofText d (Render.pagingValue v)

/-- The glyphs of an offset behind `LIMIT n`. -/
def limitOffsetGlyphs (d : Dialect) : Option PagingValue → List Glyph
  | some o => spaced (word .OFFSET :: spaced (valueGlyphs d o))
  | none => []

/-- The glyphs of `OFFSET o ROWS`. -/
def offsetGlyphs (d : Dialect) : Option PagingValue → List Glyph
  | some o => spaced (word .OFFSET :: spaced (valueGlyphs d o ++ spaced [word .ROWS]))
  | none => []

/-- The glyphs of `FETCH NEXT n ROWS ONLY`. -/
def fetchGlyphs (d : Dialect) : Option PagingValue → List Glyph
  | some n => spaced (word .FETCH :: spaced (word .NEXT ::
      spaced (valueGlyphs d n ++ spaced (word .ROWS :: spaced [word .ONLY]))))
  | none => []

/-- A paging clause is read back as one with the same text. -/
def RecoversPaging (env : Setting) (depth : Nat) (p : Paging) (gs : List Glyph) : Prop :=
  spell gs = (" " ++ Render.paging p).toList ∧ Trails env.dialect gs ∧
    (gs ≠ [] ∧ (ahead gs).clauseRank = 6) ∧
    ∀ {r hs}, 6 < (ahead hs).clauseRank → r.At env depth (gs ++ hs) →
      Attains optionalPaging r fun p' r' =>
        (∃ p'', p' = some p'' ∧ p''.form ≠ .top ∧
          " " ++ Render.paging p'' = " " ++ Render.paging p) ∧ r'.At env depth hs

variable {v o n : PagingValue}

/-- `LIMIT n`, with an `OFFSET` behind it or not. -/
theorem limit_recovers {offset : Option PagingValue} (percent withTies : Bool)
    (hv : v.legible env.dialect = true) (ho : offset.all (·.legible env.dialect) = true) :
    ∃ gs, RecoversPaging env depth ⟨.limit, offset, some v, percent, withTies⟩ gs := by
  have hvalue := pagingValue_recovers env depth hv
  have htrails : Trails env.dialect (limitOffsetGlyphs env.dialect offset) := by
    cases offset with
    | none => exact .nil
    | some o =>
        exact .clause (by cases env.dialect <;> decide) rfl (pagingValue_recovers env depth ho).leads
  refine ⟨spaced (word .LIMIT :: spaced (valueGlyphs env.dialect v ++
    limitOffsetGlyphs env.dialect offset)), ?_,
    .clause (by cases env.dialect <;> decide) rfl (hvalue.leads.append htrails),
    ⟨by simp, rfl⟩, fun {r hs} hrank hat => ?_⟩
  · rw [spell_spaced (List.cons_ne_nil _ _), spell_cons,
      spell_spaced (by simp [valueGlyphs, hvalue.nonempty]),
      spell_append, valueGlyphs, hvalue.spells]
    cases offset with
    | none =>
        simp [limitOffsetGlyphs, Render.paging, Render.rowCount]
        rfl
    | some o =>
        have hoffset := pagingValue_recovers env depth ho
        rw [limitOffsetGlyphs, spell_spaced (List.cons_ne_nil _ _), spell_cons,
          spell_spaced (by simp [valueGlyphs, hoffset.nonempty]), valueGlyphs, hoffset.spells]
        simp [Render.paging, Render.rowCount]
        rfl
  · refine .current ?_
    rw [hat.unspaced.kind]
    refine hat.next.bind fun _ r₁ hat₁ => ?_
    have hat₁ := hat₁.unspaced
    rw [List.append_assoc] at hat₁
    refine (hvalue.attains rfl hat₁).bind ?_
    rintro v' r₂ ⟨hv', hat₂⟩
    cases offset with
    | none =>
        have hat₂ : r₂.At env depth hs := hat₂
        have hall := Kind.endsAll_of_clauseRank hrank
        refine .after (hat₂.skipNone (by simpa using fun heq => hall.ne (by simp [heq]))) ?_
        refine .after (yields_skipKeyword_none hat₂ hrank (by decide)) ?_
        refine .pure ⟨⟨_, rfl, by simp, ?_⟩, hat₂⟩
        simp only [Render.paging, Render.rowCount, hv']
    | some o =>
        have hoffset := pagingValue_recovers env depth ho
        rw [limitOffsetGlyphs] at hat₂
        refine .after (hat₂.skipNone (by rfl)) ?_
        refine (hat₂.unspaced.skipOneOf rfl).bind ?_
        rintro _ r₃ ⟨rfl, hat₃⟩
        refine (hoffset.attains rfl hat₃.unspaced).bind ?_
        rintro o' r₄ ⟨ho', hat₄⟩
        refine .pure ⟨⟨_, rfl, by simp, ?_⟩, hat₄⟩
        simp only [Render.paging, Render.rowCount, hv', ho']

/-- `LIMIT o, n`, which is told apart from the former by its comma. -/
theorem limitComma_recovers (percent withTies : Bool) (hv : v.legible env.dialect = true)
    (ho : o.legible env.dialect = true) :
    ∃ gs, RecoversPaging env depth ⟨.limitComma, some o, some v, percent, withTies⟩ gs := by
  have hvalue := pagingValue_recovers env depth hv
  have hoffset := pagingValue_recovers env depth ho
  refine ⟨spaced (word .LIMIT :: spaced (valueGlyphs env.dialect o ++
    (mark .comma :: spaced (valueGlyphs env.dialect v)))), ?_,
    .clause (by cases env.dialect <;> decide) rfl (hoffset.leads.append (.comma hvalue.leads)),
    ⟨by simp, rfl⟩, fun {r hs} hrank hat => ?_⟩
  · rw [spell_spaced (List.cons_ne_nil _ _), spell_cons, spell_spaced (by simp),
      spell_append, spell_cons, valueGlyphs, valueGlyphs, spell_spaced hvalue.nonempty,
      hvalue.spells, hoffset.spells]
    simp [Render.paging, Render.rowCount]
    rfl
  · refine .current ?_
    rw [hat.unspaced.kind]
    refine hat.next.bind fun _ r₁ hat₁ => ?_
    have hat₁ := hat₁.unspaced
    rw [List.append_assoc] at hat₁
    refine (hoffset.attains rfl hat₁).bind ?_
    rintro o' r₂ ⟨ho', hat₂⟩
    refine (hat₂.skipOneOf rfl).bind ?_
    rintro _ r₃ ⟨rfl, hat₃⟩
    refine (hvalue.attains rfl hat₃.unspaced).bind ?_
    rintro v' r₄ ⟨hv', hat₄⟩
    refine .pure ⟨⟨_, rfl, by simp, ?_⟩, hat₄⟩
    simp only [Render.paging, Render.rowCount, hv', ho']

/-- The text of an optional `OFFSET o ROWS`, with a blank in front. -/
def offsetText : Option PagingValue → String
  | some o => " OFFSET " ++ Render.pagingValue o ++ " ROWS"
  | none => ""

/-- The text of an optional `FETCH NEXT n ROWS ONLY`, with a blank in front. -/
def fetchText : Option PagingValue → String
  | some n => " FETCH NEXT " ++ Render.pagingValue n ++ " ROWS ONLY"
  | none => ""

/-- At least one of the two parts is there, so the blank in front is that of the first one. -/
theorem offsetFetch_eq {offset rowCount : Option PagingValue} (percent withTies : Bool)
    (h : offset.isSome || rowCount.isSome) :
    " " ++ Render.paging ⟨.offsetFetch, offset, rowCount, percent, withTies⟩ =
      offsetText offset ++ fetchText rowCount := by
  cases offset <;> cases rowCount
  · cases h
  all_goals
    simp [Render.paging, offsetText, fetchText, String.append_assoc]
    try rfl

/-- The offset is read first; what is read behind it is given the offset. -/
theorem attains_offsetFetch {offset : Option PagingValue} {Q : Paging → Reading → Prop}
    (ho : offset.all (·.legible env.dialect) = true) (hend : ahead hs ≠ .keyword .OFFSET)
    (hat : r.At env depth (offsetGlyphs env.dialect offset ++ hs))
    (h : ∀ offset' r', offsetText offset' = offsetText offset → offset'.isSome = offset.isSome →
      r'.At env depth hs → Attains (fetchRest offset') r' Q) :
    Attains offsetFetch r Q := by
  cases offset with
  | none =>
      have hat : r.At env depth hs := hat
      exact .after (hat.skipNone (by simpa using hend)) (h none r rfl rfl hat)
  | some o =>
      have hoffset := pagingValue_recovers env depth ho
      rw [offsetGlyphs] at hat
      refine (hat.unspaced.skipOneOf rfl).bind ?_
      rintro _ r₁ ⟨rfl, hat₁⟩
      have hat₁ := hat₁.unspaced
      rw [List.append_assoc] at hat₁
      refine (hoffset.attains rfl hat₁).bind ?_
      rintro o' r₂ ⟨ho', hat₂⟩
      refine (hat₂.unspaced.skipOneOf rfl).bind ?_
      rintro _ r₃ ⟨_, hat₃⟩
      exact h (some o') r₃ (by rw [offsetText, offsetText, ho']) rfl hat₃

/-- `FETCH` is read behind an offset, or nothing is. -/
theorem attains_fetchRest (offset : Option PagingValue) {rowCount : Option PagingValue}
    (hn : rowCount.all (·.legible env.dialect) = true) (hrank : 6 < (ahead hs).clauseRank)
    (hat : r.At env depth (fetchGlyphs env.dialect rowCount ++ hs)) :
    Attains (fetchRest offset) r fun p r' =>
      (∃ rowCount', p = ⟨.offsetFetch, offset, rowCount', false, false⟩ ∧
        fetchText rowCount' = fetchText rowCount ∧ rowCount'.isSome = rowCount.isSome) ∧
        r'.At env depth hs := by
  cases rowCount with
  | none =>
      have hat : r.At env depth hs := hat
      exact .after (yields_skipKeyword_none hat hrank (by decide))
        (.pure ⟨⟨none, rfl, rfl, rfl⟩, hat⟩)
  | some n =>
      have hcount := pagingValue_recovers env depth hn
      rw [fetchGlyphs] at hat
      refine (hat.unspaced.skipOneOf rfl).bind ?_
      rintro _ r₁ ⟨rfl, hat₁⟩
      refine (hat₁.unspaced.skipOneOf rfl).bind ?_
      rintro _ r₂ ⟨rfl, hat₂⟩
      have hat₂ := hat₂.unspaced
      rw [List.append_assoc] at hat₂
      refine (hcount.attains rfl hat₂).bind ?_
      rintro n' r₃ ⟨hn', hat₃⟩
      refine (hat₃.unspaced.skipOneOf rfl).bind ?_
      rintro _ r₄ ⟨rfl, hat₄⟩
      exact (hat₄.unspaced.accept rfl).bind fun _ r₅ hat₅ =>
        .pure ⟨⟨some n', rfl, by rw [fetchText, fetchText, hn'], rfl⟩, hat₅⟩

theorem spell_offsetGlyphs {offset : Option PagingValue}
    (ho : offset.all (·.legible env.dialect) = true) :
    spell (offsetGlyphs env.dialect offset) = (offsetText offset).toList ∧
      Trails env.dialect (offsetGlyphs env.dialect offset) := by
  cases offset with
  | none => exact ⟨rfl, .nil⟩
  | some o =>
      have hoffset := pagingValue_recovers env 0 ho
      have hrows : Trails env.dialect (spaced [word .ROWS]) := .word (by cases env.dialect <;> decide)
      refine ⟨?_, .clause (by cases env.dialect <;> decide) rfl (hoffset.leads.append hrows)⟩
      rw [offsetGlyphs, spell_spaced (List.cons_ne_nil _ _), spell_cons, spell_spaced (by simp),
        spell_append, valueGlyphs, hoffset.spells]
      simp [offsetText]
      rfl

theorem spell_fetchGlyphs {rowCount : Option PagingValue}
    (hn : rowCount.all (fun n => n.legible env.dialect && standsAnywhere (Render.pagingValue n)) =
      true) :
    spell (fetchGlyphs env.dialect rowCount) = (fetchText rowCount).toList ∧
      Trails env.dialect (fetchGlyphs env.dialect rowCount) := by
  cases rowCount with
  | none => exact ⟨rfl, .nil⟩
  | some n =>
      obtain ⟨hlegible, hstands⟩ := Bool.and_eq_true_iff.1 hn
      have hcount := pagingValue_recovers env 0 hlegible
      have honly : Trails env.dialect (spaced (word .ROWS :: spaced [word .ONLY])) :=
        .words (by cases env.dialect <;> decide) (.word (by cases env.dialect <;> decide))
      refine ⟨?_, .words (by cases env.dialect <;> decide) (.words (by cases env.dialect <;> decide)
        (.ofText (isRow_of_recovers hlegible) hstands honly))⟩
      rw [fetchGlyphs, spell_spaced (List.cons_ne_nil _ _), spell_cons,
        spell_spaced (List.cons_ne_nil _ _), spell_cons, spell_spaced (by simp), spell_append,
        valueGlyphs, hcount.spells]
      simp [fetchText]
      rfl

theorem offsetFetch_recovers {offset rowCount : Option PagingValue} (percent withTies : Bool)
    (hsome : (offset.isSome || rowCount.isSome) = true)
    (ho : offset.all (·.legible env.dialect) = true)
    (hn : rowCount.all (fun n => n.legible env.dialect && standsAnywhere (Render.pagingValue n)) =
      true) :
    ∃ gs, RecoversPaging env depth ⟨.offsetFetch, offset, rowCount, percent, withTies⟩ gs := by
  obtain ⟨hspellOffset, htrailsOffset⟩ := spell_offsetGlyphs ho
  obtain ⟨hspellFetch, htrailsFetch⟩ := spell_fetchGlyphs hn
  have hlegible : rowCount.all (·.legible env.dialect) = true := by
    cases rowCount with
    | none => rfl
    | some n => exact (Bool.and_eq_true_iff.1 hn).1
  have hne : fetchGlyphs env.dialect rowCount ≠ [] ∨ rowCount = none := by
    cases rowCount <;> simp [fetchGlyphs]
  have hfirst : offsetGlyphs env.dialect offset ++ fetchGlyphs env.dialect rowCount ≠ [] ∧
      ∀ hs, ahead (offsetGlyphs env.dialect offset ++ (fetchGlyphs env.dialect rowCount ++ hs)) ∈
        [.keyword .OFFSET, .keyword .FETCH] := by
    cases offset with
    | some o => exact ⟨by simp [offsetGlyphs], fun hs => by simp [offsetGlyphs]⟩
    | none =>
        cases rowCount with
        | some n => exact ⟨by simp [fetchGlyphs], fun hs => by simp [offsetGlyphs, fetchGlyphs]⟩
        | none => cases hsome
  refine ⟨offsetGlyphs env.dialect offset ++ fetchGlyphs env.dialect rowCount, ?_,
    htrailsOffset.append htrailsFetch, ⟨hfirst.1, ?_⟩, fun {r hs} hrank hat => ?_⟩
  · rw [offsetFetch_eq _ _ hsome, spell_append, hspellOffset, hspellFetch, String.toList_append]
  · have hmem := hfirst.2 []
    rw [List.append_nil] at hmem
    simp only [List.mem_cons, List.not_mem_nil, or_false] at hmem
    rcases hmem with hkind | hkind <;> rw [hkind] <;> rfl
  · rw [List.append_assoc] at hat
    have hrun : Attains offsetFetch r fun p' r' =>
        (p'.form ≠ .top ∧ " " ++ Render.paging p' =
          " " ++ Render.paging ⟨.offsetFetch, offset, rowCount, percent, withTies⟩) ∧
          r'.At env depth hs := by
      have hnext : ahead (fetchGlyphs env.dialect rowCount ++ hs) ≠ .keyword .OFFSET := by
        cases rowCount with
        | none => exact Kind.ne_of_clauseRank hrank (by decide)
        | some n => simp [fetchGlyphs]
      refine attains_offsetFetch ho hnext hat fun offset' r' htext hoffset hat' => ?_
      refine (attains_fetchRest offset' hlegible hrank hat').mono ?_
      rintro _ r'' ⟨⟨rowCount', rfl, htext', hcount⟩, hat''⟩
      refine ⟨⟨by simp, ?_⟩, hat''⟩
      rw [offsetFetch_eq _ _ (by rw [hoffset, hcount]; exact hsome), offsetFetch_eq _ _ hsome, htext,
        htext']
    have hread : Attains (do return some (← offsetFetch) : Reader (Option Paging)) r fun p' r' =>
        (∃ p'', p' = some p'' ∧ p''.form ≠ .top ∧ " " ++ Render.paging p'' =
          " " ++ Render.paging ⟨.offsetFetch, offset, rowCount, percent, withTies⟩) ∧
          r'.At env depth hs := by
      refine hrun.bind ?_
      rintro p' r' ⟨⟨hform, htext⟩, hat'⟩
      exact .pure ⟨⟨p', rfl, hform, htext⟩, hat'⟩
    refine .current ?_
    rw [hat.kind]
    have hmem := hfirst.2 hs
    simp only [List.mem_cons, List.not_mem_nil, or_false] at hmem
    rcases hmem with hkind | hkind <;> rw [hkind] <;> exact hread

/-- A paging clause of every form but `TOP` is read back. -/
theorem paging_recovers (depth : Nat) {p : Paging} (hform : p.form ≠ .top)
    (h : p.isBuilt (Leaf.legible env.dialect levels) = true) :
    ∃ gs, RecoversPaging env depth p gs := by
  obtain ⟨form, offset, rowCount, percent, withTies⟩ := p
  cases form with
  | limit =>
      simp only [Paging.isBuilt, Bool.and_eq_true] at h
      cases rowCount with
      | none => cases h.1
      | some v => exact limit_recovers percent withTies h.1 h.2
  | limitComma =>
      simp only [Paging.isBuilt, Bool.and_eq_true] at h
      cases rowCount with
      | none => cases h.1
      | some v =>
          cases offset with
          | none => cases h.2
          | some o => exact limitComma_recovers percent withTies h.1 h.2
  | offsetFetch =>
      simp only [Paging.isBuilt, Bool.and_eq_true] at h
      exact offsetFetch_recovers percent withTies h.1.1 h.1.2 h.2
  | top => exact absurd rfl hform

/-- An optional paging clause. `TOP` is none behind the other clauses. -/
theorem optionalPaging_recovers (depth : Nat) {paging : Option Paging}
    (h : paging.all (·.isBuilt (Leaf.legible env.dialect levels)) = true) :
    ∃ gs, RecoversClause env depth 6 optionalPaging Render.pagingClause (fun _ => true) paging gs := by
  have htext : ∀ {p : Paging}, p.form ≠ .top → Render.pagingClause (some p) = " " ++ Render.paging p :=
    fun hform => if_neg hform
  by_cases hnone : Render.pagingClause paging = ""
  · refine ⟨[], by rw [hnone]; rfl, .nil, fun hne => absurd rfl hne, fun {r hs} hrank _ hat => ?_⟩
    have hat : r.At env depth hs := hat
    refine .current ?_
    rw [hat.kind, hnone]
    generalize ahead hs = k at hrank
    split
    iterate 3 exact absurd hrank (by decide)
    exact .pure ⟨rfl, hat⟩
  · cases paging with
    | none => exact absurd rfl hnone
    | some p =>
        have hform : p.form ≠ .top := fun hform => hnone (if_pos hform)
        obtain ⟨gs, hspells, htrails, hfirst, hgs⟩ := paging_recovers depth hform h
        refine ⟨gs, ?_, htrails, fun _ => hfirst.2, fun {r hs} hrank _ hat => ?_⟩
        · rw [hspells, htext hform]
        · refine (hgs hrank hat).mono ?_
          rintro _ r' ⟨⟨p', rfl, hform', hrender⟩, hat'⟩
          refine ⟨?_, hat'⟩
          rw [htext hform', htext hform, hrender]

/-- No `TOP` is read behind the other clauses. -/
theorem optionalPaging_form {paging : Option Paging} {r' : Reading}
    (h : Yields optionalPaging r paging r') : ∀ p ∈ paging, p.form ≠ .top := by
  rintro p hp
  obtain rfl : paging = some p := hp
  have hbuilt := optionalPaging_makes r (some p) r' h
  simp only [pagingBuilt, Option.all_some, Bool.and_eq_true, bne_iff_ne] at hbuilt
  exact hbuilt.1

/-! ## Locks and options -/

/-- The glyphs of a lock. -/
def lockGlyphs : Option Lock → List Glyph
  | some .forUpdate => spaced (word .FOR :: spaced [word .UPDATE])
  | some .shareMode =>
      spaced (word .LOCK :: spaced (word .IN :: spaced (word .SHARE :: spaced [word .MODE])))
  | none => []

/-- The glyphs of `OPTION (...)`. -/
def optionGlyphs (d : Dialect) : Option String → List Glyph
  | some text => spaced (Glyph.ofText d text ++ [])
  | none => []

/-- `LOCK IN SHARE MODE` has a word that only one dialect knows. -/
theorem trails_lock {d : Dialect} {lock : Option Lock} (h : lock ≠ some .shareMode ∨ d = .mysql) :
    Trails d (lockGlyphs lock) := by
  match lock with
  | none => exact .nil
  | some .forUpdate => exact .words (by cases d <;> decide) (.word (by cases d <;> decide))
  | some .shareMode =>
      obtain rfl : d = .mysql := h.resolve_left fun h => h rfl
      exact .words (by decide) (.words (by decide) (.words (by decide) (.word (by decide))))

/-- The text of `OPTION (...)` was tested for what may stand in front of it. -/
theorem trails_option {d : Dialect} {option : Option String}
    (h : option.all (legibleOption d) = true) : Trails d (optionGlyphs d option) := by
  cases option with
  | none => exact .nil
  | some text =>
      obtain ⟨hrecovers, hstands⟩ := Bool.and_eq_true_iff.1 h
      exact .ofText (isRow_of_recovers hrecovers) hstands .nil

/-- The text of the options behind a query. -/
def optionsText (options : Option Lock × Option String) : String :=
  Render.lockClause options.1 ++
    match options.2 with
    | some text => " " ++ text
    | none => ""

theorem spell_options {d : Dialect} (lock : Option Lock) {option : Option String}
    (h : option.all (legibleOption d) = true) :
    spell (lockGlyphs lock ++ optionGlyphs d option) = (optionsText (lock, option)).toList := by
  have hlock : spell (lockGlyphs lock) = (Render.lockClause lock).toList := by
    rcases lock with _ | _ | _ <;> rfl
  rw [spell_append, hlock, optionsText, String.toList_append]
  cases option with
  | none => rfl
  | some text =>
      have hrow := isRow_of_recovers (Bool.and_eq_true_iff.1 h).1
      rw [optionGlyphs, List.append_nil, spell_spaced (ofText_ne_nil hrow), spell_ofText hrow]
      simp

/-- Nothing waits for a lock in front of a token that begins a clause. -/
theorem yields_lockWait_none (hat : r.At env depth hs) (hrank : rank < (ahead hs).clauseRank) :
    Yields lockWait r () r := by
  have hword : ∀ w, r.cursor.current.isWord w = false := by
    intro w
    rw [Token.isWord, hat.kind, beq_false_of_ne (Kind.ne_of_clauseRank hrank (Nat.zero_le _)),
      Bool.false_and]
  refine yields_bind.2 ⟨r.cursor.current, r, yields_current.2 ⟨rfl, rfl⟩, ?_⟩
  rw [hword, hword]
  rfl

/-- One round of reading the options behind a query. -/
def optionRound (env : Setting) :
    Option Lock × Option String →
      Reader (Round (Option Lock × Option String) (Option Lock × Option String)) :=
  fun (lock, option) => do
    let t ← current
    match t.kind with
    | .keyword .FOR =>
        next
        let lock ←
          match (← current).kind with
          | .keyword .UPDATE => pure Lock.forUpdate
          | .keyword .SHARE => pure Lock.shareMode
          | _ => failExpected "UPDATE or SHARE"
        next
        lockWait
        return .again (some lock, option)
    | .keyword .LOCK =>
        next
        let _ ← acceptKeyword .IN
        let _ ← acceptKeyword .SHARE
        let _ ← acceptKeyword .MODE
        return .again (some Lock.shareMode, option)
    | .keyword .OPTION =>
        if (← peek).isSymbol .leftParen then
          next
          passParentheses
          return .again (lock, some (sourceText env t.span.start (← lastEnd)))
        else return .stop (lock, option)
    | _ => return .stop (lock, option)

/-- The round in front of a lock reads it. -/
theorem optionRound_lock {lock : Lock} {option : Option String} {before : Option Lock}
    (hrank : 6 < (ahead hs).clauseRank) (hat : r.At env depth (lockGlyphs (some lock) ++ hs)) :
    Attains (optionRound env (before, option)) r fun round r' =>
      round = .again (some lock, option) ∧ r'.At env depth hs := by
  refine .current ?_
  rw [hat.kind]
  match lock with
  | .forUpdate =>
      refine hat.next.bind fun _ r₂ hat₂ => .current ?_
      rw [hat₂.unspaced.kind]
      refine hat₂.unspaced.next.bind fun _ r₃ hat₃ => ?_
      exact .after (yields_lockWait_none hat₃ hrank) (.pure ⟨rfl, hat₃⟩)
  | .shareMode =>
      refine hat.next.bind fun _ r₂ hat₂ => ?_
      refine (hat₂.unspaced.accept rfl).bind fun _ r₃ hat₃ => ?_
      refine (hat₃.unspaced.accept rfl).bind fun _ r₄ hat₄ => ?_
      refine (hat₄.unspaced.accept rfl).bind fun _ r₅ hat₅ => ?_
      exact .pure ⟨rfl, hat₅⟩

/-- `optionClause` accepts the word that a round moves over. -/
theorem attains_behindOption {α : Type} {f : String → Reader α} {Q : α → Reading → Prop}
    (hkind : r.cursor.current.kind = .keyword .OPTION) (h : Attains (optionClause env >>= f) r Q) :
    Attains (do
      next
      passParentheses
      f (sourceText env r.cursor.current.span.start (← lastEnd))) r Q := by
  have haccept : ∀ {k : Token → Reader α}, (acceptKeyword .OPTION >>= k) r =
      (next >>= fun _ => k r.cursor.current) r := by
    intro k
    have heq : acceptKeyword .OPTION r = (next >>= fun _ => pure r.cursor.current) r := by
      rw [acceptKeyword, onCursor_accept, if_pos hkind]
    simp only [bind, EStateM.bind] at heq ⊢
    rw [heq]
    cases next r <;> rfl
  simp only [optionClause, bind_assoc, pure_bind] at h
  unfold Attains Ensures at h ⊢
  rwa [haccept] at h

/-- The round in front of `OPTION (...)` reads that. -/
theorem optionRound_option {lock : Option Lock} {text : String} {before : Option String}
    (h : legibleOption env.dialect text = true)
    (hat : r.At env depth (optionGlyphs env.dialect (some text) ++ hs)) :
    Attains (optionRound env (lock, before)) r fun round r' =>
      round = .again (lock, some text) ∧ r'.At env depth hs := by
  obtain ⟨hrecovers, -⟩ := Bool.and_eq_true_iff.1 h
  obtain ⟨g, g', gs, hglyphs, hoption, hparen⟩ := exists_of_optionClause hrecovers
  have hat : r.At env depth (Glyph.ofText env.dialect text ++ hs) := by
    have hat := hat.unspaced
    rwa [List.append_nil] at hat
  have hclause := attains_optionClause hrecovers hat
  rw [hglyphs] at hat
  have hkind : r.cursor.current.kind = .keyword .OPTION := hat.kind.trans hoption
  refine .current ?_
  rw [hkind]
  refine hat.peek.bind ?_
  rintro t r₁ ⟨hpeek, rfl⟩
  rw [Token.isSymbol, hpeek, show ahead ((g' :: gs).append hs) = .symbol .leftParen from hparen]
  rw [beq_self_eq_true, if_pos rfl]
  refine attains_behindOption (f := fun text => pure (Round.again (lock, some text))) hkind
    (hclause.bind ?_)
  rintro _ r' ⟨rfl, hat'⟩
  exact .pure ⟨rfl, hat'⟩

/-- In front of what follows the query the options end. -/
theorem optionRound_stop {options : Option Lock × Option String}
    (hrank : 7 < (ahead hs).clauseRank) (hat : r.At env depth hs) :
    Yields (optionRound env options) r (.stop options) r := by
  refine yields_bind.2 ⟨r.cursor.current, r, yields_current.2 ⟨rfl, rfl⟩, ?_⟩
  rw [hat.kind]
  generalize ahead hs = k at hrank
  split
  iterate 3 exact absurd hrank (by decide)
  rfl

theorem ahead_option {text : String} (h : legibleOption env.dialect text = true) :
    ahead (optionGlyphs env.dialect (some text) ++ hs) = .keyword .OPTION := by
  obtain ⟨g, g', gs, hglyphs, hkind, -⟩ := exists_of_optionClause (Bool.and_eq_true_iff.1 h).1
  rw [optionGlyphs, hglyphs]
  exact hkind

/-- In front of what follows a query, options or none, a lock may stand. -/
theorem rank_option {option : Option String} (h : option.all (legibleOption env.dialect) = true)
    (hrank : 6 < (ahead hs).clauseRank) :
    6 < (ahead (optionGlyphs env.dialect option ++ hs)).clauseRank := by
  cases option with
  | none => exact hrank
  | some text =>
      rw [ahead_option h]
      decide

/-- How far the options behind a query were read: the lock comes first. -/
inductive OptionsRead (env : Setting) (depth : Nat) (lock : Option Lock) (option : Option String)
    (hs : List Glyph) : Option Lock × Option String → Reading → Prop
  | start {r : Reading}
      (hat : r.At env depth (lockGlyphs lock ++ (optionGlyphs env.dialect option ++ hs))) :
      OptionsRead env depth lock option hs (none, none) r
  | locked {r : Reading} (hat : r.At env depth (optionGlyphs env.dialect option ++ hs)) :
      OptionsRead env depth lock option hs (lock, none) r
  | all {r : Reading} (hat : r.At env depth hs) :
      OptionsRead env depth lock option hs (lock, option) r

/-- Each round reads what comes next, or ends. -/
theorem optionRound_meets {lock : Option Lock} {option : Option String}
    {options : Option Lock × Option String} (hoption : option.all (legibleOption env.dialect) = true)
    (hrank : 7 < (ahead hs).clauseRank) (h : OptionsRead env depth lock option hs options r) :
    Attains (optionRound env options) r fun round r' =>
      round.Meets (OptionsRead env depth lock option hs)
        (fun options r => options = (lock, option) ∧ r.At env depth hs) r' := by
  have hall : ∀ {r}, r.At env depth hs → Attains (optionRound env (lock, option)) r fun round r' =>
      round.Meets (OptionsRead env depth lock option hs)
        (fun options r => options = (lock, option) ∧ r.At env depth hs) r' :=
    fun hat => .yields (optionRound_stop hrank hat) ⟨rfl, hat⟩
  have hlocked : ∀ {r}, r.At env depth (optionGlyphs env.dialect option ++ hs) →
      Attains (optionRound env (lock, none)) r fun round r' =>
        round.Meets (OptionsRead env depth lock option hs)
          (fun options r => options = (lock, option) ∧ r.At env depth hs) r' := by
    intro r hat
    cases option with
    | none => exact hall hat
    | some text =>
        refine (optionRound_option hoption hat).mono ?_
        rintro _ r' ⟨rfl, hat'⟩
        exact .all hat'
  cases h with
  | start hat =>
      cases lock with
      | none => exact hlocked hat
      | some lock =>
          refine (optionRound_lock (rank_option hoption (by omega)) hat).mono ?_
          rintro _ r' ⟨rfl, hat'⟩
          exact .locked hat'
  | locked hat => exact hlocked hat
  | all hat => exact hall hat

/-- The lock and the options behind a query recover. -/
theorem options_recover (depth : Nat) {lock : Option Lock} {option : Option String}
    (hlock : lock ≠ some .shareMode ∨ env.dialect = .mysql)
    (hoption : option.all (legibleOption env.dialect) = true) :
    RecoversClause env depth 7 (trailingOptions env) optionsText (fun _ => true) (lock, option)
      (lockGlyphs lock ++ optionGlyphs env.dialect option) := by
  refine ⟨spell_options lock hoption, (trails_lock hlock).append (trails_option hoption),
    fun hne => ?_, fun {r hs} hrank _ hat => ?_⟩
  · rcases lock with _ | _ | _
    · cases option with
      | none => exact absurd rfl hne
      | some text =>
          have hahead : ahead (optionGlyphs env.dialect (some text) ++ []) = .keyword .OPTION :=
            ahead_option hoption
          rw [List.append_nil] at hahead
          exact congrArg Kind.clauseRank hahead
    · rfl
    · rfl
  · rw [List.append_assoc] at hat
    have hround : ∀ options r, OptionsRead env depth lock option hs options r →
        Attains (optionRound env options) r fun round r' =>
          round.Meets (OptionsRead env depth lock option hs)
            (fun options r => options = (lock, option) ∧ r.At env depth hs) r' :=
      fun _ _ => optionRound_meets hoption hrank
    refine (attains_repeating _ hround (.start hat)).mono ?_
    rintro _ r' ⟨rfl, hat'⟩
    exact ⟨rfl, hat'⟩

end Reader

end SqlMarkers
