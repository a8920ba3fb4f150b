/-
SqlMarkers.Proofs.Landing.Source — where tables and joins land.

A table sits at its name. Between the name and its declaration the reader goes
over an alias and hints, and the scope stays what it was before the name; so the
table stands behind all tables declared before it (`declare_lands`).

Joins and sources sit one behind the other in the place they were read from. The loops that
read them keep this of the list so far, and one more at its end keeps it too
(`Join.SitIn.snoc`, `TableSource.SitIn.snoc`).
-/
import SqlMarkers.Proofs.Landing.Condition

namespace SqlMarkers

variable {env : Setting} {inner : Inner} {lo : Nat} {s r r' : Reading}

theorem Join.SitIn.snoc {pg : Page} {b : Span} {js : List Join} {j : Join}
    (h : Join.SitIn pg b js) (hj : Join.SitIn pg b [j]) : Join.SitIn pg b (js ++ [j]) := by
  induction js with
  | nil => exact hj
  | cons k js ih =>
      obtain ⟨_, _, _, _, _⟩ := k
      exact ⟨h.1, h.2.1, ih h.2.2⟩

theorem TableSource.SitIn.snoc {pg : Page} {b : Span} {ss : List TableSource} {s : TableSource}
    (h : TableSource.SitIn pg b ss) (hs : TableSource.SitIn pg b [s]) :
    TableSource.SitIn pg b (ss ++ [s]) := by
  induction ss with
  | nil => exact hs
  | cons t ss ih =>
      obtain ⟨_, _⟩ := t
      exact ⟨h.1, h.2.1, ih h.2.2⟩

namespace Reader

/-! ## Tables -/

/-- A name is the current token, and only this token is consumed. -/
theorem nameToken_lands (hr : r.Placed env lo) (what : String) :
    Lands env lo (nameToken what) r fun t r' => t = r.cursor.current ∧ r.Over r' := by
  rw [nameToken, lands_bind_current]
  split
  · rename_i hname
    refine (next_lands hr (Token.isEnd_of_isName hname)).bind fun _ r₁ hr₁ _ hover => ?_
    exact .pure hr₁ ⟨rfl, hover⟩
  · exact failExpected_lands hr _

/-- A table is named by its last token, and naming it leaves the scope alone. -/
theorem tableName_lands (hr : r.Placed env lo) :
    Lands env lo tableName r fun named r' => r.cursor.Advances r'.cursor ∧ r'.draft = r.draft ∧
      named.1.Sits env.page (r.cursor.upTo r'.cursor) := by
  refine (nameToken_lands hr _).bind ?_
  rintro first r₁ hr₁ hgo₁ ⟨rfl, hover₁⟩
  have hfirst := hr.cursor.current_mem
  rw [lands_bind_atSymbol]
  split
  · rename_i hdot
    refine (next_lands hr₁ (Token.isEnd_of_isSymbol hdot)).bind fun _ r₂ hr₂ hgo₂ hover₂ => ?_
    refine (nameToken_lands hr₂ _).bind ?_
    rintro second r₃ hr₃ hgo₃ ⟨rfl, hover₃⟩
    refine (nameOf_lands hr₃ hfirst).bind ?_
    rintro schema r₄ - - ⟨-, rfl⟩
    refine (nameOf_lands hr₃ hr₂.cursor.current_mem).bind ?_
    rintro name r₅ - - ⟨hname, rfl⟩
    have hgo := hgo₁.trans hgo₂
    refine .pure hr₃ ⟨hgo.advances hover₃.toAdvances, ?_, ?_, ?_⟩
    · rw [hover₃.draft_eq, hover₂.draft_eq, hover₁.draft_eq]
    · rw [hover₃.span_eq]
      exact hgo.upTo_within .rfl
    · exact Setting.shows_of hr₂.cursor.current_mem hname
  · refine (nameOf_lands hr₁ hfirst).bind ?_
    rintro name r₂ - - ⟨hname, rfl⟩
    refine .pure hr₁ ⟨hover₁.toAdvances, hover₁.draft_eq, ?_, Setting.shows_of hfirst hname⟩
    rw [hover₁.span_eq]
    exact .rfl

/-- A table that was named behind `s` is declared behind the tables of `s`. -/
theorem declare_lands (hs : s.Placed env lo) (hr : r.Placed env lo)
    (hgo : s.cursor.Goes r.cursor) (hdraft : r.draft = s.draft) {t : Table}
    (ht : t.Sits env.page (s.cursor.upTo r.cursor)) (token : Token) :
    Lands env lo (declare env t token) r fun _ r' => r'.cursor = r.cursor := by
  unfold declare
  split
  · refine ⟨⟨hr.cursor, hr.lo_le, ?_, hr.subqueries, hr.counted⟩, .rfl, rfl⟩
    show Row Table.span (Table.Sits env.page) ⟨lo, r.cursor.lastEnd⟩ (r.draft.tables ++ [t])
    rw [hdraft]
    exact hs.tables.snoc Table.bounded ht ⟨Nat.le_refl _, hgo.lastEnd_le⟩
      ⟨hs.lo_le, Nat.le_refl _⟩ hs.cursor.behind
  · exact .pure hr rfl

/-- Where an index hint is found, there are two tokens to consume. -/
theorem atIndexHint_lands (hr : r.Placed env lo) :
    Lands env lo atIndexHint r fun b r' => r' = r ∧ (b = true → r.cursor.AtPair) := by
  rw [atIndexHint, lands_bind_current]
  split
  · rename_i hword
    refine (peek_lands hr).bind ?_
    rintro t r₁ - - ⟨rfl, ht⟩
    refine .pure hr ⟨rfl, fun hindex => ⟨?_, t, ht, ?_⟩⟩
    · simp only [Bool.or_eq_true] at hword
      rcases hword with (hk | hk) | hk <;> exact Token.isEnd_of_isKeyword hk
    · rcases Bool.or_eq_true_iff.1 hindex with hk | hk <;> exact Token.isEnd_of_isKeyword hk
  · exact .pure hr ⟨rfl, by simp⟩

theorem atTableHint_lands (hr : r.Placed env lo) :
    Lands env lo (atTableHint env) r fun b r' => r' = r ∧
      (b = true → r.cursor.current.isEnd = false) := by
  unfold atTableHint
  split
  · rw [lands_bind_atKeyword]
    split
    · rename_i hwith
      refine (peek_lands hr).bind ?_
      rintro t r₁ - - ⟨rfl, -⟩
      exact .pure hr ⟨rfl, fun _ => Token.isEnd_of_isKeyword hwith⟩
    · exact .pure hr ⟨rfl, by simp⟩
  · exact .pure hr ⟨rfl, by simp⟩

theorem hintPurpose_lands (hr : r.Placed env lo) :
    Lands env lo hintPurpose r fun _ r' => r'.draft = r.draft := by
  have hby : ∀ {r₁ : Reading}, r₁.Placed env lo → r₁.draft = r.draft →
      Lands env lo (do let _ ← acceptKeyword .BY) r₁ fun _ r' => r'.draft = r.draft := by
    intro r₁ hr₁ hdraft
    refine (acceptKeyword_lands hr₁ .BY).bind fun _ r₂ hr₂ _ hover => .pure hr₂ ?_
    exact hover.draft_eq.trans hdraft
  refine (skipKeyword_lands hr .FOR).bind fun purpose r₁ hr₁ _ hdraft₁ => ?_
  split
  · refine (skipKeyword_lands hr₁ .JOIN).bind fun join r₂ hr₂ _ hdraft₂ => ?_
    split
    · refine (skipKeyword_lands hr₂ .ORDER).bind fun order r₃ hr₃ _ hdraft₃ => ?_
      have hdraft := hdraft₃.trans (hdraft₂.trans hdraft₁)
      split
      · refine (acceptKeyword_lands hr₃ .GROUP).bind fun _ r₄ hr₄ _ hover => ?_
        exact hby hr₄ (hover.draft_eq.trans hdraft)
      · exact hby hr₃ hdraft
    · exact .pure hr₂ (hdraft₂.trans hdraft₁)
  · exact .pure hr₁ hdraft₁

/-- Hints only move the cursor: the scope is what it was in front of them. -/
theorem tableHints_lands (hr : r.Placed env lo) :
    Lands env lo (tableHints env) r fun _ r' => r'.draft = r.draft := by
  refine Lands.repeating (fun _ r₁ => r₁.draft = r.draft) hr rfl ?_
  intro _ r₁ hr₁ _ hdraft
  refine (atIndexHint_lands hr₁).bind ?_
  rintro index r₂ - - ⟨rfl, hindex⟩
  split
  · rename_i h
    refine nextTwo_lands hr₁ (hindex h) fun {r₃} hr₃ hadv₃ hdraft₃ => ?_
    refine (hintPurpose_lands hr₃).bind fun _ r₄ hr₄ hgo₄ hdraft₄ => ?_
    refine (passParentheses_lands hr₄).bind fun _ r₅ hr₅ hgo₅ ⟨_, hdraft₅⟩ => .pure hr₅ ?_
    refine ⟨hadv₃.goes (hgo₄.trans hgo₅), ?_⟩
    rw [hdraft₅, hdraft₄, hdraft₃, hdraft]
  · refine (atTableHint_lands hr₁).bind ?_
    rintro hint r₃ - - ⟨rfl, hend⟩
    split
    · rename_i h
      refine (next_lands hr₁ (hend h)).bind fun _ r₄ hr₄ _ hover₄ => ?_
      refine (passParentheses_lands hr₄).bind fun _ r₅ hr₅ hgo₅ ⟨_, hdraft₅⟩ => .pure hr₅ ?_
      refine ⟨hover₄.toAdvances.goes hgo₅, ?_⟩
      rw [hdraft₅, hover₄.draft_eq, hdraft]
    · exact .pure hr₁ hdraft

/-- A table reference sits where it was read. Its span is that of the name, so alias and hints
may follow it outside. -/
theorem tableReference_lands (hr : r.Placed env lo) :
    Builds env lo (Table.Sits env.page) (tableReference env) r := by
  refine (tableName_lands hr).bind ?_
  rintro ⟨t, token⟩ r₁ hr₁ _ ⟨hadv, hdraft₁, ht⟩
  refine (optionalAlias_lands hr₁).bind fun aliasName r₂ hr₂ hgo₂ hdraft₂ => ?_
  refine (tableHints_lands hr₂).bind fun _ r₃ hr₃ hgo₃ hdraft₃ => ?_
  have hadv₃ := hadv.goes (hgo₂.trans hgo₃)
  have ht₃ : Table.Sits env.page (r.cursor.upTo r₃.cursor) { t with aliasName } :=
    Table.bounded.mono ht (Cursor.Goes.rfl.upTo_within (hgo₂.trans hgo₃))
  refine (declare_lands hr hr₃ hadv₃.toGoes (hdraft₃.trans (hdraft₂.trans hdraft₁)) ht₃
    token).bind fun _ r₄ hr₄ _ hcursor => .pure hr₄ ?_
  rw [hcursor]
  exact ⟨hadv₃, ht₃⟩

/-! ## Joins -/

/-- A table factor sits where it was read. The span of a nested query lies between the parentheses;
that of the factor includes them but not the alias. -/
theorem tableFactor_lands (hi : inner.Landing env) (hr : r.Placed env lo) :
    Builds env lo (TableFactor.Sits env.page) (tableFactor env inner) r := by
  unfold Builds Completes
  rw [tableFactor, lands_bind_atSymbol]
  split
  · rw [lands_bind_here]
    refine (acceptSymbol_lands hr .leftParen).bind fun opening r₁ hr₁ hgo₁ ⟨hopening, _⟩ => ?_
    rw [lands_bind_atKeyword]
    split
    · refine (hi.embed hr₁).bind fun q r₂ hr₂ _ ⟨hadv₂, hq, _, _⟩ => ?_
      refine (close_lands hr₂ (hopening.goes hadv₂.toGoes)).bind fun _ r₃ hr₃ hgo₃ _ => ?_
      rw [lands_bind_lastEnd]
      refine (optionalAlias_lands hr₃).bind fun aliasName r₄ hr₄ hgo₄ _ => .pure hr₄ ?_
      have hadv₃ := (hgo₁.advances hadv₂).goes hgo₃
      refine ⟨hadv₃.goes hgo₄, hr.cursor.frames hr₃.cursor hadv₃, ?_, ?_⟩
      · exact Cursor.Goes.rfl.upTo_within hgo₄
      · exact Query.bounded.mono hq (hgo₁.upTo_within hgo₃)
    · refine (hi.sources hr₁).bind fun sources r₂ hr₂ _ ⟨hadv₂, hsources⟩ => ?_
      refine (close_lands hr₂ (hopening.goes hadv₂.toGoes)).bind fun _ r₃ hr₃ hgo₃ _ => .pure hr₃ ?_
      exact ⟨(hgo₁.advances hadv₂).goes hgo₃, hsources.mono (hgo₁.upTo_within hgo₃)⟩
  · exact (tableReference_lands hr).bind fun t r₁ hr₁ _ h => .pure hr₁ h

/-- The words of a join are consumed if there is one. -/
theorem joinKind_lands (hr : r.Placed env lo) (natural : Bool) :
    Lands env lo (joinKind natural) r fun kind r' =>
      kind.isSome = true → r.cursor.Advances r'.cursor := by
  have houter : ∀ {kind : JoinKind}, r.cursor.current.isEnd = false →
      Lands env lo (joinKind.outer kind) r fun kind r' =>
        kind.isSome = true → r.cursor.Advances r'.cursor := by
    intro kind hend
    refine (next_lands hr hend).bind fun _ r₁ hr₁ _ hover => ?_
    refine (skipKeyword_lands hr₁ .OUTER).bind fun _ r₂ hr₂ hgo₂ _ => ?_
    refine (acceptKeyword_lands hr₂ .JOIN).bind fun _ r₃ hr₃ hgo₃ _ => .pure hr₃ fun _ => ?_
    exact hover.toAdvances.goes (hgo₂.trans hgo₃)
  rw [joinKind, lands_bind_current]
  split
  · rename_i hkind
    refine (next_landsOf hr hkind (by simp)).bind fun _ r₁ hr₁ _ hover => .pure hr₁ fun _ => ?_
    exact hover.toAdvances
  · rename_i hkind
    refine (next_landsOf hr hkind (by simp)).bind fun _ r₁ hr₁ _ hover => .pure hr₁ fun _ => ?_
    exact hover.toAdvances
  · rename_i hkind
    refine (next_landsOf hr hkind (by simp)).bind fun _ r₁ hr₁ _ hover => ?_
    refine (acceptKeyword_lands hr₁ .JOIN).bind fun _ r₂ hr₂ hgo₂ _ => .pure hr₂ fun _ => ?_
    exact hover.toAdvances.goes hgo₂
  · rename_i hkind
    refine (next_landsOf hr hkind (by simp)).bind fun _ r₁ hr₁ _ hover => ?_
    refine (acceptKeyword_lands hr₁ .JOIN).bind fun _ r₂ hr₂ hgo₂ _ => .pure hr₂ fun _ => ?_
    exact hover.toAdvances.goes hgo₂
  · rename_i hkind
    exact houter (Token.isEnd_of_kind hkind (by simp))
  · rename_i hkind
    exact houter (Token.isEnd_of_kind hkind (by simp))
  · rename_i hkind
    exact houter (Token.isEnd_of_kind hkind (by simp))
  · split
    · exact failExpected_lands hr _
    · exact .pure hr (by simp)

/-- The columns of `USING` are kept as names without a place. -/
theorem usingColumns_lands (hr : r.Placed env lo) :
    Lands env lo usingColumns r fun _ _ => True := by
  refine (acceptSymbol_lands hr .leftParen).bind fun opening r₁ hr₁ _ ⟨hopening, _⟩ => ?_
  refine (commaSeparated_lands hr₁ (fun _ _ => True) trivial (fun _ _ => trivial) ?_).bind
    fun columns r₂ hr₂ hgo₂ _ => ?_
  · intro _ r₂ hr₂ _ _
    refine (nameToken_lands hr₂ _).bind ?_
    rintro t r₃ hr₃ - ⟨rfl, hover⟩
    refine (nameOf_lands hr₃ hr₂.cursor.current_mem).imp ?_
    rintro name r₄ - - ⟨-, rfl⟩
    exact ⟨hover.toAdvances, trivial⟩
  · exact (close_lands hr₂ (hopening.goes hgo₂)).bind fun _ r₃ hr₃ _ _ => .pure hr₃ trivial

/-- A join sits behind what was read before, from its first word on. -/
theorem optionalJoin_lands (hi : inner.Landing env) (hr : r.Placed env lo) :
    Lands env lo (optionalJoin env inner) r fun join r' => ∀ j ∈ join,
      r.cursor.Advances r'.cursor ∧ Join.SitIn env.page (r.cursor.upTo r'.cursor) [j] := by
  refine (skipKeyword_lands hr .NATURAL).bind fun natural r₁ hr₁ hgo₁ _ => ?_
  refine (joinKind_lands hr₁ natural).bind fun kind r₂ hr₂ hgo₂ hkind => ?_
  split
  · exact .pure hr₂ (by simp)
  · rename_i kind
    have hadv₂ := hgo₁.advances (hkind rfl)
    refine (tableFactor_lands hi hr₂).bind fun factor r₃ hr₃ hgo₃ ⟨_, hfactor⟩ => ?_
    -- The factor, seen from any later place.
    have hjoin : ∀ {r' : Reading} {on : List Condition} {columns : List String},
        r₃.cursor.Goes r'.cursor →
        Row Condition.span (Condition.Sits env.page) (r.cursor.upTo r'.cursor) on →
        ∀ j ∈ some (⟨natural, kind, factor, on, columns⟩ : Join),
          r.cursor.Advances r'.cursor ∧ Join.SitIn env.page (r.cursor.upTo r'.cursor) [j] := by
      intro r' on columns hgo hon j hj
      obtain rfl := Option.mem_some_iff.1 hj
      refine ⟨hadv₂.goes (hgo₃.trans hgo), ?_, Condition.row_iff.1 hon, trivial⟩
      exact hfactor.mono (hadv₂.toGoes.upTo_within hgo)
    refine (skipKeyword_lands hr₃ .ON).bind fun on r₄ hr₄ hgo₄ _ => ?_
    split
    · refine (conditions_lands hi hr₄).bind fun cs r₅ hr₅ hgo₅ ⟨_, hrow⟩ => .pure hr₅ ?_
      refine hjoin (hgo₄.trans hgo₅) (hrow.mono Condition.bounded ?_)
      exact (hadv₂.toGoes.trans (hgo₃.trans hgo₄)).upTo_within .rfl
    · refine (skipKeyword_lands hr₄ .USING).bind fun using' r₅ hr₅ hgo₅ _ => ?_
      split
      · refine (usingColumns_lands hr₅).bind fun columns r₆ hr₆ hgo₆ _ => .pure hr₆ ?_
        exact hjoin (hgo₄.trans (hgo₅.trans hgo₆)) .nil
      · exact .pure hr₅ (hjoin (hgo₄.trans hgo₅) .nil)

/-- A source: its factor first, then its joins in a row behind it. -/
theorem tableSource_lands (hi : inner.Landing env) (hr : r.Placed env lo) :
    Builds env lo (fun b source => TableSource.SitIn env.page b [source])
      (tableSource env inner) r := by
  refine (tableFactor_lands hi hr).bind fun factor r₁ hr₁ hgo₁ ⟨hadv₁, hfactor⟩ => ?_
  refine Lands.repeating (fun joins r₂ => Join.SitIn env.page (r.cursor.upTo r₂.cursor) joins)
    hr₁ trivial ?_
  intro joins r₂ hr₂ hgo₂ hjoins
  refine (optionalJoin_lands hi hr₂).bind fun join r₃ hr₃ hgo₃ hjoin => ?_
  split
  · rename_i j
    obtain ⟨hadv₃, hj⟩ := hjoin j rfl
    refine .pure hr₃ ⟨hadv₃, Join.SitIn.snoc ?_ ?_⟩
    · exact hjoins.mono (Cursor.Goes.rfl.upTo_within hgo₃)
    · exact hj.mono ((hgo₁.trans hgo₂).upTo_within .rfl)
  · refine .pure hr₃ ⟨hadv₁.goes (hgo₂.trans hgo₃), ?_, ?_, trivial⟩
    · exact hfactor.mono (Cursor.Goes.rfl.upTo_within (hgo₂.trans hgo₃))
    · exact hjoins.mono (Cursor.Goes.rfl.upTo_within hgo₃)

theorem tableSources_lands (hi : inner.Landing env) (hr : r.Placed env lo) :
    Builds env lo (TableSource.SitIn env.page) (tableSources env inner) r := by
  refine commaSeparated_lands hr (fun ss c => TableSource.SitIn env.page (r.cursor.upTo c) ss)
    trivial ?_ ?_
  · intro ss c c' hss hgo
    exact hss.mono (Cursor.Goes.rfl.upTo_within hgo)
  · intro ss r₁ hr₁ hgo₁ hss
    refine (tableSource_lands hi hr₁).imp fun source r₂ _ hgo₂ ⟨hadv, hsource⟩ => ⟨hadv, ?_⟩
    exact (hss.mono (Cursor.Goes.rfl.upTo_within hgo₂)).snoc (hsource.mono (hgo₁.upTo_within .rfl))

theorem fromClause_lands (hi : inner.Landing env) (hr : r.Placed env lo) :
    Lands env lo (fromClause env inner) r fun sources r' =>
      ∀ ss ∈ sources, TableSource.SitIn env.page (r.cursor.upTo r'.cursor) ss := by
  refine (skipKeyword_lands hr .FROM).bind fun found r₁ hr₁ hgo₁ _ => ?_
  split
  · refine (tableSources_lands hi hr₁).bind fun ss r₂ hr₂ _ ⟨_, hss⟩ => .pure hr₂ ?_
    intro ss' hss'
    obtain rfl := Option.mem_some_iff.1 hss'
    exact hss.mono (hgo₁.upTo_within .rfl)
  · exact .pure hr₁ (by simp)

end Reader

end SqlMarkers
