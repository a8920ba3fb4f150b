/-
SqlMarkers.Proofs.Landing.Statement — where queries and statements land.

The readers of nested things land by induction on the nesting depth
(`Inner.landing_upTo`), and so does the reading of a whole statement:
`Setting.run_lands` says that it gives a statement in which everything sits in
its place, after all text was split into tokens, or a fault that the text
explains.

A statement and each query in it start a scope of their own, so the `lo` of `Lands` is here the
start of the current token: tables and queries of the new scope sit behind it (`finish_sits`).
The clauses of a statement were read one behind the other, and each one is carried to the end
of the statement, where the span of the whole is known.
-/
import SqlMarkers.Proofs.Landing.Clause
import SqlMarkers.Proofs.Landing.Source

namespace SqlMarkers

variable {env : Setting} {inner : Inner} {lo : Nat} {s r r' : Reading}

namespace Reader

/-! ## Queries -/

theorem distinctness_lands (hr : r.Placed env lo) :
    Lands env lo distinctness r fun _ _ => True := by
  rw [distinctness, lands_bind_current]
  split
  · rename_i hkind
    exact (next_landsOf hr hkind (by simp)).bind fun _ r₁ hr₁ _ _ => .pure hr₁ trivial
  · rename_i hkind
    exact (next_landsOf hr hkind (by simp)).bind fun _ r₁ hr₁ _ _ => .pure hr₁ trivial
  · rename_i hkind
    exact (next_landsOf hr hkind (by simp)).bind fun _ r₁ hr₁ _ _ => .pure hr₁ trivial
  · exact .pure hr trivial

/-- `NOWAIT` and `SKIP LOCKED` are consumed where they stand. -/
theorem lockWait_lands (hr : r.Placed env lo) : Lands env lo lockWait r fun _ _ => True := by
  have hend : ∀ {t : Token} {word : String}, t.isWord word = true → t.isEnd = false :=
    fun h => Token.isEnd_of_isPlain (isPlain_of_isWord h)
  rw [lockWait, lands_bind_current]
  split
  · rename_i hword
    exact (next_lands hr (hend hword)).imp fun _ _ _ _ _ => trivial
  · split
    · rename_i hskip
      refine (peek_lands hr).bind ?_
      rintro t r₁ - - ⟨rfl, ht⟩
      split
      · rename_i hlocked
        refine (next_lands hr (hend hskip)).bind fun _ r₂ hr₂ _ hover => ?_
        have hend₂ : r₂.cursor.current.isEnd = false := hover.current_eq ht ▸ hend hlocked
        exact (next_lands hr₂ hend₂).imp fun _ _ _ _ _ => trivial
      · exact .pure hr trivial
    · exact .pure hr trivial

/-- Locks and options leave no part of the tree with a place: only the cursor moves. -/
theorem trailingOptions_lands (hr : r.Placed env lo) :
    Lands env lo (trailingOptions env) r fun _ _ => True := by
  refine Lands.repeating (fun _ _ => True) hr trivial ?_
  rintro ⟨lock, option⟩ r₁ hr₁ - -
  have hlock : ∀ {lock : Lock} {r₂ : Reading}, r₂.Placed env lo →
      r₁.cursor.Advances r₂.cursor → r₂.cursor.current.isEnd = false →
      Lands env lo (do
        next
        lockWait
        return .again (some lock, option) :
          Reader (Round (Option Lock × Option String) (Option Lock × Option String))) r₂
        fun round r₃ =>
          round.Meets (fun _ r₃ => r₁.cursor.Advances r₃.cursor ∧ True) (fun _ _ => True) r₃ := by
    intro lock r₂ hr₂ hadv hend
    refine (next_lands hr₂ hend).bind fun _ r₃ hr₃ hgo₃ _ => ?_
    refine (lockWait_lands hr₃).bind fun _ r₄ hr₄ hgo₄ _ => .pure hr₄ ?_
    exact ⟨hadv.goes (hgo₃.trans hgo₄), trivial⟩
  rw [lands_bind_current]
  split
  · rename_i hkind
    refine (next_landsOf hr₁ hkind (by simp)).bind fun _ r₂ hr₂ _ hover => ?_
    rw [lands_bind_current]
    split
    · rename_i hkind₂
      exact hlock hr₂ hover.toAdvances (Token.isEnd_of_kind hkind₂ (by simp))
    · rename_i hkind₂
      exact hlock hr₂ hover.toAdvances (Token.isEnd_of_kind hkind₂ (by simp))
    · exact failExpected_bind_lands hr₂ _
  · rename_i hkind
    refine (next_landsOf hr₁ hkind (by simp)).bind fun _ r₂ hr₂ _ hover => ?_
    refine (acceptKeyword_lands hr₂ .IN).bind fun _ r₃ hr₃ hgo₃ _ => ?_
    refine (acceptKeyword_lands hr₃ .SHARE).bind fun _ r₄ hr₄ hgo₄ _ => ?_
    refine (acceptKeyword_lands hr₄ .MODE).bind fun _ r₅ hr₅ hgo₅ _ => .pure hr₅ ?_
    exact ⟨hover.toAdvances.goes (hgo₃.trans (hgo₄.trans hgo₅)), trivial⟩
  · rename_i hkind
    refine (peek_lands hr₁).bind ?_
    rintro t r₂ hr₂ - ⟨rfl, -⟩
    split
    · refine (next_landsOf hr₂ hkind (by simp)).bind fun _ r₃ hr₃ _ hover => ?_
      refine (passParentheses_lands hr₃).bind fun _ r₄ hr₄ hgo₄ _ => ?_
      rw [lands_bind_lastEnd]
      exact .pure hr₄ ⟨hover.toAdvances.goes hgo₄, trivial⟩
    · exact .pure hr₂ trivial
  · exact .pure hr₁ trivial

theorem refuseSetOperation_lands (hr : r.Placed env lo) :
    Lands env lo refuseSetOperation r fun _ _ => True := by
  rw [refuseSetOperation, lands_bind_current]
  split
  · exact failHere_lands hr rfl
  · exact failHere_lands hr rfl
  · exact failHere_lands hr rfl
  · exact .pure hr trivial

/-- The scope of a statement that starts at `r` and ends at `r'`. -/
theorem finish_sits (hr' : r'.Placed env r.cursor.current.span.start) :
    r'.draft.finish.Sits env.page (r.cursor.upTo r'.cursor) :=
  ⟨hr'.tables, hr'.subqueries⟩

theorem lands_bind_finishedScope {α : Type} {f : Scope → Reader α} {P : α → Reading → Prop} :
    Lands env lo (finishedScope >>= f) r P ↔ Lands env lo (f r.draft.finish) r P := .rfl

/-- A query sits where it was read, with its clauses in the order of their places and its own scope
from its start on. -/
theorem query_lands (hi : inner.Landing env) (hr : r.Placed env r.cursor.current.span.start) :
    Builds env r.cursor.current.span.start (Query.SitsCounted env.page) (query env inner) r := by
  unfold Builds Completes
  rw [query, lands_bind_here]
  refine (acceptKeyword_lands hr .SELECT).bind fun _ r₁ hr₁ hgo₁ hover => ?_
  refine (distinctness_lands hr₁).bind fun distinct r₂ hr₂ hgo₂ _ => ?_
  extract_lets body
  have hbody : ∀ (u : Unit) {r₃ : Reading}, r₃.Placed env r.cursor.current.span.start →
      r.cursor.Advances r₃.cursor →
      Completes env r.cursor.current.span.start (Query.SitsCounted env.page) (body u) r r₃ := by
    intro u r₃ hr₃ hadv₃
    refine (optionalTop_lands hr₃).bind fun top r₄ hr₄ hgo₄ htop => ?_
    refine (commaSeparated_builds SelectItem.bounded hr₄ (selectItem_lands hi)).bind
      fun items r₅ hr₅ hgo₅ ⟨_, hitems⟩ => ?_
    refine (fromClause_lands hi hr₅).bind fun sources r₆ hr₆ hgo₆ hsources => ?_
    refine (conditionClause_lands hi hr₆ .WHERE).bind fun filter r₇ hr₇ hgo₇ hfilter => ?_
    refine (groupBy_lands hi hr₇).bind fun groupBy r₈ hr₈ hgo₈ hgroupBy => ?_
    refine (conditionClause_lands hi hr₈ .HAVING).bind fun having r₉ hr₉ hgo₉ hhaving => ?_
    refine (orderBy_lands hi hr₉).bind fun orderBy r₁₀ hr₁₀ hgo₁₀ horderBy => ?_
    rw [lands_bind_here]
    refine (optionalPaging_lands hr₁₀).bind fun paging r₁₁ hr₁₁ hgo₁₁ hpaging => ?_
    dsimp only
    split
    · exact (failAt_lands (P := fun _ _ => False) (hr₁₀.cursor.met.goes hgo₁₁) rfl).bind
        fun _ _ _ _ h => h.elim
    · refine (trailingOptions_lands hr₁₁).bind ?_
      rintro ⟨lock, option⟩ r₁₂ hr₁₂ hgo₁₂ -
      refine (refuseSetOperation_lands hr₁₂).bind fun _ r' hr' hgo' _ => ?_
      rw [lands_bind_lastEnd, lands_bind_get]
      -- How far each clause is from the start of the query and from its end.
      have to₄ := hadv₃.toGoes.trans hgo₄
      have to₅ := to₄.trans hgo₅
      have to₆ := to₅.trans hgo₆
      have to₇ := to₆.trans hgo₇
      have to₈ := to₇.trans hgo₈
      have to₉ := to₈.trans hgo₉
      have to₁₀ := to₉.trans hgo₁₀
      have from₁₁ := hgo₁₂.trans hgo'
      have from₁₀ := hgo₁₁.trans from₁₁
      have from₉ := hgo₁₀.trans from₁₀
      have from₈ := hgo₉.trans from₉
      have from₇ := hgo₈.trans from₈
      have from₆ := hgo₇.trans from₇
      have from₅ := hgo₆.trans from₆
      have from₄ := hgo₅.trans from₅
      have hadv := hadv₃.goes (hgo₄.trans from₄)
      refine .pure hr' ⟨hadv, Query.sits_iff.2 ⟨hr.cursor.frames hr'.cursor hadv, .rfl, ?_, ?_, ?_,
        ?_, ?_, ?_, ?_, finish_sits hr'⟩, hr'.counted⟩
      · exact hitems.mono SelectItem.bounded (to₄.upTo_within from₅)
      · exact fun ss hss => (hsources ss hss).mono (to₅.upTo_within from₆)
      · exact fun l hl => (hfilter l hl).mono (to₆.upTo_within from₇)
      · exact hgroupBy.mono OrderItem.bounded (to₇.upTo_within from₈)
      · exact fun l hl => (hhaving l hl).mono (to₈.upTo_within from₉)
      · exact horderBy.mono OrderItem.bounded (to₉.upTo_within from₁₀)
      · intro p hp
        cases paging with
        | none => exact (htop p hp).mono (hadv₃.toGoes.upTo_within from₄)
        | some q => exact (hpaging p hp).mono (to₁₀.upTo_within from₁₁)
  have hadv₂ := hover.toAdvances.goes hgo₂
  split
  · exact (skipKeywords_lands hr₂ _).bind fun u r₃ hr₃ hgo₃ _ => hbody u hr₃ (hadv₂.goes hgo₃)
  · exact hbody () hr₂ hadv₂

end Reader

/-! ## Nested readers -/

/-- At the nesting limit all readers fail, with a fault at the current token. -/
theorem Inner.landing_exhausted (env : Setting) : (Inner.exhausted env).Landing env := by
  refine ⟨fun hr => ?_, fun hr => ?_, fun hr => ?_, fun hr => ?_, fun hr => ?_⟩
  all_goals
    simp only [Builds, Completes, Inner.exhausted]
    exact Reader.refuseNesting_lands hr

/-- Readers that may nest deeper land because those of the level below do. -/
theorem Inner.landing_upTo (env : Setting) (n : Nat) : (Inner.upTo env n).Landing env := by
  induction n with
  | zero => exact Inner.landing_exhausted env
  | succ n ih =>
      exact
        { query := fun hr => Reader.nested_lands hr (Reader.query_lands ih (hr.onLevel _))
          operand := fun hr => Reader.nested_lands hr (Reader.operand_lands ih (hr.onLevel _))
          predicate := fun hr => Reader.nested_lands hr (Reader.predicate_lands ih (hr.onLevel _))
          group := fun hr => Reader.nested_lands hr (Reader.group_lands ih (hr.onLevel _))
          sources := fun hr =>
            Reader.nested_lands hr (Reader.tableSources_lands ih (hr.onLevel _)) }

namespace Reader

/-! ## Changes -/

/-- Expressions in parentheses stand in a row between them; there may be none. -/
theorem exprTuple_lands (hi : inner.Landing env) (hr : r.Placed env lo) :
    Builds env lo (Row Expr.span (Expr.Sits env.page)) (exprTuple env inner) r := by
  refine (acceptSymbol_lands hr .leftParen).bind fun opening r₁ hr₁ hgo₁ ⟨hopening, hover⟩ => ?_
  rw [lands_bind_atSymbol]
  split
  · rw [lands_bind_pure]
    refine (close_lands hr₁ hopening).bind fun _ r₂ hr₂ hgo₂ _ => .pure hr₂ ?_
    exact ⟨hover.toAdvances.goes hgo₂, .nil⟩
  · refine (commaSeparated_builds Expr.bounded hr₁ (expression_sits hi)).bind
      fun values r₂ hr₂ hgo₂ ⟨_, hvalues⟩ => ?_
    refine (close_lands hr₂ (hopening.goes hgo₂)).bind fun _ r₃ hr₃ hgo₃ _ => .pure hr₃ ?_
    exact ⟨hover.toAdvances.goes (hgo₂.trans hgo₃),
      hvalues.mono Expr.bounded (hgo₁.upTo_within hgo₃)⟩

theorem valuesRow_lands (hi : inner.Landing env) (hr : r.Placed env lo) :
    Builds env lo (ValuesRow.Sits env.page) (valuesRow env inner) r := by
  unfold Builds Completes
  rw [valuesRow, lands_bind_here]
  refine (exprTuple_lands hi hr).bind fun values r₁ hr₁ _ ⟨hadv, hvalues⟩ => ?_
  rw [lands_bind_lastEnd]
  exact .pure hr₁ ⟨hadv, hr.cursor.frames hr₁.cursor hadv, .rfl, hvalues⟩

theorem assignment_lands (hi : inner.Landing env) (hr : r.Placed env lo) :
    Builds env lo (Assignment.Sits env.page) (assignment env inner) r := by
  refine (expression_sits hi hr).bind fun column r₁ hr₁ _ ⟨hadv₁, hcolumn⟩ => ?_
  refine (acceptSymbol_lands hr₁ .eq).bind fun _ r₂ hr₂ hgo₂ _ => ?_
  refine (expression_sits hi hr₂).bind fun value r₃ hr₃ hgo₃ ⟨_, hvalue⟩ => .pure hr₃ ?_
  refine ⟨hadv₁.goes (hgo₂.trans hgo₃), ?_, ?_, ?_⟩
  · exact Expr.bounded.mono hcolumn (Cursor.Goes.rfl.upTo_within (hgo₂.trans hgo₃))
  · exact Expr.bounded.mono hvalue ((hadv₁.toGoes.trans hgo₂).upTo_within .rfl)
  · calc column.span.stop ≤ r₁.cursor.lastEnd := hcolumn.1.2
      _ ≤ r₂.cursor.lastEnd := hgo₂.lastEnd_le
      _ ≤ r₂.cursor.current.span.start := hr₂.cursor.behind
      _ ≤ value.span.start := hvalue.1.1

theorem assignments_lands (hi : inner.Landing env) (hr : r.Placed env lo) :
    Builds env lo (Row Assignment.span (Assignment.Sits env.page)) (assignments env inner) r :=
  commaSeparated_builds Assignment.bounded hr (assignment_lands hi)

/-- A parenthesis in front of `SELECT` opens the rows, and there are no columns. -/
theorem insertColumns_lands (hi : inner.Landing env) (hr : r.Placed env lo) :
    Lands env lo (insertColumns env inner) r fun columns r' =>
      Row Expr.span (Expr.Sits env.page) (r.cursor.upTo r'.cursor) columns := by
  rw [insertColumns, lands_bind_atSymbol]
  split
  · refine (peek_lands hr).bind ?_
    rintro t r₁ - - ⟨rfl, -⟩
    split
    · exact .pure hr .nil
    · exact (exprTuple_lands hi hr).imp fun _ _ _ _ h => h.2
  · exact .pure hr .nil

theorem insertSource_lands (hi : inner.Landing env) (hr : r.Placed env lo) :
    Builds env lo (InsertSource.Sits env.page) (insertSource env inner) r := by
  have hrows : r.cursor.current.isEnd = false →
      Builds env lo (InsertSource.Sits env.page) (insertSource.rows env inner) r := by
    intro hend
    refine (next_lands hr hend).bind fun _ r₁ hr₁ hgo₁ _ => ?_
    refine (commaSeparated_builds ValuesRow.bounded hr₁ (valuesRow_lands hi)).bind
      fun rows r₂ hr₂ _ ⟨hadv, hrows⟩ => .pure hr₂ ?_
    exact ⟨hgo₁.advances hadv, hrows.mono ValuesRow.bounded (hgo₁.upTo_within .rfl)⟩
  unfold Builds Completes
  rw [insertSource, lands_bind_current]
  split
  · rename_i hkind
    exact hrows (Token.isEnd_of_kind hkind (by simp))
  · rename_i hkind
    exact hrows (Token.isEnd_of_kind hkind (by simp))
  · rename_i hkind
    refine (next_landsOf hr hkind (by simp)).bind fun _ r₁ hr₁ hgo₁ _ => ?_
    refine (assignments_lands hi hr₁).bind fun as r₂ hr₂ _ ⟨hadv, has⟩ => .pure hr₂ ?_
    exact ⟨hgo₁.advances hadv, has.mono Assignment.bounded (hgo₁.upTo_within .rfl)⟩
  · exact (hi.embed hr).bind fun q r₁ hr₁ _ ⟨hadv, hq, _, _⟩ => .pure hr₁ ⟨hadv, hq⟩
  · refine (acceptSymbol_lands hr .leftParen).bind fun opening r₁ hr₁ hgo₁ ⟨hopening, _⟩ => ?_
    refine (hi.embed hr₁).bind fun q r₂ hr₂ _ ⟨hadv, hq, _, _⟩ => ?_
    refine (close_lands hr₂ (hopening.goes hadv.toGoes)).bind fun _ r₃ hr₃ hgo₃ _ => .pure hr₃ ?_
    exact ⟨(hgo₁.advances hadv).goes hgo₃, Query.bounded.mono hq (hgo₁.upTo_within hgo₃)⟩
  · exact failExpected_lands hr _

theorem onDuplicate_lands (hi : inner.Landing env) (hr : r.Placed env lo) :
    Lands env lo (onDuplicate env inner) r fun as r' =>
      Row Assignment.span (Assignment.Sits env.page) (r.cursor.upTo r'.cursor) as := by
  rw [onDuplicate, lands_bind_atKeyword]
  refine peekBehind_lands hr (fun t => Token.isEnd_of_isKeyword) fun present hpresent => ?_
  split
  · rename_i h
    refine nextTwo_lands hr (hpresent h) fun {r₁} hr₁ hadv₁ _ => ?_
    refine (acceptKeyword_lands hr₁ .KEY).bind fun _ r₂ hr₂ hgo₂ _ => ?_
    refine (acceptKeyword_lands hr₂ .UPDATE).bind fun _ r₃ hr₃ hgo₃ _ => ?_
    refine (assignments_lands hi hr₃).imp fun as r₄ _ _ ⟨_, has⟩ => ?_
    exact has.mono Assignment.bounded
      ((hadv₁.toGoes.trans (hgo₂.trans hgo₃)).upTo_within .rfl)
  · exact .pure hr .nil

/-- An `INSERT` sits from its first token to its last one. -/
theorem insert_lands (hi : inner.Landing env) (hr : r.Placed env r.cursor.current.span.start) :
    Lands env r.cursor.current.span.start (insert env inner) r fun x _ =>
      (Statement.insert x).Sits env.page := by
  rw [insert, lands_bind_here]
  refine (acceptKeyword_lands hr .INSERT).bind fun _ r₁ hr₁ _ hover => ?_
  refine (skipKeywords_lands hr₁ _).bind fun _ r₂ hr₂ hgo₂ _ => ?_
  refine (skipKeyword_lands hr₂ .INTO).bind fun _ r₃ hr₃ hgo₃ _ => ?_
  refine (tableReference_lands hr₃).bind fun table r₄ hr₄ hgo₄ ⟨_, htable⟩ => ?_
  refine (insertColumns_lands hi hr₄).bind fun columns r₅ hr₅ hgo₅ hcolumns => ?_
  refine (insertSource_lands hi hr₅).bind fun source r₆ hr₆ hgo₆ ⟨_, hsource⟩ => ?_
  refine (onDuplicate_lands hi hr₆).bind fun updates r' hr' hgo' hupdates => ?_
  rw [lands_bind_lastEnd, lands_bind_finishedScope]
  have to₃ := hover.toGoes.trans (hgo₂.trans hgo₃)
  have to₄ := to₃.trans hgo₄
  have to₅ := to₄.trans hgo₅
  have to₆ := to₅.trans hgo₆
  have from₅ := hgo₆.trans hgo'
  have from₄ := hgo₅.trans from₅
  have hadv := hover.toAdvances.goes (hgo₂.trans (hgo₃.trans (hgo₄.trans from₄)))
  refine .pure hr' ⟨hr.cursor.frames hr'.cursor hadv, ?_, ?_, ?_, ?_, finish_sits hr'⟩
  · exact Table.bounded.mono htable (to₃.upTo_within from₄)
  · exact hcolumns.mono Expr.bounded (to₄.upTo_within from₅)
  · exact hsource.mono (to₅.upTo_within hgo')
  · exact hupdates.mono Assignment.bounded (to₆.upTo_within .rfl)

theorem update_lands (hi : inner.Landing env) (hr : r.Placed env r.cursor.current.span.start) :
    Lands env r.cursor.current.span.start (update env inner) r fun x _ =>
      (Statement.update x).Sits env.page := by
  rw [update, lands_bind_here]
  refine (acceptKeyword_lands hr .UPDATE).bind fun _ r₁ hr₁ _ hover => ?_
  refine (skipKeywords_lands hr₁ _).bind fun _ r₂ hr₂ hgo₂ _ => ?_
  refine (tableReference_lands hr₂).bind fun table r₃ hr₃ hgo₃ ⟨_, htable⟩ => ?_
  refine (acceptKeyword_lands hr₃ .SET).bind fun _ r₄ hr₄ hgo₄ _ => ?_
  refine (assignments_lands hi hr₄).bind fun as r₅ hr₅ hgo₅ ⟨_, has⟩ => ?_
  refine (conditionClause_lands hi hr₅ .WHERE).bind fun filter r₆ hr₆ hgo₆ hfilter => ?_
  refine (orderBy_lands hi hr₆).bind fun orderBy r₇ hr₇ hgo₇ horderBy => ?_
  refine (optionalPaging_lands hr₇).bind fun paging r' hr' hgo' hpaging => ?_
  rw [lands_bind_lastEnd, lands_bind_finishedScope]
  have to₂ := hover.toGoes.trans hgo₂
  have to₄ := to₂.trans (hgo₃.trans hgo₄)
  have to₅ := to₄.trans hgo₅
  have to₆ := to₅.trans hgo₆
  have to₇ := to₆.trans hgo₇
  have from₆ := hgo₇.trans hgo'
  have from₅ := hgo₆.trans from₆
  have from₃ := hgo₄.trans (hgo₅.trans from₅)
  have hadv := hover.toAdvances.goes (hgo₂.trans (hgo₃.trans from₃))
  refine .pure hr' ⟨hr.cursor.frames hr'.cursor hadv, ?_, ?_, ⟨?_, ?_, ?_⟩, finish_sits hr'⟩
  · exact Table.bounded.mono htable (to₂.upTo_within from₃)
  · exact has.mono Assignment.bounded (to₄.upTo_within from₅)
  · exact fun l hl => (hfilter l hl).mono (to₅.upTo_within from₆)
  · exact horderBy.mono OrderItem.bounded (to₆.upTo_within hgo')
  · exact fun p hp => (hpaging p hp).mono (to₇.upTo_within .rfl)

theorem delete_lands (hi : inner.Landing env) (hr : r.Placed env r.cursor.current.span.start) :
    Lands env r.cursor.current.span.start (delete env inner) r fun x _ =>
      (Statement.delete x).Sits env.page := by
  rw [delete, lands_bind_here]
  refine (acceptKeyword_lands hr .DELETE).bind fun _ r₁ hr₁ _ hover => ?_
  refine (skipKeywords_lands hr₁ _).bind fun _ r₂ hr₂ hgo₂ _ => ?_
  refine (skipKeyword_lands hr₂ .FROM).bind fun _ r₃ hr₃ hgo₃ _ => ?_
  refine (tableReference_lands hr₃).bind fun table r₄ hr₄ hgo₄ ⟨_, htable⟩ => ?_
  refine (conditionClause_lands hi hr₄ .WHERE).bind fun filter r₅ hr₅ hgo₅ hfilter => ?_
  refine (orderBy_lands hi hr₅).bind fun orderBy r₆ hr₆ hgo₆ horderBy => ?_
  refine (optionalPaging_lands hr₆).bind fun paging r' hr' hgo' hpaging => ?_
  rw [lands_bind_lastEnd, lands_bind_finishedScope]
  have to₃ := hover.toGoes.trans (hgo₂.trans hgo₃)
  have to₄ := to₃.trans hgo₄
  have to₅ := to₄.trans hgo₅
  have to₆ := to₅.trans hgo₆
  have from₅ := hgo₆.trans hgo'
  have from₄ := hgo₅.trans from₅
  have hadv := hover.toAdvances.goes (hgo₂.trans (hgo₃.trans (hgo₄.trans from₄)))
  refine .pure hr' ⟨hr.cursor.frames hr'.cursor hadv, ?_, ⟨?_, ?_, ?_⟩, finish_sits hr'⟩
  · exact Table.bounded.mono htable (to₃.upTo_within from₄)
  · exact fun l hl => (hfilter l hl).mono (to₄.upTo_within from₅)
  · exact horderBy.mono OrderItem.bounded (to₅.upTo_within hgo')
  · exact fun p hp => (hpaging p hp).mono (to₆.upTo_within .rfl)

/-! ## Definitions -/

theorem definitionTarget_lands (hr : r.Placed env lo) (verb : Keyword) :
    Lands env lo (definitionTarget verb) r fun _ _ => True := by
  refine (skipKeyword_lands hr .TABLE).bind fun found r₁ hr₁ _ _ => ?_
  split
  · exact .pure hr₁ trivial
  · rw [lands_bind_current]
    split
    · exact failExpected_lands hr₁ _
    · exact failHere_lands hr₁ rfl

/-- The head of a definition begins with a keyword, so it moves on. -/
theorem definitionHead_lands (hr : r.Placed env lo) (hend : r.cursor.current.isEnd = false) :
    Lands env lo definitionHead r fun _ r' => r.cursor.Advances r'.cursor := by
  rw [definitionHead, lands_bind_current]
  split
  · refine (next_lands hr hend).bind fun _ r₁ hr₁ _ hover => ?_
    refine (skipKeyword_lands hr₁ .TEMPORARY).bind fun _ r₂ hr₂ hgo₂ _ => ?_
    refine (definitionTarget_lands hr₂ _).bind fun _ r₃ hr₃ hgo₃ _ => ?_
    refine (skipKeyword_lands hr₃ .IF).bind fun guarded r₄ hr₄ hgo₄ _ => ?_
    have hadv₄ := hover.toAdvances.goes (hgo₂.trans (hgo₃.trans hgo₄))
    split
    · refine (acceptKeyword_lands hr₄ .NOT).bind fun _ r₅ hr₅ hgo₅ _ => ?_
      refine (acceptKeyword_lands hr₅ .EXISTS).bind fun _ r₆ hr₆ hgo₆ _ => .pure hr₆ ?_
      exact hadv₄.goes (hgo₅.trans hgo₆)
    · exact .pure hr₄ hadv₄
  · refine (next_lands hr hend).bind fun _ r₁ hr₁ _ hover => ?_
    refine (skipKeyword_lands hr₁ .IGNORE).bind fun _ r₂ hr₂ hgo₂ _ => ?_
    refine (definitionTarget_lands hr₂ _).bind fun _ r₃ hr₃ hgo₃ _ => .pure hr₃ ?_
    exact hover.toAdvances.goes (hgo₂.trans hgo₃)
  · refine (next_lands hr hend).bind fun _ r₁ hr₁ _ hover => ?_
    refine (skipKeyword_lands hr₁ .TEMPORARY).bind fun _ r₂ hr₂ hgo₂ _ => ?_
    refine (definitionTarget_lands hr₂ _).bind fun _ r₃ hr₃ hgo₃ _ => ?_
    refine (skipKeyword_lands hr₃ .IF).bind fun guarded r₄ hr₄ hgo₄ _ => ?_
    have hadv₄ := hover.toAdvances.goes (hgo₂.trans (hgo₃.trans hgo₄))
    split
    · refine (acceptKeyword_lands hr₄ .EXISTS).bind fun _ r₅ hr₅ hgo₅ _ => .pure hr₅ ?_
      exact hadv₄.goes hgo₅
    · exact .pure hr₄ hadv₄
  · refine (next_lands hr hend).bind fun _ r₁ hr₁ _ hover => ?_
    refine (skipKeyword_lands hr₁ .TABLE).bind fun _ r₂ hr₂ hgo₂ _ => .pure hr₂ ?_
    exact hover.toAdvances.goes hgo₂

theorem definedTable_lands (hr : r.Placed env lo) :
    Builds env lo (Table.Sits env.page) (definedTable env) r := by
  refine (tableName_lands hr).bind ?_
  rintro ⟨t, token⟩ r₁ hr₁ hgo₁ ⟨hadv, hdraft, ht⟩
  refine (declare_lands hr hr₁ hgo₁ hdraft ht token).bind fun _ r₂ hr₂ _ hcursor => .pure hr₂ ?_
  rw [hcursor]
  exact ⟨hadv, ht⟩

/-- The rest of a definition goes on to a `;` or the end of the input. -/
theorem remainder_lands (hi : inner.Landing env) (hr : r.Placed env lo) :
    Lands env lo (remainder inner) r fun _ _ => True := by
  refine Lands.repeating (fun _ _ => True) hr trivial ?_
  intro _ r₁ hr₁ _ _
  rw [lands_bind_current]
  split
  · exact .pure hr₁ trivial
  · rename_i hgoesOn
    split
    · exact (parentheses_lands hi hr₁).bind fun _ r₂ hr₂ _ hadv => .pure hr₂ ⟨hadv, trivial⟩
    · have hend : r₁.cursor.current.isEnd = false := by
        simp only [Bool.or_eq_true, not_or, Bool.not_eq_true] at hgoesOn
        exact hgoesOn.1
      exact (consume_lands hr₁ hend).bind fun _ r₂ hr₂ _ hadv => .pure hr₂ ⟨hadv, trivial⟩

/-- A definition sits where it was read, and its text is that of its span. -/
theorem definition_lands (hi : inner.Landing env) (hr : r.Placed env r.cursor.current.span.start)
    (hend : r.cursor.current.isEnd = false) :
    Lands env r.cursor.current.span.start (definition env inner) r fun x _ =>
      (Statement.define x).Sits env.page := by
  rw [definition, lands_bind_here]
  refine (definitionHead_lands hr hend).bind fun kind r₁ hr₁ hgo₁ hadv₁ => ?_
  extract_lets rest
  have hrest : ∀ (tables : List Table) {r₂ : Reading},
      r₂.Placed env r.cursor.current.span.start → r₁.cursor.Goes r₂.cursor →
      Row Table.span (Table.Sits env.page) (r₁.cursor.upTo r₂.cursor) tables →
      Lands env r.cursor.current.span.start (rest tables) r₂ fun x _ =>
        (Statement.define x).Sits env.page := by
    intro tables r₂ hr₂ hgo₂ htables
    refine (remainder_lands hi hr₂).bind fun _ r₃ hr₃ hgo₃ _ => ?_
    rw [lands_bind_lastEnd, lands_bind_finishedScope]
    have hadv := hadv₁.goes (hgo₂.trans hgo₃)
    refine .pure hr₃ ⟨hr.cursor.frames hr₃.cursor hadv, ?_, finish_sits hr₃⟩
    exact htables.mono Table.bounded (hgo₁.upTo_within hgo₃)
  split
  · refine (commaSeparated_builds Table.bounded hr₁ definedTable_lands).bind
      fun tables r₂ hr₂ hgo₂ ⟨_, htables⟩ => ?_
    exact hrest tables hr₂ hgo₂ htables
  · refine (definedTable_lands hr₁).bind fun table r₂ hr₂ hgo₂ ⟨_, htable⟩ => ?_
    rw [lands_bind_pure]
    exact hrest [table] hr₂ hgo₂ ⟨by simpa using htable, List.pairwise_singleton _ _⟩

/-! ## Statements -/

/-- A statement sits in its place. Which one it is, the kind of its first token tells. -/
theorem statement_lands (hi : inner.Landing env) (hr : r.Placed env r.cursor.current.span.start) :
    Lands env r.cursor.current.span.start (statement env inner) r fun x _ =>
      x.Sits env.page := by
  have hdefinition : r.cursor.current.isEnd = false →
      Lands env r.cursor.current.span.start (do return .define (← definition env inner)) r
        fun x _ => Statement.Sits env.page x := fun hend =>
    (definition_lands hi hr hend).bind fun d r₁ hr₁ _ hd => .pure hr₁ hd
  rw [statement, lands_bind_current]
  split
  · refine (query_lands hi hr).bind fun q r₁ hr₁ _ ⟨_, hq, _⟩ => .pure hr₁ ?_
    obtain ⟨hframes, -, hrest⟩ := Query.sits_iff.1 hq
    exact Query.sits_iff.2 ⟨hframes, .rfl, hrest⟩
  · exact (insert_lands hi hr).bind fun x r₁ hr₁ _ hx => .pure hr₁ hx
  · exact (update_lands hi hr).bind fun x r₁ hr₁ _ hx => .pure hr₁ hx
  · exact (delete_lands hi hr).bind fun x r₁ hr₁ _ hx => .pure hr₁ hx
  all_goals first
    | rename_i hkind
      exact hdefinition (Token.isEnd_of_kind hkind (by simp))
    | exact failExpected_lands hr _

/-- A statement that is read sits in its place, and the end of the input follows. -/
theorem wholeStatement_lands (hi : inner.Landing env)
    (hr : r.Placed env r.cursor.current.span.start) :
    Lands env r.cursor.current.span.start (wholeStatement env inner) r fun x r' =>
      x.Sits env.page ∧ r'.cursor.current.isEnd = true := by
  refine (statement_lands hi hr).bind fun x r₁ hr₁ _ hx => ?_
  refine (skipOneOf_lands hr₁ (by simp)).bind fun _ r₂ hr₂ _ _ => ?_
  rw [lands_bind_current]
  split
  · rename_i hend
    exact .pure hr₂ ⟨hx, hend⟩
  · exact failExpected_lands hr₂ _

end Reader

/-- A reading that reached the end of the input met no lexical fault. -/
theorem Cursor.Placed.failure_eq_none {c : Cursor} (hc : c.Placed env)
    (hend : c.current.isEnd = true) : env.failure = none := by
  obtain ⟨ts, hts, ⟨-, hrest⟩ | ⟨hfailure, -⟩⟩ := hc.ends
  · have hcurrent : c.current ∈ ts := hrest ▸ List.mem_cons_self
    rw [hts _ hcurrent] at hend
    cases hend
  · exact hc.failure_eq ▸ hfailure

theorem TokenStream.failure_of_nil {s : TokenStream} (h : s.Ends) (hnil : s.tokens = []) :
    ∃ f, s.failure = some f := by
  obtain ⟨ts, -, ⟨hfailure, -⟩ | ⟨-, e, -, htokens⟩⟩ := h
  · exact Option.ne_none_iff_exists'.1 hfailure
  · rw [hnil] at htokens
    simp at htokens

/-- A statement without a first token starts with a piece that is no token. -/
theorem Setting.failure_of_ofText {f : Fault}
    (h : Cursor.ofText env.dialect env.source = .error f) :
    ∃ fault, env.failure = some fault ∧ f = fault.toFault := by
  have hends := TokenStream.ends_ofText env.dialect env.source
  rw [Cursor.ofText] at h
  unfold Setting.failure
  generalize TokenStream.ofText env.dialect env.source = stream at h hends ⊢
  obtain ⟨_ | ⟨t, ts⟩, failure⟩ := stream
  · obtain ⟨fault, hfault⟩ := TokenStream.failure_of_nil hends rfl
    obtain rfl : failure = some fault := hfault
    cases h
    exact ⟨fault, rfl, rfl⟩
  · cases h

theorem Cursor.lastEnd_ofText {d : Dialect} {source : List Char} {c : Cursor}
    (h : ofText d source = .ok c) : c.lastEnd = 0 := by
  rw [ofText] at h
  unfold ofStream at h
  split at h <;> cases h
  rfl

theorem Cursor.placed_ofText {c : Cursor} (h : ofText env.dialect env.source = .ok c) :
    c.Placed env := by
  obtain ⟨ho, htokens, hfailure⟩ := orderly_ofText h
  refine ⟨ho, ?_, hfailure.symm, .inl (lastEnd_ofText h)⟩
  rw [← htokens]
  exact List.suffix_refl _

/-- From its first token on, a statement is read to its end or up to a fault. -/
theorem Setting.wholeStatement_lands {c : Cursor}
    (h : Cursor.ofText env.dialect env.source = .ok c) :
    match Reader.wholeStatement env (Inner.upTo env env.limit) (Reading.start c) with
    | .ok st _ => env.failure = none ∧ st.Sits env.page
    | .error f r => env.Stops f r.cursor := by
  have hwhole := Reader.wholeStatement_lands (Inner.landing_upTo env env.limit)
    (r := Reading.start c)
    ⟨Cursor.placed_ofText h, Nat.le_refl _, .nil, .nil, Nat.zero_le _⟩
  unfold Lands Ensures at hwhole
  cases hread : Reader.wholeStatement env (Inner.upTo env env.limit) (Reading.start c) with
  | error f r =>
      rw [hread] at hwhole
      exact hwhole
  | ok st r =>
      rw [hread] at hwhole
      obtain ⟨hr, -, hst, hend⟩ := hwhole
      exact ⟨hr.cursor.failure_eq_none hend, hst⟩

/-- The reading of the statement ends with this fault at this cursor. -/
def Setting.Halts (env : Setting) (f : Fault) (c : Cursor) : Prop :=
  ∃ first r, Cursor.ofText env.dialect env.source = .ok first ∧
    Reader.wholeStatement env (Inner.upTo env env.limit) (Reading.start first) = .error f r ∧
      r.cursor = c

/-- Where a reading halts, the fault is one that the text explains. -/
theorem Setting.Halts.stops {f : Fault} {c : Cursor} (h : env.Halts f c) : env.Stops f c := by
  obtain ⟨first, r, hfirst, hread, rfl⟩ := h
  have hwhole := Setting.wholeStatement_lands hfirst
  rwa [hread] at hwhole

/-- A reading that fails halts at a cursor, unless the statement has no first token. -/
theorem Setting.halts_of_run {f : Fault} (h : env.run = .error f) :
    (∃ fault, env.failure = some fault ∧ f = fault.toFault) ∨ ∃ c, env.Halts f c := by
  unfold Setting.run at h
  split at h
  · rename_i hfirst
    cases h
    exact .inl (Setting.failure_of_ofText hfirst)
  · rename_i first hfirst
    split at h
    · cases h
    · rename_i r hread
      cases h
      exact .inr ⟨r.cursor, first, r, hfirst, hread, rfl⟩

/-- The reading of a statement gives a tree in which everything sits in its
place, after all text was split into tokens, or a fault that the text explains. -/
theorem Setting.run_lands (env : Setting) :
    match env.run with
    | .ok (st, _) => env.failure = none ∧ st.Sits env.page
    | .error f => env.Explains f := by
  cases hrun : env.run with
  | error f =>
      rcases Setting.halts_of_run hrun with ⟨fault, hfault, rfl⟩ | ⟨c, hhalts⟩
      · exact ⟨fault, hfault, rfl, rfl⟩
      · exact hhalts.stops.explains
  | ok result =>
      unfold Setting.run at hrun
      split at hrun
      · cases hrun
      · rename_i first hfirst
        have hwhole := Setting.wholeStatement_lands hfirst
        split at hrun
        · rename_i st r hread
          rw [hread] at hwhole
          cases hrun
          exact hwhole
        · cases hrun

end SqlMarkers
