/-
SqlMarkers.Proofs.Trail.Statement — the trails of queries and statements.

Queries close the circle: the readers that may nest `n + 1` levels deeper are
built from those that may nest `n` levels deeper, so all of them leave trails
(`Inner.tracked_upTo`). A statement that is read leaves a trail from its
first token to the end of the input (`Setting.run_yields`).

A query is compared with its parts in the order of the tree. The order in which its clauses
were read is the same one but for `TOP`, which stands in front of the items and is the paging
of the query; so the parts in hand are a permutation of the parts of the tree
(`perm_topParts`).
-/
import SqlMarkers.Proofs.Trail.Clause
import SqlMarkers.Reader.Statement

namespace SqlMarkers

namespace Reader

variable {env : Setting} {inner : Inner} {s r r' : Reading} {h : List Part}

/-! ## Queries -/

/-- `DISTINCT` and the like are plain. -/
theorem distinctness_yields (hr : Rested env s h r) {b : Bool}
    (hn : Yields distinctness r b r') : Rested env s h r' := by
  replace hn := bind_current hn
  split at hn
  · rename_i hk
    obtain ⟨_, hnext, -⟩ := yields_map.1 hn
    exact hr.reached.nextOf hk hnext rfl
  · rename_i hk
    obtain ⟨_, hnext, -⟩ := yields_map.1 hn
    exact hr.reached.nextOf hk hnext rfl
  · rename_i hk
    obtain ⟨_, hnext, -⟩ := yields_map.1 hn
    exact hr.reached.nextOf hk hnext rfl
  · obtain ⟨-, rfl⟩ := yields_pure.1 hn
    exact hr

/-- A word is compared with names only. -/
theorem isPlain_of_isWord {t : Token} {word : String} (h : t.isWord word = true) :
    t.kind.isPlain = true := by
  simp only [Token.isWord, Bool.and_eq_true, beq_iff_eq] at h
  rw [h.1]
  rfl

/-- `NOWAIT` and `SKIP LOCKED` are consumed as names, without a look behind them. -/
theorem lockWait_yields (hr : Rested env s h r) {u : Unit} (hn : Yields lockWait r u r') :
    Rested env s h r' := by
  replace hn := bind_current hn
  rcases yields_ite.1 hn with ⟨hword, hn⟩ | ⟨-, hn⟩
  · exact hr.reached.next (isPlain_of_isWord hword) hn
  · rcases yields_ite.1 hn with ⟨hword, hn⟩ | ⟨-, hn⟩
    · obtain ⟨t, _, hpeek, hn⟩ := yields_bind.1 hn
      obtain ⟨ht, rfl⟩ := peek_yields hpeek
      rcases yields_ite.1 hn with ⟨hlocked, hn⟩ | ⟨-, hn⟩
      · obtain ⟨_, r₁, hn₁, hn⟩ := yields_bind.1 hn
        exact hr.reached.nextTwo (isPlain_of_isWord hword) ht (isPlain_of_isWord hlocked) hn₁ hn
      · obtain ⟨-, rfl⟩ := yields_pure.1 hn
        exact hr
    · obtain ⟨-, rfl⟩ := yields_pure.1 hn
      exact hr

/-- Locks and options put nothing in hand: their words and parentheses are passed. -/
theorem trailingOptions_yields (hr : Rested env s h r) {options : Option Lock × Option String}
    (hn : Yields (trailingOptions env) r options r') : Rested env s h r' := by
  refine repeatStep_yields (fun _ => Rested env s h) (fun _ => Rested env s h) ?_ hr hn
  rintro ⟨lock, option⟩ r₁ round r₂ hr₁ hround
  replace hround := bind_current hround
  split at hround
  · rename_i hk
    obtain ⟨_, r₃, hnext, hround⟩ := yields_bind.1 hround
    have hr₃ := hr₁.reached.nextOf hk hnext rfl
    have hlock : ∀ {lock : Lock}, r₃.cursor.current.kind.isPlain = true → Yields (do
        next
        lockWait
        return .again (some lock, option) :
          Reader (Round (Option Lock × Option String) (Option Lock × Option String))) r₃ round r₂ →
        round.Meets (fun _ => Rested env s h) (fun _ => Rested env s h) r₂ := by
      intro lock hplain hround
      obtain ⟨_, r₄, hnext, hround⟩ := yields_bind.1 hround
      obtain ⟨_, hwait, rfl⟩ := yields_map.1 hround
      exact lockWait_yields (hr₃.reached.next hplain hnext) hwait
    replace hround := bind_current hround
    split at hround
    · rename_i hk
      exact hlock (by rw [hk]; rfl) (bind_pure hround)
    · rename_i hk
      exact hlock (by rw [hk]; rfl) (bind_pure hround)
    · exact (bind_failExpected hround).elim
  · rename_i hk
    obtain ⟨_, r₃, hnext, hround⟩ := yields_bind.1 hround
    obtain ⟨_, r₄, hin, hround⟩ := yields_bind.1 hround
    obtain ⟨_, r₅, hshare, hround⟩ := yields_bind.1 hround
    obtain ⟨_, hmode, rfl⟩ := yields_map.1 hround
    have hr₄ := (hr₁.reached.nextOf hk hnext rfl).reached.acceptKeyword hin
    exact (hr₄.reached.acceptKeyword hshare).reached.acceptKeyword hmode
  · rename_i hk
    obtain ⟨t, _, hpeek, hround⟩ := yields_bind.1 hround
    obtain ⟨-, rfl⟩ := peek_yields hpeek
    rcases yields_ite.1 hround with ⟨-, hround⟩ | ⟨-, hround⟩
    · obtain ⟨_, r₃, hnext, hround⟩ := yields_bind.1 hround
      obtain ⟨_, r₄, hpass, hround⟩ := yields_bind.1 hround
      replace hround := bind_lastEnd hround
      obtain ⟨rfl, rfl⟩ := yields_pure.1 hround
      exact ((hr₁.reached.nextOf hk hnext rfl).reached.passParentheses hpass).rested
    · obtain ⟨rfl, rfl⟩ := yields_pure.1 hround
      exact hr₁
  · obtain ⟨rfl, rfl⟩ := yields_pure.1 hround
    exact hr₁

/-- Where no set operation is refused, nothing happens. -/
theorem refuseSetOperation_yields {u : Unit} (hn : Yields refuseSetOperation r u r') : r = r' := by
  replace hn := bind_current hn
  split at hn
  · exact (yields_failHere.1 hn).elim
  · exact (yields_failHere.1 hn).elim
  · exact (yields_failHere.1 hn).elim
  · exact (yields_pure.1 hn).2

/-- The words in front of a select list, in the dialect that has them. -/
theorem selectOptions_yields {β : Type} {c : Prop} [Decidable c] {ks : List Keyword}
    {f : Unit → Reader β} {b : β} (hr : Rested env s h r)
    (hn : Yields (if c then do
        let u ← skipKeywords ks
        f u
      else f ()) r b r') : ∃ r₁, Rested env s h r₁ ∧ Yields (f ()) r₁ b r' := by
  rcases yields_ite.1 hn with ⟨-, hn⟩ | ⟨-, hn⟩
  · obtain ⟨_, r₁, hskip, hn⟩ := yields_bind.1 hn
    exact ⟨r₁, hr.skipKeywords hskip, hn⟩
  · exact ⟨r, hr, hn⟩

/-- `TOP` stands in front of the items but is the paging of the query. -/
theorem perm_topParts {top paging : Option Paging} (hboth : (top.isSome && paging.isSome) = false)
    (as : List Part) :
    (Paging.partsIn top ++ as ++ Paging.partsIn paging).Perm
      (as ++ Paging.partsIn (paging <|> top)) := by
  cases paging with
  | none => simpa [Paging.partsIn] using List.perm_append_comm
  | some p =>
      cases top with
      | none => simp [Paging.partsIn]
      | some t => simp at hboth

/-- A query that is read leaves a trail from its first token on. Its own scope started empty, so
all that is in hand at its end was put there by its clauses. -/
theorem query_yields (hi : inner.Tracked env) {q : Query} (hn : Yields (query env inner) r q r') :
    QueryRead env r q r' := by
  replace hn := bind_here hn
  obtain ⟨_, r₁, hselect, hn⟩ := yields_bind.1 hn
  obtain ⟨-, hkind, hnext⟩ := acceptKeyword_yields hselect
  obtain ⟨c, hc, rfl⟩ := yields_onCursor.1 hnext
  have hr₁ : Rested env (r.moved c) [] (r.moved c) := ⟨[], .settled, by simp, .start _⟩
  obtain ⟨distinct, r₂, hdistinct, hn⟩ := yields_bind.1 hn
  obtain ⟨r₃, hr₃, hn⟩ := selectOptions_yields (distinctness_yields hr₁ hdistinct) hn
  obtain ⟨top, r₄, htop, hn⟩ := yields_bind.1 hn
  have hr₄ := optionalTop_yields hr₃ htop
  obtain ⟨items, r₅, hitems, hn⟩ := yields_bind.1 hn
  have hr₅ := commaSeparated_yields Rested.reached (fun hr hn => selectItem_yields hi hr hn)
    hr₄.reached hitems
  obtain ⟨sources, r₆, hsources, hn⟩ := yields_bind.1 hn
  have hr₆ := fromClause_yields hi hr₅ hsources
  obtain ⟨filter, r₇, hfilter, hn⟩ := yields_bind.1 hn
  have hr₇ := conditionClause_yields hi hr₆ hfilter
  obtain ⟨grouping, r₈, hgrouping, hn⟩ := yields_bind.1 hn
  have hr₈ := groupBy_yields hi hr₇ hgrouping
  obtain ⟨having', r₉, hhaving, hn⟩ := yields_bind.1 hn
  have hr₉ := conditionClause_yields hi hr₈ hhaving
  obtain ⟨order, r₁₀, horder, hn⟩ := yields_bind.1 hn
  have hr₁₀ := orderBy_yields hi hr₉ horder
  replace hn := bind_here hn
  obtain ⟨paging, r₁₁, hpaging, hn⟩ := yields_bind.1 hn
  have hr₁₁ := optionalPaging_yields hr₁₀ hpaging
  rcases yields_ite.1 hn with ⟨-, hn⟩ | ⟨hboth, hn⟩
  · obtain ⟨_, _, hfail, -⟩ := yields_bind.1 hn
    exact (yields_failAt.1 hfail).elim
  · obtain ⟨⟨lock, option⟩, r₁₂, hoptions, hn⟩ := yields_bind.1 hn
    have hr₁₂ := trailingOptions_yields hr₁₁ hoptions
    obtain ⟨_, _, hrefuse, hn⟩ := yields_bind.1 hn
    obtain rfl := refuseSetOperation_yields hrefuse
    replace hn := bind_lastEnd hn
    obtain ⟨_, _, hget, hn⟩ := yields_bind.1 hn
    obtain ⟨rfl, rfl⟩ := yields_get.1 hget
    obtain ⟨rfl, rfl⟩ := yields_pure.1 hn
    refine ⟨Token.isKeyword_iff.2 hkind, ⟨c, hc, hr₁₂.perm ?_⟩, rfl, rfl⟩
    have hperm := perm_topParts (Bool.eq_false_iff.2 hboth)
      (items.flatMap SelectItem.parts ++ TableSource.partsIn (sources.getD []) ++
        ConditionList.partsIn filter ++ OrderItem.partsIn grouping ++
        ConditionList.partsIn having' ++ OrderItem.partsIn order)
    simpa [Query.parts] using hperm

end Reader

/-- The readers of what is nested leave trails at every depth. -/
theorem Inner.tracked_upTo (env : Setting) (n : Nat) : (Inner.upTo env n).Tracked env := by
  induction n with
  | zero => exact Inner.tracked_exhausted env
  | succ n ih =>
      constructor
      · intro r r' q hn
        obtain ⟨r₁, hbody, rfl⟩ := Reader.nested_yields hn
        obtain ⟨hselect, ⟨c, hc, hrest⟩, hscope, hspan⟩ := Reader.query_yields ih hbody
        have hback : Rested env (r.moved c) q.parts r₁ := Rested.fromLevel hrest
        exact ⟨hselect, ⟨c, hc, hback.level _⟩, hscope, hspan⟩
      · intro s r r' h u hr hn
        obtain ⟨r₁, hbody, rfl⟩ := Reader.nested_yields hn
        exact (Reader.operand_yields ih (hr.level _) hbody).level _
      · intro s r r' h p hr hn
        obtain ⟨r₁, hbody, rfl⟩ := Reader.nested_yields hn
        exact (Reader.predicate_yields ih (hr.level _) hbody).level _
      · intro s r r' h cs hr hn
        obtain ⟨r₁, hbody, rfl⟩ := Reader.nested_yields hn
        exact (Reader.group_yields ih (hr.level _) hbody).level _
      · intro s r r' h ss hr hn
        obtain ⟨r₁, hbody, rfl⟩ := Reader.nested_yields hn
        exact (Reader.tableSources_yields ih (hr.level _) hbody).level _

namespace Reader

variable {env : Setting} {inner : Inner} {s r r' : Reading} {h : List Part}

/-! ## Changes -/

/-- Expressions in parentheses put their parts in hand, and the parenthesis settles the edge. -/
theorem exprTuple_yields (hi : inner.Tracked env) (hr : Reached env s h r) {xs : List Expr}
    (hn : Yields (exprTuple env inner) r xs r') : Settled env s (h ++ Expr.partsIn xs) r' := by
  obtain ⟨opening, r₁, hopen, hn⟩ := yields_bind.1 hn
  have hr₁ := (hr.openParen hopen).reached
  replace hn := bind_atSymbol hn
  rcases yields_ite.1 hn with ⟨-, hn⟩ | ⟨-, hn⟩
  · obtain ⟨_, hclose, rfl⟩ := yields_map.1 (bind_pure hn)
    simpa [Expr.partsIn] using hr₁.close hclose
  · obtain ⟨values, r₂, hvalues, hn⟩ := yields_bind.1 hn
    obtain ⟨_, hclose, rfl⟩ := yields_map.1 hn
    exact (expressions_yields hi hr₁ hvalues).reached.close hclose

theorem valuesRow_yields (hi : inner.Tracked env) (hr : Reached env s h r) {row : ValuesRow}
    (hn : Yields (valuesRow env inner) r row r') :
    Settled env s (h ++ Expr.partsIn row.values) r' := by
  replace hn := bind_here hn
  obtain ⟨values, r₁, hvalues, hn⟩ := yields_bind.1 hn
  replace hn := bind_lastEnd hn
  obtain ⟨rfl, rfl⟩ := yields_pure.1 hn
  exact exprTuple_yields hi hr hvalues

theorem assignment_yields (hi : inner.Tracked env) (hr : Reached env s h r) {a : Assignment}
    (hn : Yields (assignment env inner) r a r') :
    Rested env s (h ++ (a.column.parts ++ a.value.parts)) r' := by
  obtain ⟨column, r₁, hcolumn, hn⟩ := yields_bind.1 hn
  obtain ⟨_, r₂, heq, hn⟩ := yields_bind.1 hn
  obtain ⟨value, hvalue, rfl⟩ := yields_map.1 hn
  obtain ⟨-, hkind, hnext⟩ := acceptSymbol_yields heq
  have hr₂ := (expression_yields hi hr hcolumn).reached.nextOf hkind hnext rfl
  simpa using (expression_yields hi hr₂.reached hvalue).1.rested

theorem assignments_yields (hi : inner.Tracked env) (hr : Reached env s h r)
    {as : List Assignment} (hn : Yields (assignments env inner) r as r') :
    Rested env s (h ++ Assignment.partsIn as) r' :=
  commaSeparated_yields Rested.reached (fun hr hn => assignment_yields hi hr hn) hr hn

/-- Where there are no columns, nothing moved. -/
theorem insertColumns_yields (hi : inner.Tracked env) (hr : Reached env s h r) {xs : List Expr}
    (hn : Yields (insertColumns env inner) r xs r') : Reached env s (h ++ Expr.partsIn xs) r' := by
  replace hn := bind_atSymbol hn
  rcases yields_ite.1 hn with ⟨-, hn⟩ | ⟨-, hn⟩
  · obtain ⟨t, _, hpeek, hn⟩ := yields_bind.1 hn
    obtain ⟨-, rfl⟩ := peek_yields hpeek
    rcases yields_ite.1 hn with ⟨-, hn⟩ | ⟨-, hn⟩
    · obtain ⟨rfl, rfl⟩ := yields_pure.1 hn
      simpa [Expr.partsIn] using hr
    · exact (exprTuple_yields hi hr hn).reached
  · obtain ⟨rfl, rfl⟩ := yields_pure.1 hn
    simpa [Expr.partsIn] using hr

theorem rows_yields (hi : inner.Tracked env) (hr : Reached env s h r) {k : Keyword}
    (hk : r.cursor.current.kind = .keyword k) {source : InsertSource}
    (hn : Yields (insertSource.rows env inner) r source r') :
    Reached env s (h ++ source.parts) r' := by
  obtain ⟨_, r₁, hnext, hn⟩ := yields_bind.1 hn
  obtain ⟨rows, hrows, rfl⟩ := yields_map.1 hn
  exact (commaSeparated_yields Settled.reached (fun hr hn => valuesRow_yields hi hr hn)
    (hr.nextOf hk hnext rfl).reached hrows).reached

/-- The rows of an `INSERT` put their parts in hand. -/
theorem insertSource_yields (hi : inner.Tracked env) (hr : Reached env s h r)
    {source : InsertSource} (hn : Yields (insertSource env inner) r source r') :
    Reached env s (h ++ source.parts) r' := by
  replace hn := bind_current hn
  split at hn
  · rename_i hk
    exact rows_yields hi hr hk hn
  · rename_i hk
    exact rows_yields hi hr hk hn
  · rename_i hk
    obtain ⟨_, r₁, hnext, hn⟩ := yields_bind.1 hn
    obtain ⟨as, hassign, rfl⟩ := yields_map.1 hn
    exact (assignments_yields hi (hr.nextOf hk hnext rfl).reached hassign).reached
  · obtain ⟨q, hembed, rfl⟩ := yields_map.1 hn
    exact (hi.embed hr hembed).1
  · obtain ⟨opening, r₁, hopen, hn⟩ := yields_bind.1 hn
    obtain ⟨q, r₂, hembed, hn⟩ := yields_bind.1 hn
    obtain ⟨_, hclose, rfl⟩ := yields_map.1 hn
    exact ((hi.embed (hr.openParen hopen).reached hembed).1.close hclose).reached
  · exact (yields_failExpected.1 hn).elim

/-- The words in front of the assignments are plain. -/
theorem onDuplicate_yields (hi : inner.Tracked env) (hr : Reached env s h r)
    {as : List Assignment} (hn : Yields (onDuplicate env inner) r as r') :
    Reached env s (h ++ Assignment.partsIn as) r' := by
  replace hn := bind_atKeyword hn
  obtain ⟨present, hpresent, hn⟩ := peekBehind_yields hn
  rcases yields_ite.1 hn with ⟨htrue, hn⟩ | ⟨-, hn⟩
  · obtain ⟨hon, t, ht, hkey⟩ := hpresent htrue
    obtain ⟨_, r₁, hn₁, hn⟩ := yields_bind.1 hn
    obtain ⟨_, r₂, hn₂, hn⟩ := yields_bind.1 hn
    obtain ⟨_, r₃, hkeyword, hn⟩ := yields_bind.1 hn
    obtain ⟨_, r₄, hupdate, hn⟩ := yields_bind.1 hn
    have hr₂ := hr.nextTwo (by rw [hon]; rfl) ht (by rw [Token.isKeyword_iff.1 hkey]; rfl) hn₁ hn₂
    have hr₄ := (hr₂.reached.acceptKeyword hkeyword).reached.acceptKeyword hupdate
    exact (assignments_yields hi hr₄.reached hn).reached
  · obtain ⟨rfl, rfl⟩ := yields_pure.1 hn
    simpa [Assignment.partsIn] using hr

/-- What a statement leaves behind when it was read from `r` to `r'`. -/
structure StatementRead (env : Setting) (r : Reading) (st : Statement) (r' : Reading) : Prop where
  trail : Reached env r st.parts r'
  scope : st.scope = r'.draft.finish
  span : st.span = ⟨r.cursor.current.span.start, r'.cursor.lastEnd⟩

/-- The scope is resolved out of the draft as it is; nothing moves. -/
theorem finishedScope_yields {scope : Scope} (hn : Yields finishedScope r scope r') :
    scope = r.draft.finish ∧ r = r' := by
  obtain ⟨_, hget, rfl⟩ := yields_map.1 hn
  obtain ⟨rfl, rfl⟩ := yields_get.1 hget
  exact ⟨rfl, rfl⟩

theorem insert_yields (hi : inner.Tracked env) {st : Insert}
    (hn : Yields (insert env inner) r st r') : StatementRead env r (.insert st) r' := by
  replace hn := bind_here hn
  obtain ⟨_, r₁, hinsert, hn⟩ := yields_bind.1 hn
  have hr₁ := (Reached.refl env r).acceptKeyword hinsert
  obtain ⟨_, r₂, hskip, hn⟩ := yields_bind.1 hn
  obtain ⟨_, r₃, hinto, hn⟩ := yields_bind.1 hn
  have hr₃ := (hr₁.skipKeywords hskip).skipKeyword hinto
  obtain ⟨table, r₄, htable, hn⟩ := yields_bind.1 hn
  have hr₄ := tableReference_yields hr₃.reached htable
  obtain ⟨columns, r₅, hcolumns, hn⟩ := yields_bind.1 hn
  have hr₅ := insertColumns_yields hi hr₄.reached hcolumns
  obtain ⟨source, r₆, hsource, hn⟩ := yields_bind.1 hn
  have hr₆ := insertSource_yields hi hr₅ hsource
  obtain ⟨duplicate, r₇, hduplicate, hn⟩ := yields_bind.1 hn
  have hr₇ := onDuplicate_yields hi hr₆ hduplicate
  replace hn := bind_lastEnd hn
  obtain ⟨scope, hscope, rfl⟩ := yields_map.1 hn
  obtain ⟨rfl, rfl⟩ := finishedScope_yields hscope
  exact ⟨hr₇, rfl, rfl⟩

theorem update_yields (hi : inner.Tracked env) {st : Update}
    (hn : Yields (update env inner) r st r') : StatementRead env r (.update st) r' := by
  replace hn := bind_here hn
  obtain ⟨_, r₁, hupdate, hn⟩ := yields_bind.1 hn
  have hr₁ := (Reached.refl env r).acceptKeyword hupdate
  obtain ⟨_, r₂, hskip, hn⟩ := yields_bind.1 hn
  obtain ⟨table, r₃, htable, hn⟩ := yields_bind.1 hn
  have hr₃ := tableReference_yields (hr₁.skipKeywords hskip).reached htable
  obtain ⟨_, r₄, hset, hn⟩ := yields_bind.1 hn
  obtain ⟨as, r₅, hassign, hn⟩ := yields_bind.1 hn
  have hr₅ := assignments_yields hi (hr₃.reached.acceptKeyword hset).reached hassign
  obtain ⟨filter, r₆, hfilter, hn⟩ := yields_bind.1 hn
  have hr₆ := conditionClause_yields hi hr₅ hfilter
  obtain ⟨order, r₇, horder, hn⟩ := yields_bind.1 hn
  have hr₇ := orderBy_yields hi hr₆ horder
  obtain ⟨paging, r₈, hpaging, hn⟩ := yields_bind.1 hn
  have hr₈ := optionalPaging_yields hr₇ hpaging
  replace hn := bind_lastEnd hn
  obtain ⟨scope, hscope, rfl⟩ := yields_map.1 hn
  obtain ⟨rfl, rfl⟩ := finishedScope_yields hscope
  exact ⟨hr₈.reached, rfl, rfl⟩

theorem delete_yields (hi : inner.Tracked env) {st : Delete}
    (hn : Yields (delete env inner) r st r') : StatementRead env r (.delete st) r' := by
  replace hn := bind_here hn
  obtain ⟨_, r₁, hdelete, hn⟩ := yields_bind.1 hn
  have hr₁ := (Reached.refl env r).acceptKeyword hdelete
  obtain ⟨_, r₂, hskip, hn⟩ := yields_bind.1 hn
  obtain ⟨_, r₃, hfrom, hn⟩ := yields_bind.1 hn
  have hr₃ := (hr₁.skipKeywords hskip).skipKeyword hfrom
  obtain ⟨table, r₄, htable, hn⟩ := yields_bind.1 hn
  have hr₄ := tableReference_yields hr₃.reached htable
  obtain ⟨filter, r₅, hfilter, hn⟩ := yields_bind.1 hn
  have hr₅ := conditionClause_yields hi hr₄ hfilter
  obtain ⟨order, r₆, horder, hn⟩ := yields_bind.1 hn
  have hr₆ := orderBy_yields hi hr₅ horder
  obtain ⟨paging, r₇, hpaging, hn⟩ := yields_bind.1 hn
  have hr₇ := optionalPaging_yields hr₆ hpaging
  replace hn := bind_lastEnd hn
  obtain ⟨scope, hscope, rfl⟩ := yields_map.1 hn
  obtain ⟨rfl, rfl⟩ := finishedScope_yields hscope
  exact ⟨hr₇.reached, rfl, rfl⟩

/-! ## Definitions -/

theorem definitionTarget_yields (hr : Rested env s h r) {verb : Keyword} {u : Unit}
    (hn : Yields (definitionTarget verb) r u r') : Rested env s h r' := by
  obtain ⟨found, r₁, hskip, hn⟩ := yields_bind.1 hn
  have hr₁ := hr.skipKeyword hskip
  rcases yields_ite.1 hn with ⟨-, hn⟩ | ⟨-, hn⟩
  · obtain ⟨-, rfl⟩ := yields_pure.1 hn
    exact hr₁
  · replace hn := bind_current hn
    rcases yields_ite.1 hn with ⟨-, hn⟩ | ⟨-, hn⟩
    · exact (yields_failExpected.1 hn).elim
    · exact (yields_failHere.1 hn).elim

theorem definedTable_yields (hr : Reached env s h r) {t : Table}
    (hn : Yields (definedTable env) r t r') : Settled env s (h ++ [.table t]) r' := by
  obtain ⟨⟨t₁, token⟩, r₁, hname, hn⟩ := yields_bind.1 hn
  obtain ⟨_, hdeclare, rfl⟩ := yields_map.1 hn
  obtain ⟨front, c, hnamed, rfl, hdecoded, hspan⟩ := tableName_yields hname
  obtain rfl := yields_declare.1 hdeclare
  obtain ⟨log, e, t⟩ := hr
  exact ⟨_, t.table hnamed (.start _) rfl hdecoded hspan⟩

/-- The rest of a definition is passed token by token, owners noted and `?` counted on the way;
queries in parentheses are attached to the scope. -/
theorem remainder_yields (hi : inner.Tracked env) (hr : Running env s h r) {u : Unit}
    (hn : Yields (remainder inner) r u r') : Running env s h r' := by
  refine repeatStep_yields (fun _ => Running env s h) (fun _ => Running env s h) ?_ hr hn
  intro _ r₁ round r₂ hr₁ hround
  replace hround := bind_current hround
  rcases yields_ite.1 hround with ⟨-, hround⟩ | ⟨hstop, hround⟩
  · obtain ⟨rfl, rfl⟩ := yields_pure.1 hround
    exact hr₁
  · rcases yields_ite.1 hround with ⟨-, hround⟩ | ⟨-, hround⟩
    · obtain ⟨_, hparens, rfl⟩ := yields_map.1 hround
      exact (parentheses_yields hi hr₁.reached hparens).running
    · obtain ⟨_, hconsume, rfl⟩ := yields_map.1 hround
      refine hr₁.consume ?_ hconsume
      simp only [Bool.or_eq_true, not_or, Bool.not_eq_true] at hstop
      exact hstop.1

theorem definitionHead_yields (hr : Reached env s h r)
    (hplain : r.cursor.current.kind.isPlain = true) {kind : DefinitionKind}
    (hn : Yields definitionHead r kind r') : Rested env s h r' := by
  replace hn := bind_current hn
  split at hn
  · obtain ⟨_, r₁, hnext, hn⟩ := yields_bind.1 hn
    obtain ⟨_, r₂, hskip, hn⟩ := yields_bind.1 hn
    obtain ⟨_, r₃, htarget, hn⟩ := yields_bind.1 hn
    obtain ⟨hasIf, r₄, hif, hn⟩ := yields_bind.1 hn
    have hr₂ := (hr.next hplain hnext).skipKeyword hskip
    have hr₄ := (definitionTarget_yields hr₂ htarget).skipKeyword hif
    rcases yields_ite.1 hn with ⟨-, hn⟩ | ⟨-, hn⟩
    · obtain ⟨_, r₅, hnot, hn⟩ := yields_bind.1 hn
      obtain ⟨_, hexists, -⟩ := yields_map.1 hn
      exact (hr₄.reached.acceptKeyword hnot).reached.acceptKeyword hexists
    · obtain ⟨-, rfl⟩ := yields_pure.1 hn
      exact hr₄
  · obtain ⟨_, r₁, hnext, hn⟩ := yields_bind.1 hn
    obtain ⟨_, r₂, hskip, hn⟩ := yields_bind.1 hn
    obtain ⟨_, htarget, -⟩ := yields_map.1 hn
    exact definitionTarget_yields ((hr.next hplain hnext).skipKeyword hskip) htarget
  · obtain ⟨_, r₁, hnext, hn⟩ := yields_bind.1 hn
    obtain ⟨_, r₂, hskip, hn⟩ := yields_bind.1 hn
    obtain ⟨_, r₃, htarget, hn⟩ := yields_bind.1 hn
    obtain ⟨hasIf, r₄, hif, hn⟩ := yields_bind.1 hn
    have hr₂ := (hr.next hplain hnext).skipKeyword hskip
    have hr₄ := (definitionTarget_yields hr₂ htarget).skipKeyword hif
    rcases yields_ite.1 hn with ⟨-, hn⟩ | ⟨-, hn⟩
    · obtain ⟨_, hexists, -⟩ := yields_map.1 hn
      exact hr₄.reached.acceptKeyword hexists
    · obtain ⟨-, rfl⟩ := yields_pure.1 hn
      exact hr₄
  · obtain ⟨_, r₁, hnext, hn⟩ := yields_bind.1 hn
    obtain ⟨_, hskip, -⟩ := yields_map.1 hn
    exact (hr.next hplain hnext).skipKeyword hskip

/-- A definition has its tables as parts. Its text is kept too, but as a field of its own, and what
stands in it is in no other part of the tree. -/
theorem definition_yields (hi : inner.Tracked env)
    (hplain : r.cursor.current.kind.isPlain = true) {st : Definition}
    (hn : Yields (definition env inner) r st r') : StatementRead env r (.define st) r' := by
  replace hn := bind_here hn
  obtain ⟨kind, r₁, hhead, hn⟩ := yields_bind.1 hn
  have hr₁ := definitionHead_yields (Reached.refl env r) hplain hhead
  have hrest : ∀ {tables : List Table} {r₂ : Reading},
      Settled env r (tables.map .table) r₂ → Yields (do
        remainder inner
        let stop ← lastEnd
        return { kind, tables, text := sourceText env r.cursor.current.span.start stop
                 scope := ← finishedScope, span := ⟨r.cursor.current.span.start, stop⟩ } :
          Reader Definition) r₂ st r' → StatementRead env r (.define st) r' := by
    intro tables r₂ hr₂ hn
    obtain ⟨_, r₃, hremainder, hn⟩ := yields_bind.1 hn
    have hr₃ := remainder_yields hi hr₂.running hremainder
    replace hn := bind_lastEnd hn
    obtain ⟨scope, hscope, rfl⟩ := yields_map.1 hn
    obtain ⟨rfl, rfl⟩ := finishedScope_yields hscope
    exact ⟨hr₃.reached, rfl, rfl⟩
  rcases yields_ite.1 hn with ⟨-, hn⟩ | ⟨-, hn⟩
  · obtain ⟨tables, r₂, htables, hn⟩ := yields_bind.1 hn
    refine hrest ?_ hn
    have := commaSeparated_yields Settled.reached (fun hr hn => definedTable_yields hr hn)
      hr₁.reached htables
    simpa [List.map_eq_flatMap] using this
  · obtain ⟨t, r₂, htable, hn⟩ := yields_bind.1 hn
    have hr₂ : Settled env r ([t].map .table) r₂ := definedTable_yields hr₁.reached htable
    exact hrest hr₂ (bind_pure hn)

/-! ## Statements -/

/-- A statement that is read leaves a trail, whichever it is. -/
theorem statement_yields (hi : inner.Tracked env) {st : Statement}
    (hn : Yields (statement env inner) r st r') : StatementRead env r st r' := by
  replace hn := bind_current hn
  split at hn
  · rename_i hk
    obtain ⟨q, hquery, rfl⟩ := yields_map.1 hn
    have hread := query_yields hi hquery
    obtain ⟨c, hc, log, e, -, t⟩ := hread.trail
    have hstart : Trail env r [⟨r.cursor.current, .plain⟩] [] .settled (r.moved c) :=
      (Trail.start r).pass (by rw [hk]; rfl) hc (by rw [Token.isName, hk]; rfl)
    exact ⟨⟨_, e, hstart.trans t⟩, hread.scope, hread.span⟩
  · obtain ⟨i, hinsert, rfl⟩ := yields_map.1 hn
    exact insert_yields hi hinsert
  · obtain ⟨u, hupdate, rfl⟩ := yields_map.1 hn
    exact update_yields hi hupdate
  · obtain ⟨d, hdelete, rfl⟩ := yields_map.1 hn
    exact delete_yields hi hdelete
  · rename_i hk
    obtain ⟨d, hdefine, rfl⟩ := yields_map.1 hn
    exact definition_yields hi (by rw [hk]; rfl) hdefine
  · rename_i hk
    obtain ⟨d, hdefine, rfl⟩ := yields_map.1 hn
    exact definition_yields hi (by rw [hk]; rfl) hdefine
  · rename_i hk
    obtain ⟨d, hdefine, rfl⟩ := yields_map.1 hn
    exact definition_yields hi (by rw [hk]; rfl) hdefine
  · rename_i hk
    obtain ⟨d, hdefine, rfl⟩ := yields_map.1 hn
    exact definition_yields hi (by rw [hk]; rfl) hdefine
  · exact (yields_failExpected.1 hn).elim

/-- Nothing is left but the end of the input, with a `;` in front of it or not. -/
def AtEnd (c : Cursor) : Prop :=
  ∃ e : Token, e.isEnd = true ∧
    (c.rest = [e] ∨ ∃ m : Token, m.isSymbol .semicolon = true ∧ c.rest = [m, e])

/-- Behind a whole statement there is at most a `;`. -/
theorem wholeStatement_yields (hi : inner.Tracked env) {st : Statement}
    (ho : r.cursor.Orderly) (hn : Yields (wholeStatement env inner) r st r') :
    ∃ r₁, StatementRead env r st r₁ ∧ r'.passages = r₁.passages ∧ AtEnd r₁.cursor := by
  obtain ⟨st₁, r₁, hst, hn⟩ := yields_bind.1 hn
  have hread := statement_yields hi hst
  obtain ⟨log, e, t⟩ := hread.trail
  have ho₁ := t.steps.orderly ho
  obtain ⟨semicolon, r₂, hskip, hn⟩ := yields_bind.1 hn
  replace hn := bind_current hn
  rcases yields_ite.1 hn with ⟨hend, hn⟩ | ⟨-, hn⟩
  · obtain ⟨rfl, rfl⟩ := yields_pure.1 hn
    rcases skipOneOf_yields hskip with ⟨-, hkind, hnext⟩ | ⟨-, -, rfl⟩
    · obtain ⟨c, hc, rfl⟩ := yields_onCursor.1 hnext
      have hmark := Token.isSymbol_iff.2 (List.mem_singleton.1 hkind)
      have hrest := Cursor.next_yields ho₁ (Token.isEnd_of_isSymbol hmark) hc
      have hlast := (ho₁.next (Token.isEnd_of_isSymbol hmark) hc).rest_of_isEnd hend
      exact ⟨r₁, hread, rfl, c.current, hend, .inr ⟨_, hmark, by rw [hrest.1, hlast]⟩⟩
    · exact ⟨r₁, hread, rfl, _, hend, .inl (ho₁.rest_of_isEnd hend)⟩
  · exact (yields_failExpected.1 hn).elim

end Reader

/-- A statement that is read leaves a trail from its first token to its end. -/
theorem Setting.run_yields {env : Setting} {st : Statement} {r : Reading}
    (h : env.run = .ok (st, r)) :
    ∃ c r₁, Cursor.ofText env.dialect env.source = .ok c ∧
      Reader.StatementRead env (Reading.start c) st r₁ ∧ r.passages = r₁.passages ∧
      Reader.AtEnd r₁.cursor := by
  unfold Setting.run at h
  split at h
  · cases h
  · rename_i c hc
    split at h
    · rename_i st₁ r₁ hread
      cases h
      obtain ⟨r₂, hst, hpassages, hrest⟩ := Reader.wholeStatement_yields
        (Inner.tracked_upTo env env.limit) (Cursor.orderly_ofText hc).1 hread
      exact ⟨c, r₂, hc, hst, hpassages, hrest⟩
    · cases h

end SqlMarkers
