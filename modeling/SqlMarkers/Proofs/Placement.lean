/-
SqlMarkers.Proofs.Placement — where the pieces of a tree are written.

A `Page` is a text with its tokens. A span of a tree goes from the start of
one token to the end of the same token or a later one (`Page.Frames`), and the
span of a name, literal or placeholder is that of the one token it was decoded
from (`Page.Shows`).

`Sits pg bounds` says of a piece of a tree that it is written inside `bounds`:
its span, if it has one, lies inside them, and what it consists of sits inside
its span. A piece without a span, such as a predicate, hands the bounds on.
Lists whose entries stand one behind the other are also `InOrder`.

The readers build every list by adding an entry that was read behind all others
(`Row.snoc`), and put pieces into larger ones (`Sits.mono`).
-/
import SqlMarkers.Proofs.Fates
import SqlMarkers.Text.Blank

namespace SqlMarkers

/-! ## Pages -/

/-- A text with its tokens. -/
structure Page where
  source : List Char
  tokens : List Token
  /-- Whether a backslash escapes the next character of a string. -/
  escapes : Bool

namespace Page

/-- The span goes from the start of a token to the end of the same token or a
later one. -/
def Frames (pg : Page) (s : Span) : Prop :=
  ∃ (i j : Nat) (a b : Token), i ≤ j ∧ pg.tokens[i]? = some a ∧ pg.tokens[j]? = some b ∧
    s = ⟨a.span.start, b.span.stop⟩

/-- The text at the span is one token, and `p` holds of it. -/
def Shows (pg : Page) (s : Span) (p : Token → Prop) : Prop :=
  ∃ t ∈ pg.tokens, t.span = s ∧ s.slice? pg.source = some t.text.toList ∧ p t

/-- The text is what stands at the span, trimmed. Where that is ASCII there is
nothing to trim. -/
def Keeps (pg : Page) (s : Span) (text : List Char) : Prop :=
  ∃ slice, s.slice? pg.source = some slice ∧ text = Text.trim slice ∧
    ((∀ c ∈ slice, c.toNat < 0x80) → text = slice)

end Page

/-- The spans stand one behind the other. -/
def InOrder (spans : List Span) : Prop := spans.Pairwise fun a b => a.stop ≤ b.start

/-- The entries of a list each sit inside the bounds, one behind the other. -/
structure Row {α : Type} (span : α → Span) (sits : Span → α → Prop) (bounds : Span) (as : List α) :
    Prop where
  each : ∀ a ∈ as, sits bounds a
  inOrder : InOrder (as.map span)

/-! ## Expressions and other flat pieces -/

/-- A name sits where the token stands that it was decoded from. -/
def Ident.Sits (pg : Page) (bounds : Span) (i : Ident) : Prop :=
  i.span.Within bounds ∧ pg.Shows i.span fun t => t.name? = some i.name

/-- What stands at the span of an expression. -/
def Expr.Told (pg : Page) : Expr → Prop
  | .name ident => ident.Sits pg ident.span
  | .member owner _ span => pg.Frames span ∧ owner.Sits pg span
  | .placeholder _ span => pg.Shows span fun t => t.kind = .symbol .question
  | .number (.integer v) span => pg.Shows span fun t => t.integer? = some v
  | .number (.real v) span => pg.Shows span fun t => t.real? = some v
  | .text v national span =>
      pg.Shows span fun t => t.chars? pg.escapes = some v ∧ t.isNational = national
  | .verbatim kept span => pg.Frames span ∧ pg.Keeps span kept.toList

/-- An expression sits where it is written. -/
def Expr.Sits (pg : Page) (bounds : Span) (e : Expr) : Prop :=
  e.span.Within bounds ∧ e.Told pg

/-- A table sits at its name. -/
def Table.Sits (pg : Page) (bounds : Span) (t : Table) : Prop :=
  t.span.Within bounds ∧ pg.Shows t.span fun token => token.name? = some t.name

/-- Where a select item is written, without its alias. -/
def SelectItem.span : SelectItem → Span
  | .star _ span => span
  | .aggregate _ _ _ span => span
  | .expr e _ => e.span

/-- A select item sits where it is written. -/
def SelectItem.Sits (pg : Page) (bounds : Span) (item : SelectItem) : Prop :=
  item.span.Within bounds ∧
    match item with
    | .star owner span => pg.Frames span ∧ ∀ i ∈ owner, i.Sits pg span
    | .aggregate _ _ _ span => pg.Frames span
    | .expr e _ => e.Told pg

/-- Where the expression of an order is written. -/
def OrderItem.span (o : OrderItem) : Span := o.expr.span

/-- An entry of `ORDER BY` or `GROUP BY` sits where its expression does. -/
def OrderItem.Sits (pg : Page) (bounds : Span) (o : OrderItem) : Prop := o.expr.Sits pg bounds

/-- A paging value sits at its token. -/
def PagingValue.Sits (pg : Page) (bounds : Span) (v : PagingValue) : Prop :=
  v.span.Within bounds ∧
    match v with
    | .literal value span => pg.Shows span fun t => t.integer? = some value
    | .placeholder _ span => pg.Shows span fun t => t.kind = .symbol .question

/-- The values of a paging clause sit inside the bounds. -/
def Paging.Sits (pg : Page) (bounds : Span) (p : Paging) : Prop :=
  (∀ v ∈ p.offset, v.Sits pg bounds) ∧ ∀ v ∈ p.rowCount, v.Sits pg bounds

/-- Where an assignment is written. -/
def Assignment.span (a : Assignment) : Span := ⟨a.column.span.start, a.value.span.stop⟩

/-- The two sides of an assignment sit one behind the other. -/
def Assignment.Sits (pg : Page) (bounds : Span) (a : Assignment) : Prop :=
  a.column.Sits pg bounds ∧ a.value.Sits pg bounds ∧ a.column.span.stop ≤ a.value.span.start

/-- A row of `VALUES` sits where it is written, and its values inside it. -/
def ValuesRow.Sits (pg : Page) (bounds : Span) (row : ValuesRow) : Prop :=
  pg.Frames row.span ∧ row.span.Within bounds ∧ Row Expr.span (Expr.Sits pg) row.span row.values

/-! ## Queries -/

mutual

/-- A query sits where it is written, and everything it holds inside it. -/
def Query.Sits (pg : Page) (bounds : Span) : Query → Prop
  | ⟨_, items, sources, filter, groupBy, having, orderBy, paging, _, _,
      ⟨tables, _, _, subqueries⟩, span⟩ =>
      pg.Frames span ∧ span.Within bounds ∧
      Row SelectItem.span (SelectItem.Sits pg) span items ∧
      (match sources with
       | some ss => TableSource.SitIn pg span ss
       | none => True) ∧
      (match filter with
       | some ⟨cs, s⟩ => pg.Frames s ∧ s.Within span ∧ Condition.SitIn pg s cs ∧
           InOrder (cs.map Condition.span)
       | none => True) ∧
      Row OrderItem.span (OrderItem.Sits pg) span groupBy ∧
      (match having with
       | some ⟨cs, s⟩ => pg.Frames s ∧ s.Within span ∧ Condition.SitIn pg s cs ∧
           InOrder (cs.map Condition.span)
       | none => True) ∧
      Row OrderItem.span (OrderItem.Sits pg) span orderBy ∧
      (∀ p ∈ paging, p.Sits pg span) ∧
      Row Table.span (Table.Sits pg) span tables ∧
      (Query.SitIn pg span subqueries ∧ InOrder (subqueries.map Query.span))

/-- Queries that each sit inside the bounds. -/
def Query.SitIn (pg : Page) (bounds : Span) : List Query → Prop
  | [] => True
  | q :: qs => q.Sits pg bounds ∧ Query.SitIn pg bounds qs

/-- Table sources whose factors and joins sit inside the bounds. -/
def TableSource.SitIn (pg : Page) (bounds : Span) : List TableSource → Prop
  | [] => True
  | ⟨factor, joins⟩ :: ss =>
      factor.Sits pg bounds ∧ Join.SitIn pg bounds joins ∧ TableSource.SitIn pg bounds ss

/-- A table factor inside the bounds. -/
def TableFactor.Sits (pg : Page) (bounds : Span) : TableFactor → Prop
  | .table t => t.Sits pg bounds
  | .derived q _ span => pg.Frames span ∧ span.Within bounds ∧ q.Sits pg span
  | .group ss => TableSource.SitIn pg bounds ss

/-- Joins whose factors and conditions sit inside the bounds. -/
def Join.SitIn (pg : Page) (bounds : Span) : List Join → Prop
  | [] => True
  | ⟨_, _, factor, on, _⟩ :: js =>
      factor.Sits pg bounds ∧
        (Condition.SitIn pg bounds on ∧ InOrder (on.map Condition.span)) ∧
        Join.SitIn pg bounds js

/-- Conditions that each sit inside the bounds. -/
def Condition.SitIn (pg : Page) (bounds : Span) : List Condition → Prop
  | [] => True
  | ⟨_, p, span⟩ :: cs =>
      (pg.Frames span ∧ span.Within bounds ∧ p.Sits pg span) ∧ Condition.SitIn pg bounds cs

/-- A predicate inside the bounds. -/
def Predicate.Sits (pg : Page) (bounds : Span) : Predicate → Prop
  | .compare left _ right => left.Sits pg bounds ∧ right.Sits pg bounds
  | .inValues left _ values => left.Sits pg bounds ∧ Row Expr.span (Expr.Sits pg) bounds values
  | .inQuery left _ q => left.Sits pg bounds ∧ q.Sits pg bounds
  | .between left _ low high =>
      left.Sits pg bounds ∧ low.Sits pg bounds ∧ high.Sits pg bounds
  | .isNull left _ => left.Sits pg bounds
  | .like left _ pattern escape =>
      left.Sits pg bounds ∧ pattern.Sits pg bounds ∧ ∀ e ∈ escape, e.Sits pg bounds
  | .existsIn _ q => q.Sits pg bounds
  | .not p => p.Sits pg bounds
  | .group cs => Condition.SitIn pg bounds cs ∧ InOrder (cs.map Condition.span)
  | .bare e => e.Sits pg bounds

end

/-! ## Statements -/

/-- The tables and queries of a scope sit inside the bounds. -/
structure Scope.Sits (pg : Page) (bounds : Span) (s : Scope) : Prop where
  tables : Row Table.span (Table.Sits pg) bounds s.tables
  subqueries : Row Query.span (Query.Sits pg) bounds s.subqueries

/-- A condition sits where it is written, and its predicate inside it. -/
def Condition.Sits (pg : Page) (bounds : Span) (c : Condition) : Prop :=
  pg.Frames c.span ∧ c.span.Within bounds ∧ c.predicate.Sits pg c.span

/-- A condition clause sits where it is written, and its conditions inside it. -/
def ConditionList.Sits (pg : Page) (bounds : Span) (l : ConditionList) : Prop :=
  pg.Frames l.span ∧ l.span.Within bounds ∧
    Row Condition.span (Condition.Sits pg) l.span l.conditions

/-- The source of inserted rows sits inside the bounds. -/
def InsertSource.Sits (pg : Page) (bounds : Span) : InsertSource → Prop
  | .values rows => Row ValuesRow.span (ValuesRow.Sits pg) bounds rows
  | .set assignments => Row Assignment.span (Assignment.Sits pg) bounds assignments
  | .query q => q.Sits pg bounds

/-- What stands behind the table of an `UPDATE` or `DELETE` sits inside the bounds. -/
structure TailSits (pg : Page) (bounds : Span) (filter : Option ConditionList)
    (orderBy : List OrderItem) (paging : Option Paging) : Prop where
  filter : ∀ l ∈ filter, l.Sits pg bounds
  orderBy : Row OrderItem.span (OrderItem.Sits pg) bounds orderBy
  paging : ∀ p ∈ paging, p.Sits pg bounds

/-- Everything a statement holds sits inside it. -/
def Statement.Sits (pg : Page) : Statement → Prop
  | .select q => q.Sits pg q.span
  | .insert s => pg.Frames s.span ∧ s.table.Sits pg s.span ∧
      Row Expr.span (Expr.Sits pg) s.span s.columns ∧ s.source.Sits pg s.span ∧
      Row Assignment.span (Assignment.Sits pg) s.span s.onDuplicate ∧ s.scope.Sits pg s.span
  | .update s => pg.Frames s.span ∧ s.table.Sits pg s.span ∧
      Row Assignment.span (Assignment.Sits pg) s.span s.assignments ∧
      TailSits pg s.span s.filter s.orderBy s.paging ∧ s.scope.Sits pg s.span
  | .delete s => pg.Frames s.span ∧ s.table.Sits pg s.span ∧
      TailSits pg s.span s.filter s.orderBy s.paging ∧ s.scope.Sits pg s.span
  | .define s => pg.Frames s.span ∧
      Row Table.span (Table.Sits pg) s.span s.tables ∧ s.scope.Sits pg s.span

/-! ## Rows -/

theorem Span.Within.rfl {a : Span} : a.Within a := ⟨Nat.le_refl _, Nat.le_refl _⟩

theorem Span.Within.trans {a b c : Span} (h : a.Within b) (h' : b.Within c) : a.Within c :=
  ⟨Nat.le_trans h'.1 h.1, Nat.le_trans h.2 h'.2⟩

/-- What sits inside bounds has its span inside them, and sits inside wider ones. -/
structure Bounded {α : Type} (span : α → Span) (sits : Span → α → Prop) : Prop where
  mono : ∀ {a b c}, sits b a → b.Within c → sits c a
  within : ∀ {a b}, sits b a → (span a).Within b

namespace Row

variable {α : Type} {span : α → Span} {sits : Span → α → Prop} {b c d : Span} {as : List α} {a : α}

theorem nil : Row span sits b [] := ⟨by simp, .nil⟩

theorem mono (hs : Bounded span sits) (h : Row span sits b as) (hb : b.Within c) :
    Row span sits c as :=
  ⟨fun a ha => hs.mono (h.each a ha) hb, h.inOrder⟩

/-- An entry behind all others. -/
theorem snoc (hs : Bounded span sits) (h : Row span sits b as) (ha : sits c a) (hb : b.Within d)
    (hc : c.Within d) (hbc : b.stop ≤ c.start) : Row span sits d (as ++ [a]) where
  each := by
    intro x hx
    rcases List.mem_append.1 hx with hx | hx
    · exact hs.mono (h.each x hx) hb
    · rw [List.mem_singleton.1 hx]
      exact hs.mono ha hc
  inOrder := by
    rw [List.map_append]
    refine List.pairwise_append.2 ⟨h.inOrder, List.pairwise_singleton _ _, ?_⟩
    intro x hx y hy
    obtain ⟨a', ha', rfl⟩ := List.mem_map.1 hx
    obtain rfl := List.mem_singleton.1 hy
    have hstop := (hs.within (h.each a' ha')).2
    have hstart := (hs.within ha).1
    omega

end Row

/-! ## Pieces in wider bounds -/

variable {pg : Page} {b c : Span}

theorem Expr.bounded : Bounded Expr.span (Expr.Sits pg) :=
  ⟨fun h hb => ⟨h.1.trans hb, h.2⟩, fun h => h.1⟩

theorem Table.bounded : Bounded Table.span (Table.Sits pg) :=
  ⟨fun h hb => ⟨h.1.trans hb, h.2⟩, fun h => h.1⟩

theorem SelectItem.bounded : Bounded SelectItem.span (SelectItem.Sits pg) :=
  ⟨fun h hb => ⟨h.1.trans hb, h.2⟩, fun h => h.1⟩

theorem OrderItem.bounded : Bounded OrderItem.span (OrderItem.Sits pg) :=
  ⟨fun h hb => Expr.bounded.mono h hb, fun h => h.1⟩

theorem Assignment.bounded : Bounded Assignment.span (Assignment.Sits pg) :=
  ⟨fun h hb => ⟨Expr.bounded.mono h.1 hb, Expr.bounded.mono h.2.1 hb, h.2.2⟩,
    fun h => ⟨h.1.1.1, h.2.1.1.2⟩⟩

theorem ValuesRow.bounded : Bounded ValuesRow.span (ValuesRow.Sits pg) :=
  ⟨fun h hb => ⟨h.1, h.2.1.trans hb, h.2.2⟩, fun h => h.2.1⟩

theorem Condition.bounded : Bounded Condition.span (Condition.Sits pg) :=
  ⟨fun h hb => ⟨h.1, h.2.1.trans hb, h.2.2⟩, fun h => h.2.1⟩

theorem PagingValue.Sits.mono {v : PagingValue} (h : v.Sits pg b) (hb : b.Within c) :
    v.Sits pg c :=
  ⟨h.1.trans hb, h.2⟩

theorem Paging.Sits.mono {p : Paging} (h : p.Sits pg b) (hb : b.Within c) : p.Sits pg c :=
  ⟨fun v hv => (h.1 v hv).mono hb, fun v hv => (h.2 v hv).mono hb⟩

theorem ConditionList.Sits.mono {l : ConditionList} (h : l.Sits pg b) (hb : b.Within c) :
    l.Sits pg c :=
  ⟨h.1, h.2.1.trans hb, h.2.2⟩

/-! ## Lists and clauses in the tree -/

theorem Condition.sitIn_iff {cs : List Condition} :
    Condition.SitIn pg b cs ↔ ∀ x ∈ cs, x.Sits pg b := by
  induction cs with
  | nil => simp [Condition.SitIn]
  | cons x cs ih =>
      obtain ⟨_, p, span⟩ := x
      rw [Condition.SitIn, ih, List.forall_mem_cons]
      rfl

theorem Query.sitIn_iff {qs : List Query} : Query.SitIn pg b qs ↔ ∀ q ∈ qs, q.Sits pg b := by
  induction qs with
  | nil => simp [Query.SitIn]
  | cons q qs ih => rw [Query.SitIn, ih, List.forall_mem_cons]

/-- Conditions as they are kept in the tree. -/
theorem Condition.row_iff {cs : List Condition} :
    Row Condition.span (Condition.Sits pg) b cs ↔
      Condition.SitIn pg b cs ∧ InOrder (cs.map Condition.span) := by
  rw [Condition.sitIn_iff]
  exact ⟨fun h => ⟨h.each, h.inOrder⟩, fun h => ⟨h.1, h.2⟩⟩

/-- A query clause by clause. -/
theorem Query.sits_iff {q : Query} :
    q.Sits pg b ↔ pg.Frames q.span ∧ q.span.Within b ∧
      Row SelectItem.span (SelectItem.Sits pg) q.span q.items ∧
      (∀ ss ∈ q.sources, TableSource.SitIn pg q.span ss) ∧
      (∀ l ∈ q.filter, l.Sits pg q.span) ∧
      Row OrderItem.span (OrderItem.Sits pg) q.span q.groupBy ∧
      (∀ l ∈ q.having, l.Sits pg q.span) ∧
      Row OrderItem.span (OrderItem.Sits pg) q.span q.orderBy ∧
      (∀ p ∈ q.paging, p.Sits pg q.span) ∧ q.scope.Sits pg q.span := by
  obtain ⟨_, items, sources, filter, groupBy, having, orderBy, paging, _, _,
    ⟨tables, markers, parameters, subqueries⟩, span⟩ := q
  have hsources : (match sources with
      | some ss => TableSource.SitIn pg span ss
      | none => True) ↔ ∀ ss ∈ sources, TableSource.SitIn pg span ss := by
    cases sources <;> simp
  have hclause : ∀ clause : Option ConditionList, (match clause with
      | some ⟨cs, s⟩ => pg.Frames s ∧ s.Within span ∧ Condition.SitIn pg s cs ∧
          InOrder (cs.map Condition.span)
      | none => True) ↔ ∀ l ∈ clause, l.Sits pg span := by
    intro clause
    rcases clause with _ | ⟨cs, s⟩ <;> simp [ConditionList.Sits, Condition.row_iff]
  have hscope : (Row Table.span (Table.Sits pg) span tables ∧
      Query.SitIn pg span subqueries ∧ InOrder (subqueries.map Query.span)) ↔
      Scope.Sits pg span ⟨tables, markers, parameters, subqueries⟩ := by
    rw [Query.sitIn_iff]
    exact ⟨fun h => ⟨h.1, h.2.1, h.2.2⟩, fun h => ⟨h.tables, h.subqueries.each, h.subqueries.inOrder⟩⟩
  rw [Query.Sits.eq_def]
  dsimp only
  rw [hsources, hclause, hclause, hscope]

theorem Query.bounded : Bounded Query.span (Query.Sits pg) where
  mono h hb := by
    obtain ⟨hframes, hwithin, hrest⟩ := Query.sits_iff.1 h
    exact Query.sits_iff.2 ⟨hframes, hwithin.trans hb, hrest⟩
  within h := (Query.sits_iff.1 h).2.1

theorem Predicate.Sits.mono {p : Predicate} (h : p.Sits pg b) (hb : b.Within c) : p.Sits pg c := by
  have hexpr : ∀ {e : Expr}, e.Sits pg b → e.Sits pg c := fun h => Expr.bounded.mono h hb
  match p with
  | .compare .. => exact ⟨hexpr h.1, hexpr h.2⟩
  | .inValues .. => exact ⟨hexpr h.1, h.2.mono Expr.bounded hb⟩
  | .inQuery .. => exact ⟨hexpr h.1, Query.bounded.mono h.2 hb⟩
  | .between .. => exact ⟨hexpr h.1, hexpr h.2.1, hexpr h.2.2⟩
  | .isNull .. => exact hexpr h
  | .like .. => exact ⟨hexpr h.1, hexpr h.2.1, fun e he => hexpr (h.2.2 e he)⟩
  | .existsIn .. => exact Query.bounded.mono h hb
  | .not p => exact Predicate.Sits.mono (p := p) h hb
  | .group .. => exact Condition.row_iff.1 ((Condition.row_iff.2 h).mono Condition.bounded hb)
  | .bare .. => exact hexpr h

mutual

theorem TableSource.SitIn.mono (hb : b.Within c) :
    ∀ {ss : List TableSource}, TableSource.SitIn pg b ss → TableSource.SitIn pg c ss
  | [], _ => trivial
  | ⟨_, _⟩ :: _, h => ⟨h.1.mono hb, h.2.1.mono hb, h.2.2.mono hb⟩

theorem TableFactor.Sits.mono (hb : b.Within c) :
    ∀ {f : TableFactor}, f.Sits pg b → f.Sits pg c
  | .table _, h => Table.bounded.mono h hb
  | .derived .., h => ⟨h.1, h.2.1.trans hb, h.2.2⟩
  | .group _, h => TableSource.SitIn.mono hb h

theorem Join.SitIn.mono (hb : b.Within c) :
    ∀ {js : List Join}, Join.SitIn pg b js → Join.SitIn pg c js
  | [], _ => trivial
  | ⟨_, _, _, _, _⟩ :: _, h =>
      ⟨h.1.mono hb,
        Condition.row_iff.1 ((Condition.row_iff.2 h.2.1).mono Condition.bounded hb),
        h.2.2.mono hb⟩

end

theorem InsertSource.Sits.mono {source : InsertSource} (h : source.Sits pg b) (hb : b.Within c) :
    source.Sits pg c :=
  match source, h with
  | .values _, h => Row.mono ValuesRow.bounded h hb
  | .set _, h => Row.mono Assignment.bounded h hb
  | .query _, h => Query.bounded.mono h hb

end SqlMarkers
