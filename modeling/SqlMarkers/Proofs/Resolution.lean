/-
SqlMarkers.Proofs.Resolution — which table a marker stands for.

A level, that is a statement or a query in it, declares the sharded tables that it
names itself, in the order of the text (`Trail.declares`). Each of them is marked at
its name. Every other marker of the level comes from a name in front of a `.` that
the level resolved when it ended: the first of its tables that answers to the name
is the one the marker stands for, and the queries inside the level that the name
stands in had their turn before, without a table that answers to it.

`Level.Resolved` puts this together, and `resolved_of_parse` says that it holds of
every level of every statement that is parsed.
-/
import SqlMarkers.Proofs.Levels
import SqlMarkers.Proofs.Markers

namespace SqlMarkers

/-! ## Declared tables -/

/-- `m` marks the name of the table reference `tbl`. -/
def Marker.Names (m : Marker) (tbl : Table) : Prop := m.start = tbl.span.start ∧ m.table = tbl.name

/-- The scope in the making declares the sharded tables among the references in
hand, in the order of the text, and has a marker for each of them. -/
structure Reading.Declares (env : Setting) (r : Reading) (h : List Part) : Prop where
  mem_iff : ∀ tbl, tbl ∈ r.draft.tables ↔ tbl ∈ Part.tables h ∧ Reader.isSharded env tbl = true
  ascending : r.draft.tables.Pairwise fun a b => a.span.start < b.span.start
  behind : ∀ tbl ∈ r.draft.tables, tbl.span.start < r.cursor.lastEnd
  marked : r.draft.markers.map (fun m => (m.start, m.table)) =
    r.draft.tables.map fun tbl => (tbl.span.start, tbl.name)

namespace Reading

variable {env : Setting} {r r' : Reading} {h h' : List Part}

theorem Declares.exists_table (hr : r.Declares env h) {m : Marker} (hm : m ∈ r.draft.markers) :
    ∃ tbl ∈ r.draft.tables, m.Names tbl := by
  have hmem := List.mem_map_of_mem (f := fun m => (m.start, m.table)) hm
  rw [hr.marked] at hmem
  obtain ⟨tbl, htbl, heq⟩ := List.mem_map.1 hmem
  obtain ⟨hstart, hname⟩ := Prod.mk.inj heq
  exact ⟨tbl, htbl, hstart.symm, hname.symm⟩

theorem Declares.exists_marker (hr : r.Declares env h) {tbl : Table} (htbl : tbl ∈ r.draft.tables) :
    ∃ m ∈ r.draft.markers, m.Names tbl := by
  have hmem := List.mem_map_of_mem (f := fun tbl => (tbl.span.start, tbl.name)) htbl
  rw [← hr.marked] at hmem
  obtain ⟨m, hm, heq⟩ := List.mem_map.1 hmem
  obtain ⟨hstart, hname⟩ := Prod.mk.inj heq
  exact ⟨m, hm, hstart, hname⟩

/-- Nothing changes as long as no table is added. -/
theorem Declares.mono (hr : r.Declares env h) (htables : r'.draft.tables = r.draft.tables)
    (hmarkers : r'.draft.markers = r.draft.markers)
    (hparts : ∀ tbl, tbl ∈ Part.tables h' ↔ tbl ∈ Part.tables h)
    (hlast : r.cursor.lastEnd ≤ r'.cursor.lastEnd) : r'.Declares env h' := by
  refine ⟨fun tbl => ?_, ?_, fun tbl htbl => ?_, ?_⟩
  · rw [htables, hparts, hr.mem_iff]
  · rw [htables]
    exact hr.ascending
  · rw [htables] at htbl
    exact Nat.lt_of_lt_of_le (hr.behind tbl htbl) hlast
  · rw [htables, hmarkers]
    exact hr.marked

/-- A table that is read is declared if it is sharded. -/
theorem Declares.declaring (hr : r.Declares env h) (hdraft : r'.draft = r.draft) {tbl : Table}
    {token : Token} (hspan : tbl.span = token.span)
    (hfrom : r.cursor.lastEnd ≤ token.span.start) (hto : token.span.start < r'.cursor.lastEnd) :
    (r'.declaring env tbl token).Declares env (h ++ [.table tbl]) := by
  have hparts : ∀ other, other ∈ Part.tables (h ++ [.table tbl]) ↔
      other ∈ Part.tables h ∨ other = tbl := by
    simp
  unfold Reading.declaring
  split
  · rename_i hsharded
    rw [hdraft]
    refine ⟨fun other => ?_, ?_, fun other hother => ?_, ?_⟩
    · rw [hparts, or_and_right, ← hr.mem_iff]
      simp only [Draft.declare, List.mem_append, List.mem_singleton]
      refine or_congr_right ⟨?_, And.left⟩
      rintro rfl
      exact ⟨rfl, hsharded⟩
    · refine List.pairwise_append.2 ⟨hr.ascending, List.pairwise_singleton _ _, ?_⟩
      intro a ha b hb
      rw [List.mem_singleton.1 hb, hspan]
      exact Nat.lt_of_lt_of_le (hr.behind a ha) hfrom
    · rcases List.mem_append.1 hother with hother | hother
      · have := hr.behind other hother
        dsimp only
        omega
      · rw [List.mem_singleton.1 hother, hspan]
        exact hto
    · simp only [Draft.declare, List.map_append, hr.marked, List.map_cons, List.map_nil]
  · rename_i hplain
    refine ⟨fun other => ?_, ?_, fun other hother => ?_, ?_⟩
    · rw [hdraft, hr.mem_iff, hparts, or_and_right]
      refine (or_iff_left ?_).symm
      rintro ⟨rfl, hsharded⟩
      exact hplain hsharded
    · rw [hdraft]
      exact hr.ascending
    · rw [hdraft] at hother
      have := hr.behind other hother
      omega
    · rw [hdraft]
      exact hr.marked

end Reading

/-- What a scope in the making has declared. -/
theorem Trail.declares {env : Setting} {s r : Reading} {log : List Entry} {h : List Part} {e : Edge}
    (t : Trail env s log h e r) (ho : s.cursor.Orderly)
    (hs : s.draft = Draft.startingAt s.draft.parameters) : r.Declares env h := by
  induction t with
  | start s => constructor <;> rw [hs] <;> simp [Draft.startingAt]
  | pass t hplain hc _ ih =>
      have hone := Steps.single (Token.isEnd_of_isPlain hplain) hc
      exact (ih ho hs).mono rfl rfl (fun _ => Iff.rfl) (hone.lastEnd_le (t.steps.orderly ho))
  | slip t hname hc _ ih | owner t hname _ hc _ ih =>
      have hone := Steps.single (Token.isEnd_of_isName hname) hc
      exact (ih ho hs).mono rfl rfl (fun _ => Iff.rfl) (hone.lastEnd_le (t.steps.orderly ho))
  | dot t _ hmark hc ih =>
      have hone := Steps.single (Token.isEnd_of_isSymbol hmark) hc
      exact (ih ho hs).mono rfl rfl (fun _ => Iff.rfl) (hone.lastEnd_le (t.steps.orderly ho))
  | count t hmark hc ih =>
      have hone := Steps.single (Token.isEnd_of_isSymbol hmark) hc
      exact (ih ho hs).mono rfl rfl (by simp) (hone.lastEnd_le (t.steps.orderly ho))
  | passage kind t _ _ hsteps _ ih =>
      exact (ih ho hs).mono rfl rfl (fun _ => Iff.rfl) (hsteps.lastEnd_le (t.steps.orderly ho))
  | @table s r r' log front log' h e e' c tbl token t hnamed t' hdraft _ hspan ih _ =>
      have ho₁ := t.steps.orderly ho
      have htoken : token ∈ front.map Entry.token ++ [token] := by simp
      have hbehind := ho₁.behind
      have hfrom := hnamed.steps.start_le ho₁ htoken
      have hwide := hnamed.steps.start_lt_stop ho₁ htoken
      have hstop := hnamed.steps.stop_le ho₁ htoken
      have hlast := t'.steps.lastEnd_le (hnamed.steps.orderly ho₁)
      refine (ih ho hs).declaring hdraft hspan ?_ ?_
      · omega
      · rw [Reading.moved_cursor] at hlast
        omega
  | nested t hselect hc t' _ _ _ ih _ =>
      have hsteps := (Steps.single (Token.isEnd_of_isKeyword hselect) hc).trans t'.steps
      exact (ih ho hs).mono rfl rfl (by simp) (hsteps.lastEnd_le (t.steps.orderly ho))
  | attach _ _ ih => exact (ih ho hs).mono rfl rfl (by simp) (Nat.le_refl _)
  | keep _ _ _ ih => exact (ih ho hs).mono rfl rfl (by simp) (Nat.le_refl _)
  | drop x _ _ ih => exact (ih ho hs).mono rfl rfl (by simp) (Nat.le_refl _)
  | settle _ _ ih => exact ih ho hs
  | level _ _ ih => exact (ih ho hs).mono rfl rfl (fun _ => Iff.rfl) (Nat.le_refl _)
  | perm _ hp ih =>
      exact (ih ho hs).mono rfl rfl (fun _ => (hp.filterMap _).mem_iff.symm) (Nat.le_refl _)

/-! ## Resolved levels -/

/-- The token `t` at index `i` is a name in front of a `.`, and decodes to `name`. -/
structure DottedName (tokens : List Token) (i : Nat) (t : Token) (name : String) : Prop where
  token : tokens[i]? = some t
  isName : t.isName = true
  dot : tokens[i + 1]?.any (fun d => d.isSymbol .dot) = true
  decoded : t.name? = some name

theorem dottedName_iff {tokens : List Token} {i : Nat} {t : Token} {name : String} :
    DottedName tokens i t name ↔ tokens[i]? = some t ∧ t.isName = true ∧
      tokens[i + 1]?.any (fun d => d.isSymbol .dot) = true ∧ t.name? = some name :=
  ⟨fun h => ⟨h.token, h.isName, h.dot, h.decoded⟩, fun ⟨h₁, h₂, h₃, h₄⟩ => ⟨h₁, h₂, h₃, h₄⟩⟩

instance (tokens : List Token) (i : Nat) (t : Token) (name : String) :
    Decidable (DottedName tokens i t name) :=
  decidable_of_iff _ dottedName_iff.symm

/-- `m` marks the name `t` in front of a `.`, and stands for the table `tbl` of the
level. -/
structure Level.Refers (l : Level) (tokens : List Token) (m : Marker) (i : Nat) (t : Token)
    (name : String) (tbl : Table) : Prop extends DottedName tokens i t name where
  within : t.span.Within l.span
  start : m.start = t.span.start
  /-- It is the first table of the level that answers to the name. -/
  found : l.scope.find? name = some tbl
  table : m.table = tbl.name
  /-- No query inside the level that `t` stands in has a table that answers to it. -/
  innermost : ∀ q ∈ l.inside, t.span.Within q.span →
    ∀ other ∈ q.scope.tables, other.answersTo name = false

/-- The markers of a level stand for its own tables. -/
structure Level.Resolved (l : Level) (catalogue : Catalogue) (tokens : List Token) : Prop where
  /-- A table reference stands at a name token, under its decoded name. -/
  spelled : ∀ tbl ∈ l.references, ∃ t ∈ tokens,
    t.isName = true ∧ t.span = tbl.span ∧ t.name? = some tbl.name
  /-- A reference is declared if the catalogue accepts it and it is not `dual`. -/
  declared : ∀ tbl, tbl ∈ l.scope.tables ↔ tbl ∈ l.references ∧
    catalogue.accepts tbl.name = true ∧ Text.sameWord tbl.name "dual" = false
  /-- Tables are declared in the order of the text. -/
  ascending : l.scope.tables.Pairwise fun a b => a.span.start < b.span.start
  /-- A reference is marked if the catalogue accepts it and it is not `dual`. -/
  named : ∀ tbl ∈ l.references, (∃ m ∈ l.scope.markers, m.Names tbl) ↔
    catalogue.accepts tbl.name = true ∧ Text.sameWord tbl.name "dual" = false
  /-- Every other marker stands at a name that the level resolves. -/
  resolved : ∀ m ∈ l.scope.markers, (¬∃ tbl ∈ l.references, m.Names tbl) →
    ∃ i t name tbl, l.Refers tokens m i t name tbl

theorem Reader.isSharded_iff {env : Setting} {tbl : Table} :
    Reader.isSharded env tbl = true ↔
      env.catalogue.accepts tbl.name = true ∧ Text.sameWord tbl.name "dual" = false := by
  rw [Reader.isSharded, Bool.and_eq_true, Bool.not_eq_true', and_comm]

theorem Table.answersTo_name (tbl : Table) : tbl.answersTo tbl.name = true := by
  simp [Table.answersTo, Text.sameWord]

theorem Draft.resolve?_eq_some {d : Draft} {o : Owner} {m : Marker} (h : d.resolve? o = some m) :
    ∃ tbl, d.find? o = some tbl ∧ m.start = o.start ∧ m.table = tbl.name := by
  obtain ⟨tbl, hfind, rfl⟩ := Option.map_eq_some_iff.1 h
  exact ⟨tbl, hfind, rfl, rfl⟩

/-- An owner is a name in front of a `.`. -/
theorem Record.dottedName_of_owner {env : Setting} {st : Statement} {c : Cursor} {log : List Entry}
    {r : Reading} (hrec : Record env st c log r) {x : Entry} (hx : x ∈ log) {name : String}
    (hfate : x.fate = .owner name) :
    ∃ i, DottedName (TokenStream.ofText env.dialect env.source).tokens i x.token name := by
  obtain ⟨before, after, htokens⟩ := List.append_of_mem (hrec.mem_tokens hx)
  obtain ⟨c', -, hrest, htold⟩ := hrec.told hx htokens
  rw [Entry.Told, hfate] at htold
  obtain ⟨e, t⟩ := hrec.trail
  have hfits := t.fits x hx
  rw [Entry.Fits, hfate] at hfits
  refine ⟨before.length, ?_, hfits, ?_, htold.1⟩
  · simp [htokens]
  · simp [htokens, ← hrest, Cursor.rest, htold.2]

namespace Level.Read

variable {env : Setting} {l : Level} {s r : Reading} {own : List Entry}

theorem declares (hl : l.Read env s own r) : r.Declares env l.parts := by
  obtain ⟨e, t⟩ := hl.trail
  exact t.declares hl.orderly hl.fresh

/-- The markers of a level are those of its tables and of the owners it resolves. -/
theorem mem_markers (hl : l.Read env s own r) {m : Marker} : m ∈ l.scope.markers ↔
    m ∈ r.draft.markers ∨ ∃ o ∈ r.draft.owners, r.draft.resolve? o = some m := by
  obtain ⟨e, t⟩ := hl.trail
  rw [hl.scope]
  refine r.draft.mem_finish_markers (t.nodup_places hl.orderly ?_)
  rw [Reading.held, hl.fresh]
  rfl

/-- A table reference of the level is in its log. -/
theorem exists_token (hl : l.Read env s own r) {tbl : Table} (htbl : tbl ∈ l.references) :
    ∃ token, (⟨token, .table tbl⟩ : Entry) ∈ own := by
  obtain ⟨e, t⟩ := hl.trail
  refine ((t.mem_references_iff tbl).1 (Reading.mem_references.2 (.inl htbl))).resolve_left ?_
  rw [Reading.mem_references, hl.queries_start]
  simp

variable {st : Statement} {c : Cursor} {log : List Entry} {r₁ : Reading}

/-- A reference is marked if and only if it is sharded. -/
theorem named_iff (hl : l.Read env s own r) (hrec : Record env st c log r₁) (hown : own ⊆ log)
    {tbl : Table} (htbl : tbl ∈ l.references) :
    (∃ m ∈ l.scope.markers, m.Names tbl) ↔ Reader.isSharded env tbl = true := by
  constructor
  · rintro ⟨m, hm, hstart, hname⟩
    rcases hl.mem_markers.1 hm with hm | ⟨o, ho, hresolve⟩
    · obtain ⟨other, hother, -, hname'⟩ := hl.declares.exists_table hm
      have hsharded := ((hl.declares.mem_iff other).1 hother).2
      rwa [Reader.isSharded, ← hname', hname] at hsharded
    · -- An owner stands at no table reference.
      exfalso
      obtain ⟨-, -, hostart, -⟩ := Draft.resolve?_eq_some hresolve
      obtain ⟨x, hx, hxstart, hfate⟩ := hl.custody.logged o ho
      obtain ⟨token, htoken⟩ := hl.exists_token htbl
      have hspan := hrec.span_of_table (hown htoken)
      have heq := hrec.entry_eq (hown hx) (hown htoken) (by
        rw [hxstart, ← hostart, hstart, hspan])
      rw [heq] at hfate
      cases hfate
  · intro hsharded
    have hdeclared := (hl.declares.mem_iff tbl).2 ⟨htbl, hsharded⟩
    obtain ⟨m, hm, hnames⟩ := hl.declares.exists_marker hdeclared
    exact ⟨m, hl.mem_markers.2 (.inl hm), hnames⟩

/-- The other markers stand at owners. -/
theorem exists_refers (hl : l.Read env s own r) (hrec : Record env st c log r₁) (hown : own ⊆ log)
    {m : Marker} (hm : m ∈ l.scope.markers) (hother : ¬∃ tbl ∈ l.references, m.Names tbl) :
    ∃ i t name tbl, l.Refers (TokenStream.ofText env.dialect env.source).tokens m i t name tbl := by
  rcases hl.mem_markers.1 hm with hm | ⟨o, ho, hresolve⟩
  · obtain ⟨tbl, htbl, hnames⟩ := hl.declares.exists_table hm
    exact absurd ⟨tbl, ((hl.declares.mem_iff tbl).1 htbl).1, hnames⟩ hother
  · obtain ⟨tbl, hfind, hstart, htable⟩ := Draft.resolve?_eq_some hresolve
    obtain ⟨x, hx, hxstart, hfate⟩ := hl.custody.logged o ho
    obtain ⟨i, hdotted⟩ := hrec.dottedName_of_owner (hown hx) hfate
    refine ⟨i, x.token, o.name, tbl, hdotted, hl.within hx, ?_, ?_, htable, ?_⟩
    · rw [hstart, hxstart]
    · rw [hl.scope]
      exact hfind
    · intro q hq hin
      have hwide := hrec.steps.start_lt_stop hrec.orderly (List.mem_map_of_mem (hown hx))
      obtain ⟨hfrom, hto⟩ := hin
      rw [hl.inside] at hq
      exact hl.custody.unanswered o ho q hq (by omega) (by omega)

/-- A level with a marker at a token has a table that answers to the token's name. -/
theorem declared_of_marker (hl : l.Read env s own r) (hrec : Record env st c log r₁)
    (hown : own ⊆ log) {x : Entry} (hx : x ∈ log) {name : String}
    (hdecoded : x.token.name? = some name) {m : Marker} (hm : m ∈ l.scope.markers)
    (hstart : m.start = x.token.span.start) :
    x.token.span.Within l.span ∧ ∃ tbl ∈ l.scope.tables, tbl.answersTo name = true := by
  rw [hl.scope]
  rcases hl.mem_markers.1 hm with hm | ⟨o, ho, hresolve⟩
  · obtain ⟨tbl, htbl, hname, -⟩ := hl.declares.exists_table hm
    obtain ⟨token, htoken⟩ := hl.exists_token ((hl.declares.mem_iff tbl).1 htbl).1
    have hspan := hrec.span_of_table (hown htoken)
    obtain rfl := hrec.entry_eq hx (hown htoken) (by rw [← hstart, hname, hspan])
    obtain ⟨e, t⟩ := hl.trail
    obtain ⟨-, htable⟩ := t.fits _ htoken
    obtain rfl := Option.some.inj (htable.symm.trans hdecoded)
    exact ⟨hl.within htoken, tbl, htbl, tbl.answersTo_name⟩
  · obtain ⟨tbl, hfind, hostart, -⟩ := Draft.resolve?_eq_some hresolve
    obtain ⟨y, hy, hystart, hfate⟩ := hl.custody.logged o ho
    obtain rfl := hrec.entry_eq hx (hown hy) (by rw [← hstart, hostart, hystart])
    obtain ⟨i, hdotted⟩ := hrec.dottedName_of_owner hx hfate
    obtain rfl := Option.some.inj (hdotted.decoded.symm.trans hdecoded)
    rw [Draft.find?] at hfind
    refine ⟨hl.within hy, tbl, List.mem_of_find?_eq_some hfind, ?_⟩
    simpa using List.find?_some hfind

/-- The markers of every level stand for its own tables. -/
theorem resolved (hl : l.Read env s own r) (hrec : Record env st c log r₁) (hown : own ⊆ log) :
    l.Resolved env.catalogue (TokenStream.ofText env.dialect env.source).tokens where
  spelled := by
    intro tbl htbl
    obtain ⟨token, htoken⟩ := hl.exists_token htbl
    obtain ⟨e, t⟩ := hl.trail
    obtain ⟨hname, hdecoded⟩ := t.fits _ htoken
    refine ⟨token, hrec.mem_tokens (hown htoken), hname, ?_, hdecoded⟩
    exact (hrec.span_of_table (hown htoken)).symm
  declared := by
    intro tbl
    rw [hl.scope, ← Reader.isSharded_iff]
    exact hl.declares.mem_iff tbl
  ascending := by
    rw [hl.scope]
    exact hl.declares.ascending
  named := by
    intro tbl htbl
    rw [← Reader.isSharded_iff]
    exact hl.named_iff hrec hown htbl
  resolved := fun m hm hother => hl.exists_refers hrec hown hm hother

end Level.Read

/-! ## Levels of a parsed statement -/

/-- The markers of a parsed statement stand for tables as its scopes prescribe. -/
theorem resolved_of_parse {config : Config} {catalogue : Catalogue} {source : String}
    {p : Parsed} (h : parse config catalogue source = .ok p) :
    ∃ tokens, tokenize config.dialect source = .ok tokens ∧
      ∀ l ∈ p.statement.levels, l.Resolved catalogue tokens := by
  obtain ⟨-, -, r, hrun⟩ := parse_ok h
  obtain ⟨c, log, r₁, hrec, -⟩ := Setting.exists_record hrun
  refine ⟨_, hrec.tokenize_eq, fun l hl => ?_⟩
  obtain ⟨s, own, r', hown, hread⟩ := hrec.exists_read l hl
  exact hread.resolved hrec hown

/-- The owner `o` in the inner query, where no table answers to it, is left to the
outer one. -/
theorem resolved_correlated : ∃ p tokens,
    parse {} (Catalogue.known (.ofList ["t", "u"]))
        "SELECT O.a FROM t o, dual WHERE o.b IN (SELECT u.c FROM v y, u WHERE o.y = u.d)" = .ok p ∧
      tokenize .standard
        "SELECT O.a FROM t o, dual WHERE o.b IN (SELECT u.c FROM v y, u WHERE o.y = u.d)" =
          .ok tokens ∧
      (p.statement.levels.map fun l => l.scope.markers.map fun m => (m.start, m.table)) =
        [[(7, "t"), (16, "t"), (32, "t"), (69, "t")], [(47, "u"), (61, "u"), (75, "u")]] ∧
      ∀ l ∈ p.statement.levels, l.Resolved (Catalogue.known (.ofList ["t", "u"])) tokens := by
  obtain ⟨p, h, hmarkers⟩ : ∃ p,
      parse {} (Catalogue.known (.ofList ["t", "u"]))
        "SELECT O.a FROM t o, dual WHERE o.b IN (SELECT u.c FROM v y, u WHERE o.y = u.d)" = .ok p ∧
        (p.statement.levels.map fun l => l.scope.markers.map fun m => (m.start, m.table)) =
          [[(7, "t"), (16, "t"), (32, "t"), (69, "t")], [(47, "u"), (61, "u"), (75, "u")]] :=
    exists_of_any (by decide +kernel)
  obtain ⟨tokens, htokens, hall⟩ := resolved_of_parse h
  exact ⟨p, tokens, h, htokens, hmarkers, hall⟩

end SqlMarkers
