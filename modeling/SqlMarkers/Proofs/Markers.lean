/-
SqlMarkers.Proofs.Markers — the markers of a parsed statement.

`Parsed.WellMarked` collects what a rewrite relies on: markers ascend, do not
overlap, stand where they say, spell their literal and cover one token each,
and no place is marked twice anywhere in the tree. `wellMarked_of_parse` says
that all of it holds for every statement that is parsed.

Everything about places comes from the ledger of the reading
(`Record.perm_marked`), and everything about the text from the layout of its
tokens (`Laid`). That every scope ascends holds of all finished scopes
(`Record.forall_block`).
-/
import SqlMarkers.Parsed
import SqlMarkers.Proofs.Ledger

namespace SqlMarkers

/-! ## Where markers stand -/

/-- The setting that `parse` reads a statement in. -/
def Config.setting (config : Config) (catalogue : Catalogue) (source : String) : Setting :=
  { source := source.toList, dialect := config.dialect, catalogue, limit := config.maxDepth }

/-- A statement that is parsed was read, and its markers are those of the walk. -/
theorem parse_ok {config : Config} {catalogue : Catalogue} {source : String} {p : Parsed}
    (h : parse config catalogue source = .ok p) :
    p.source = source.toList ∧ p.markers = p.statement.allMarkers ∧
      ∃ r, (config.setting catalogue source).run = .ok (p.statement, r) := by
  unfold parse at h
  split at h
  · rename_i st hread
    cases h
    refine ⟨rfl, rfl, ?_⟩
    change (config.setting catalogue source).read = .ok st at hread
    rw [Setting.read] at hread
    cases hrun : (config.setting catalogue source).run with
    | error f =>
        rw [hrun] at hread
        cases hread
    | ok result =>
        rw [hrun] at hread
        cases hread
        exact ⟨result.2, rfl⟩
  · cases h

theorem parse_of_run {config : Config} {catalogue : Catalogue} {source : String} {st : Statement}
    {r : Reading} (h : (config.setting catalogue source).run = .ok (st, r)) :
    parse config catalogue source = .ok ⟨source.toList, st, st.allMarkers⟩ := by
  have hread : readStatement config catalogue source.toList = .ok st := by
    change Except.map Prod.fst (config.setting catalogue source).run = .ok st
    rw [h]
    rfl
  rw [parse, hread]

theorem parse_of_error {config : Config} {catalogue : Catalogue} {source : String} {f : Fault}
    (h : (config.setting catalogue source).run = .error f) :
    parse config catalogue source = .error (f.toFailure source.toList) := by
  have hread : readStatement config catalogue source.toList = .error f := by
    change Except.map Prod.fst (config.setting catalogue source).run = .error f
    rw [h]
    rfl
  rw [parse, hread]

/-- A statement with a record has tokens. -/
theorem Record.tokenize_eq {config : Config} {catalogue : Catalogue} {source : String}
    {st : Statement} {c : Cursor} {log : List Entry} {r : Reading}
    (hrec : Record (config.setting catalogue source) st c log r) :
    tokenize config.dialect source =
      .ok (TokenStream.ofText config.dialect source.toList).tokens := by
  have hfailure := hrec.failure_eq
  change (TokenStream.ofText config.dialect source.toList).failure = none at hfailure
  simp only [tokenize, hfailure]

/-- A marker covers a token: it stands at its start, and its literal is the text of
the token. -/
def Marker.Covers (m : Marker) (t : Token) : Prop := t.text = m.literal ∧ t.span = m.span

namespace Record

variable {env : Setting} {st : Statement} {c : Cursor} {log : List Entry} {r : Reading}

/-- No place is marked twice in a statement. -/
theorem nodup_start (hrec : Record env st c log r) :
    ((Block.markersOf st.blocks).map Marker.start).Nodup := by
  obtain ⟨e, t⟩ := hrec.trail
  have hnodup := (hrec.perm_marked.map Prod.fst).nodup_iff.2 (t.nodup_marked hrec.orderly)
  rw [List.map_append, Block.placesOf_eq, List.map_map] at hnodup
  exact (List.nodup_append.1 hnodup).1

/-- A marker of a statement covers a marked token of its log, and the text at its span
is its literal. -/
theorem marker_entry (hrec : Record env st c log r) {m : Marker}
    (hm : m ∈ Block.markersOf st.blocks) :
    (∃ e ∈ log, e.isMarked env = true ∧ m.Covers e.token) ∧
      m.span = ⟨m.start, m.start + Text.width m.literal.toList⟩ ∧
      m.span.slice? env.source = some m.literal.toList := by
  have hplace : m.place ∈ Entry.marked env log := by
    refine hrec.perm_marked.mem_iff.1 (List.mem_append_left _ ?_)
    rw [Block.placesOf_eq]
    exact List.mem_map_of_mem hm
  obtain ⟨entry, hentry, heq⟩ := List.mem_map.1 hplace
  obtain ⟨hstart, htext⟩ := Prod.mk.inj heq
  obtain ⟨hmem, hmarked⟩ := List.mem_filter.1 hentry
  have htoken := hrec.mem_tokens hmem
  have hlaid := TokenStream.laid_ofText env.dialect env.source
  obtain ⟨before, after, hsource, hspan, -⟩ := hlaid.mem htoken
  have hfits := TokenStream.fits_of_mem htoken
  have hwidth : Text.width before + (Text.width m.literal.toList + Text.width after) ≤
      Span.limit := by
    rw [← hsource, Text.width_append, Text.width_append, htext] at hfits
    exact hfits
  rw [Nat.zero_add, htext] at hspan
  have hbefore : m.start = Text.width before := by
    rw [← hstart, hspan]
  have hm : m.span = ⟨m.start, m.start + Text.width m.literal.toList⟩ := by
    rw [Marker.span, Nat.min_eq_left (by omega)]
  refine ⟨⟨entry, hmem, hmarked, htext, ?_⟩, hm, ?_⟩
  · rw [hm, hspan, hbefore]
  · rw [hm, Span.slice?, hbefore, ← hsource, htext]
    exact Text.slice?_width_append before m.literal.toList after

/-- A marker of a statement covers a token of its text. -/
theorem marker_covers (hrec : Record env st c log r) {m : Marker}
    (hm : m ∈ Block.markersOf st.blocks) :
    ∃ t ∈ (TokenStream.ofText env.dialect env.source).tokens, m.Covers t := by
  obtain ⟨⟨e, he, -, hcovers⟩, -⟩ := hrec.marker_entry hm
  exact ⟨e.token, hrec.mem_tokens he, hcovers⟩

/-- Of two markers, the one that starts first ends before the other one starts. -/
theorem marker_stop_le (hrec : Record env st c log r) {a b : Marker}
    (ha : a ∈ Block.markersOf st.blocks) (hb : b ∈ Block.markersOf st.blocks)
    (hlt : a.start < b.start) : a.span.stop ≤ b.span.start := by
  obtain ⟨t, ht, -, hat⟩ := hrec.marker_covers ha
  obtain ⟨u, hu, -, hbu⟩ := hrec.marker_covers hb
  rw [← hat, ← hbu]
  refine (TokenStream.laid_ofText env.dialect env.source).stop_le_start ht hu ?_
  rw [hat, hbu]
  exact hlt

end Record

/-! ## Markers of a parsed statement -/

/-- The walk collects markers of blocks, and each at most once. -/
theorem Statement.collected_sublist (st : Statement) :
    (st.nodes.flatMap Node.ownMarkers).Sublist (Block.markersOf st.blocks) := by
  rw [Statement.collected_eq]
  cases st with
  | define d =>
      rw [Block.markersOf_blocks, Statement.visited, Block.markersOf, List.flatMap_singleton]
      exact List.sublist_append_left _ _
  | _ => exact List.Sublist.refl _

/-- The markers of a parsed statement and of all its scopes are in order, apart
from each other, and stand at tokens. -/
structure Parsed.WellMarked (p : Parsed) (dialect : Dialect) (source : String) : Prop where
  /-- The markers ascend strictly. -/
  ascending : p.markers.Pairwise fun a b => a.start < b.start
  /-- The markers of each scope ascend strictly. -/
  scopes_ascending : ∀ b ∈ p.statement.blocks,
    b.scope.markers.Pairwise fun a b => a.start < b.start
  /-- A marker ends before the next one starts. -/
  apart : p.markers.Pairwise fun a b => a.span.stop ≤ b.span.start
  /-- The text at the span of a marker is its literal. -/
  spelled : ∀ m ∈ p.markers, m.span = ⟨m.start, m.start + Text.width m.literal.toList⟩ ∧
    m.span.slice? source.toList = some m.literal.toList
  /-- A marker covers one token of the text. -/
  covers : ∃ tokens, tokenize dialect source = .ok tokens ∧
    ∀ m ∈ p.markers, ∃ t ∈ tokens, m.Covers t
  /-- No two markers of the tree start at the same place, in one scope or in two. -/
  once : (p.statement.blocks.flatMap fun b => b.scope.markers.map Marker.start).Nodup
  /-- Merging the scopes drops no marker. -/
  merged : p.markers.Perm (p.statement.nodes.flatMap Node.ownMarkers)

/-- A statement with a record of its reading is well marked. -/
theorem Record.wellMarked {config : Config} {catalogue : Catalogue} {source : String}
    {p : Parsed} {c : Cursor} {log : List Entry} {r : Reading}
    (hrec : Record (config.setting catalogue source) p.statement c log r)
    (hmarkers : p.markers = p.statement.allMarkers) : p.WellMarked config.dialect source := by
  have hcollected := p.statement.collected_sublist
  have hperm : p.markers.Perm (p.statement.nodes.flatMap Node.ownMarkers) := by
    rw [hmarkers]
    refine Marker.perm_normalize ?_
    exact hrec.nodup_start.sublist (hcollected.map _)
  have hmem : ∀ m ∈ p.markers, m ∈ Block.markersOf p.statement.blocks := by
    intro m hm
    exact hcollected.subset (hperm.subset hm)
  have hascending : p.markers.Pairwise fun a b => a.start < b.start := by
    rw [hmarkers]
    exact Marker.pairwise_normalize _
  refine ⟨hascending, fun b hb => ?_, ?_, ?_, ?_, ?_, hperm⟩
  · exact hrec.forall_block (P := fun scope => scope.markers.Pairwise fun a b => a.start < b.start)
      (fun d => Marker.pairwise_normalize _) b hb
  · refine hascending.imp_of_mem ?_
    intro a b ha hb hlt
    exact hrec.marker_stop_le (hmem a ha) (hmem b hb) hlt
  · intro m hm
    exact (hrec.marker_entry (hmem m hm)).2
  · refine ⟨(TokenStream.ofText config.dialect source.toList).tokens, ?_, ?_⟩
    · exact hrec.tokenize_eq
    · intro m hm
      exact hrec.marker_covers (hmem m hm)
  · have hnodup := hrec.nodup_start
    rw [Block.markersOf, List.map_flatMap] at hnodup
    exact hnodup

/-- Every statement that is parsed is well marked. -/
theorem wellMarked_of_parse {config : Config} {catalogue : Catalogue} {source : String}
    {p : Parsed} (h : parse config catalogue source = .ok p) :
    p.WellMarked config.dialect source := by
  obtain ⟨-, hmarkers, r, hrun⟩ := parse_ok h
  obtain ⟨c, log, r₁, hrec, -⟩ := Setting.exists_record hrun
  exact hrec.wellMarked hmarkers

/-- A result that passes a check is there. -/
theorem exists_of_any {ε α : Type} {x : Except ε α} {P : α → Prop} [DecidablePred P]
    (h : x.toOption.any (fun a => decide (P a)) = true) : ∃ a, x = .ok a ∧ P a := by
  cases x with
  | error e => cases h
  | ok a => exact ⟨a, rfl, of_decide_eq_true h⟩

/-- A computation that ends with an error, found by running it. -/
theorem error_of_run {ε α : Type} [DecidableEq ε] {x : Except ε α} {e : ε}
    (h : (match x with
      | .ok _ => false
      | .error e' => decide (e' = e)) = true) : x = .error e := by
  cases x with
  | error e' => rw [of_decide_eq_true h]
  | ok a => cases h

/-- A table, a qualifier of it, and a qualifier that a nested query hands on. -/
theorem wellMarked_select : ∃ p,
    parse {} Catalogue.everyName "SELECT t.a FROM t WHERE t.b IN (SELECT t.c FROM u)" = .ok p ∧
      p.WellMarked .standard "SELECT t.a FROM t WHERE t.b IN (SELECT t.c FROM u)" := by
  obtain ⟨p, h, -⟩ : ∃ p,
      parse {} Catalogue.everyName "SELECT t.a FROM t WHERE t.b IN (SELECT t.c FROM u)" = .ok p ∧
        True :=
    exists_of_any (by decide +kernel)
  exact ⟨p, h, wellMarked_of_parse h⟩

end SqlMarkers
