/-
SqlMarkers.Proofs.Casing — parsing does not depend on the case of letters.

Take two texts without backslash that differ in the case of ASCII letters only. They
have the same tokens up to case, or a lexical error at the same place
(`ofText_lower` and `ofText_alike` of `SqlMarkers.Proofs.Letters` and
`SqlMarkers.Proofs.Spelling`). So their settings are twins, and parsing gives
counterparts or failures from faults that are alike.

What is left are the scopes. A catalogue that ignores case takes corresponding tables
for sharded alike, so corresponding scopes declare corresponding tables and hold
corresponding markers. `sameUpToCase_parse` puts this together.
-/
import SqlMarkers.Proofs.Counterparts
import SqlMarkers.Proofs.Spelling

namespace SqlMarkers

/-! ## Settings -/

/-- The two catalogues that are given ignore case. -/
theorem Catalogue.accepts_eq {catalogue : Catalogue}
    (h : catalogue = everyName ∨ ∃ tables, catalogue = known tables) {a b : String}
    (hab : Text.folded a = Text.folded b) : catalogue.accepts a = catalogue.accepts b := by
  rcases h with rfl | ⟨tables, rfl⟩
  · rfl
  · simp only [known, TableNames.contains, hab]

namespace Setting

/-- Corresponding tables are sharded alike. -/
theorem keeps_folded (config : Config) {catalogue : Catalogue}
    (h : catalogue = .everyName ∨ ∃ tables, catalogue = .known tables) (source source' : String) :
    (config.setting catalogue source).Keeps Text.folded (config.setting catalogue source') := by
  intro tbl tbl' htbl hsharded
  have hname := Table.name_eq htbl
  rw [Reader.isSharded_iff] at hsharded ⊢
  obtain ⟨haccepts, hdual⟩ := hsharded
  refine ⟨?_, ?_⟩
  · rw [← haccepts]
    exact (Catalogue.accepts_eq h hname).symm
  · rw [← hdual]
    exact (Text.sameWord_congr hname "dual").symm

/-- Texts that differ in case only give twin settings. -/
theorem twin_folded (config : Config) (catalogue : Catalogue) {source source' : String}
    (h : source.toList.map Char.toLower = source'.toList.map Char.toLower) :
    (config.setting catalogue source).Twin Text.folded (config.setting catalogue source') := by
  refine ⟨rfl, rfl, fun start stop => ?_⟩
  have htext : ∀ cs : List Char,
      Text.folded (String.ofList (Text.trim ((Text.slice? start stop cs).getD []))) =
        String.ofList (Text.trim ((Text.slice? start stop (cs.map Char.toLower)).getD [])) := by
    intro cs
    rw [Text.slice?_lower, Text.folded, String.toList_ofList, ← Text.trim_lower]
    cases Text.slice? start stop cs <;> rfl
  rw [Reader.sourceText, Reader.sourceText, htext, htext]
  exact congrArg (fun cs => String.ofList (Text.trim ((Text.slice? start stop cs).getD []))) h

end Setting

/-! ## Scopes -/

/-- What a block declares and marks, in other words. -/
def Block.outline (w : String → String) (b : Block) : Span × List Table × List Marker :=
  (b.span, b.scope.tables.map (Table.outline w), b.scope.markers.map (Marker.outline w))

theorem Statement.blocks_eq (st : Statement) :
    st.blocks = st.levels.map fun l => ⟨l.scope, l.span⟩ := by
  rw [Statement.levels, List.map_cons, List.map_map]
  rfl

/-- Statements with one outline are visited alike. -/
theorem Statement.visited_map_eq {w : String → String} {st st' : Statement} {γ : Type}
    {g : Block → γ} (houtline : st.outline w = st'.outline w)
    (h : st.blocks.map g = st'.blocks.map g) : st.visited.map g = st'.visited.map g := by
  cases st with
  | define d =>
      cases st' with
      | define d' => exact congrArg (fun x => [x]) (List.cons.inj h).1
      | select | insert | update | delete => cases houtline
  | select | insert | update | delete =>
      cases st' with
      | define => cases houtline
      | select | insert | update | delete => exact h

/-- The markers of a statement are those of the blocks that the walk meets. -/
theorem Record.mem_allMarkers_iff {env : Setting} {st : Statement} {c : Cursor} {log : List Entry}
    {r : Reading} (hrec : Record env st c log r) {m : Marker} :
    m ∈ st.allMarkers ↔ m ∈ Block.markersOf st.visited := by
  have hnodup := hrec.nodup_start.sublist (st.collected_sublist.map Marker.start)
  rw [Statement.allMarkers, (Marker.perm_normalize hnodup).mem_iff, Statement.collected_eq]

namespace Counterparts

variable {w : String → String} {env env' : Setting} {st st' : Statement} {passages : List Passage}

/-- Corresponding scopes declare and mark alike. -/
theorem blocks_eq (h : Counterparts w env env' st st' passages) (hw : Faithful w)
    (hkeeps : env.Keeps w env') (hkeeps' : env'.Keeps w env) :
    st.blocks.map (Block.outline w) = st'.blocks.map (Block.outline w) := by
  rw [Statement.blocks_eq, Statement.blocks_eq, List.map_map, List.map_map]
  refine map_eq_of_map_eq h.levels_eq fun l hl l' hl' heq => ?_
  obtain ⟨c, log, r, hrec, -⟩ := h.record
  obtain ⟨c', log', r', hrec', -⟩ := h.record'
  obtain ⟨_, _, _, -, hread⟩ := hrec.exists_read l hl
  obtain ⟨_, _, _, -, hread'⟩ := hrec'.exists_read l' hl'
  simp only [Function.comp_apply, Block.outline, Level.span_eq heq,
    Level.tables_eq hread hread' hkeeps hkeeps' heq, h.markers_eq hw hkeeps hkeeps' hl hl' heq]

/-- The walks collect corresponding markers. -/
theorem collected_eq (h : Counterparts w env env' st st' passages) (hw : Faithful w)
    (hkeeps : env.Keeps w env') (hkeeps' : env'.Keeps w env) :
    (Block.markersOf st.visited).map (Marker.outline w) =
      (Block.markersOf st'.visited).map (Marker.outline w) := by
  have hblocks := Statement.visited_map_eq h.outline (h.blocks_eq hw hkeeps hkeeps')
  have hflat : ∀ bs : List Block, (Block.markersOf bs).map (Marker.outline w) =
      (bs.map (Block.outline w)).flatMap fun x => x.2.2 := by
    intro bs
    rw [Block.markersOf, List.map_flatMap, List.flatMap_map]
    rfl
  rw [hflat, hflat, hblocks]

/-- The markers of the two statements correspond. -/
theorem allMarkers_eq (h : Counterparts w env env' st st' passages) (hw : Faithful w)
    (hkeeps : env.Keeps w env') (hkeeps' : env'.Keeps w env) :
    st.allMarkers.map (Marker.outline w) = st'.allMarkers.map (Marker.outline w) := by
  obtain ⟨c, log, r, hrec, -⟩ := h.record
  obtain ⟨c', log', r', hrec', -⟩ := h.record'
  have hcollected := h.collected_eq hw hkeeps hkeeps'
  refine map_eq_of_ascending Marker.start (Marker.pairwise_normalize _)
    (Marker.pairwise_normalize _) ?_ ?_
  · intro m hm
    obtain ⟨m', hm', heq⟩ := exists_of_map_eq hcollected (hrec.mem_allMarkers_iff.1 hm)
    exact ⟨m', hrec'.mem_allMarkers_iff.2 hm', heq⟩
  · intro m hm
    obtain ⟨m', hm', heq⟩ := exists_of_map_eq hcollected.symm (hrec'.mem_allMarkers_iff.1 hm)
    exact ⟨m', hrec.mem_allMarkers_iff.2 hm', heq⟩

end Counterparts

/-! ## Parsing -/

/-- Where a failure is reported, if it is an error. -/
def Failure.place? : Failure → Option (ErrorKind × Nat)
  | .error e => some (e.kind, e.offset)
  | .undecodable => none

/-- A fault in other words, or in another text, is at the same place. -/
theorem Fault.outline_place? (w : String → String) (f : Fault) (source source' : List Char) :
    ((f.outline w).toFailure source).place? = (f.toFailure source').place? := by
  cases f <;> rfl

/-- Two statements that are the same up to the case of letters: one outline, one number
of `?`, and corresponding tables and markers in corresponding scopes. -/
structure Parsed.SameUpToCase (p p' : Parsed) : Prop where
  outline : p.statement.outline Text.folded = p'.statement.outline Text.folded
  parameters : p.parameterCount = p'.parameterCount
  scopes : p.statement.blocks.map (Block.outline Text.folded) =
    p'.statement.blocks.map (Block.outline Text.folded)
  markers : p.markers.map (Marker.outline Text.folded) = p'.markers.map (Marker.outline Text.folded)

/-- The tokens of texts that differ in case only are the same up to case. -/
theorem verdicts_tokenize (d : Dialect) {source source' : String}
    (h : source.toList.map Char.toLower = source'.toList.map Char.toLower) :
    Verdicts (fun e e' => e.kind = e'.kind ∧ e.offset = e'.offset) (Same (List.map Token.lower))
      (tokenize d source) (tokenize d source') := by
  have hstream : (TokenStream.ofText d source.toList).lower =
      (TokenStream.ofText d source'.toList).lower := by
    rw [← TokenStream.ofText_lower, h, TokenStream.ofText_lower]
  obtain ⟨htokens, hfailure⟩ := TokenStream.mk.inj hstream
  simp only [tokenize, hfailure]
  cases (TokenStream.ofText d source'.toList).failure with
  | none => exact .ok htokens
  | some f => exact .error ⟨rfl, rfl⟩

/-- Counterparts that agree on what is sharded are the same up to case. -/
theorem Counterparts.sameUpToCase {env env' : Setting} {p p' : Parsed} {passages : List Passage}
    (h : Counterparts Text.folded env env' p.statement p'.statement passages)
    (hkeeps : env.Keeps Text.folded env') (hkeeps' : env'.Keeps Text.folded env)
    (hmarkers : p.markers = p.statement.allMarkers)
    (hmarkers' : p'.markers = p'.statement.allMarkers) : p.SameUpToCase p' := by
  have hw : Faithful Text.folded := fun _ _ => id
  refine ⟨h.outline, ?_, h.blocks_eq hw hkeeps hkeeps', ?_⟩
  · have hscope := congrArg Statement.scope h.outline
    rw [Statement.outline_scope, Statement.outline_scope] at hscope
    exact (Scope.mk.inj hscope).2.2.1
  · rw [hmarkers, hmarkers']
    exact h.allMarkers_eq hw hkeeps hkeeps'

/-- Texts without backslash that differ in the case of letters only have the same
tokens up to case, or a lexical error at the same place; and parsing them fails at
the same place, or gives statements that are the same up to case. -/
theorem sameUpToCase_parse (config : Config) {catalogue : Catalogue}
    (hcatalogue : catalogue = .everyName ∨ ∃ tables, catalogue = .known tables)
    {source source' : String} (hsame : Text.sameWord source source' = true)
    (hplain : '\\' ∉ source.toList) (hplain' : '\\' ∉ source'.toList) :
    Verdicts (fun e e' => e.kind = e'.kind ∧ e.offset = e'.offset) (Same (List.map Token.lower))
        (tokenize config.dialect source) (tokenize config.dialect source') ∧
      Verdicts (Same Failure.place?) Parsed.SameUpToCase (parse config catalogue source)
        (parse config catalogue source') := by
  have hlower : source.toList.map Char.toLower = source'.toList.map Char.toLower := by
    simpa [Text.sameWord] using hsame
  refine ⟨verdicts_tokenize config.dialect hlower, ?_⟩
  have htokens := TokenStream.ofText_alike config.dialect hlower hplain hplain'
  rcases ((Setting.twin_folded config catalogue hlower).parse htokens).exists_eq with
    ⟨p, p', hp, hp', passages, hparts⟩ | ⟨e, e', hp, hp', f, f', rfl, rfl, hfault⟩
  · rw [hp, hp']
    exact .ok (hparts.sameUpToCase (Setting.keeps_folded config hcatalogue source source')
      (Setting.keeps_folded config hcatalogue source' source) (parse_ok hp).2.1 (parse_ok hp').2.1)
  · rw [hp, hp']
    refine .error ?_
    rw [Same, ← Fault.outline_place? Text.folded f source'.toList, hfault, Fault.outline_place?]

/-- Keywords, a hexadecimal number, a table under two spellings and its alias. -/
theorem sameUpToCase_select : ∃ p p',
    parse {} (Catalogue.known (.ofList ["Orders"])) "SELECT o.a FROM orders O WHERE O.b = 0xAf" =
        .ok p ∧
      parse {} (Catalogue.known (.ofList ["Orders"])) "select O.A from ORDERS o where o.B = 0XaF" =
        .ok p' ∧
      (p.markers.map fun m => (m.start, m.literal, m.table)) =
        [(7, "o", "orders"), (16, "orders", "orders"), (31, "O", "orders")] ∧
      (p'.markers.map fun m => (m.start, m.literal, m.table)) =
        [(7, "O", "ORDERS"), (16, "ORDERS", "ORDERS"), (31, "o", "ORDERS")] ∧
      p.SameUpToCase p' := by
  obtain ⟨p, hp, hmarkers⟩ : ∃ p, parse {} (Catalogue.known (.ofList ["Orders"]))
      "SELECT o.a FROM orders O WHERE O.b = 0xAf" = .ok p ∧
        (p.markers.map fun m => (m.start, m.literal, m.table)) =
          [(7, "o", "orders"), (16, "orders", "orders"), (31, "O", "orders")] :=
    exists_of_any (by decide +kernel)
  obtain ⟨p', hp', hmarkers'⟩ : ∃ p', parse {} (Catalogue.known (.ofList ["Orders"]))
      "select O.A from ORDERS o where o.B = 0XaF" = .ok p' ∧
        (p'.markers.map fun m => (m.start, m.literal, m.table)) =
          [(7, "O", "ORDERS"), (16, "ORDERS", "ORDERS"), (31, "o", "ORDERS")] :=
    exists_of_any (by decide +kernel)
  have hsame : Text.sameWord "SELECT o.a FROM orders O WHERE O.b = 0xAf"
      "select O.A from ORDERS o where o.B = 0XaF" = true := by
    decide +kernel
  have hboth := (sameUpToCase_parse {} (.inr ⟨.ofList ["Orders"], rfl⟩) hsame (by decide +kernel)
    (by decide +kernel)).2
  rw [hp, hp'] at hboth
  cases hboth with
  | ok hcase => exact ⟨p, p', hp, hp', hmarkers, hmarkers', hcase⟩

end SqlMarkers
