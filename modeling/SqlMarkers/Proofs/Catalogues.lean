/-
SqlMarkers.Proofs.Catalogues — what a catalogue decides.

A catalogue says which tables are sharded. No reader asks it before a table
reference is complete, and the answer goes nowhere but into the scope of the
statement: two catalogues lead to the same failure, or to trees that differ in
nothing but the tables and markers of their scopes (`outline_parse`).

With a larger catalogue more is marked. This is no comparison scope by scope: a
table more can take an owner from a statement further out, which loses its marker
then. But the owner stays marked, now for the new table.
-/
import SqlMarkers.Proofs.Counterparts

namespace SqlMarkers

theorem TokenStream.alike_self (s : TokenStream) : s.Alike id s :=
  ⟨List.forall₂_same.2 fun t _ => .refl t, rfl⟩

theorem Table.outline_id (tbl : Table) : tbl.outline id = tbl := by
  simp [Table.outline]

theorem Fault.outline_id (f : Fault) : f.outline id = f := by
  rcases f with _ | ⟨_, _ | _⟩ | _ | _ <;> simp [Fault.outline, GrammarCause.outline]

/-- What a catalogue accepts stays sharded under a larger one. -/
theorem Setting.keeps_of_accepts {config : Config} {source : String} {catalogue larger : Catalogue}
    (h : ∀ name, catalogue.accepts name = true → larger.accepts name = true) :
    (config.setting catalogue source).Keeps id (config.setting larger source) := by
  intro tbl tbl' htbl hsharded
  rw [Table.outline_id, Table.outline_id] at htbl
  subst htbl
  rw [Reader.isSharded_iff] at hsharded ⊢
  exact ⟨h _ hsharded.1, hsharded.2⟩

/-- Under two catalogues a text gives the same failure, or trees that are the same up
to the tables and markers of their scopes. What the first catalogue marks, a larger
one marks too. -/
theorem outline_parse (config : Config) (catalogue other : Catalogue) (source : String) :
    Verdicts Eq
      (fun p q => p.source = q.source ∧ p.statement.outline id = q.statement.outline id ∧
        ((∀ name, catalogue.accepts name = true → other.accepts name = true) →
          (Block.markersOf p.statement.blocks).map Marker.start ⊆
            (Block.markersOf q.statement.blocks).map Marker.start))
      (parse config catalogue source) (parse config other source) := by
  have htwin : (config.setting catalogue source).Twin id (config.setting other source) :=
    ⟨rfl, rfl, fun _ _ => rfl⟩
  rcases (htwin.parse (TokenStream.alike_self _)).exists_eq with
    ⟨p, q, hp, hq, passages, hparts⟩ | ⟨e, e', hp, hq, f, f', rfl, rfl, hfault⟩
  · rw [hp, hq]
    refine .ok ⟨?_, hparts.outline, fun haccepts n hn => ?_⟩
    · rw [(parse_ok hp).1, (parse_ok hq).1]
    · obtain ⟨m, hm, rfl⟩ := List.mem_map.1 hn
      obtain ⟨b, hb, hm⟩ := List.mem_flatMap.1 hm
      obtain ⟨l, hl, rfl⟩ := Statement.mem_blocks_iff.1 hb
      obtain ⟨l', hl', m', hm', hstart⟩ := hparts.exists_start (fun _ _ => congrArg Text.folded)
        (Setting.keeps_of_accepts haccepts) hl hm
      rw [← hstart]
      exact List.mem_map_of_mem
        (List.mem_flatMap.2 ⟨_, Statement.mem_blocks_iff.2 ⟨l', hl', rfl⟩, hm'⟩)
  · rw [hp, hq]
    rw [Fault.outline_id, Fault.outline_id] at hfault
    exact .error (by rw [hfault])

/-- With `u` in the catalogue the owner `t` at 39 goes to the inner query, and the
outer one loses its marker. -/
theorem outline_parse_moved : ∃ p q,
    parse {} (Catalogue.known (.ofList ["t"]))
        "SELECT t.a FROM t WHERE EXISTS (SELECT t.b FROM u t)" = .ok p ∧
      parse {} (Catalogue.known (.ofList ["t", "u"]))
        "SELECT t.a FROM t WHERE EXISTS (SELECT t.b FROM u t)" = .ok q ∧
      (p.statement.levels.map fun l => l.scope.markers.map Marker.start) = [[7, 16, 39], []] ∧
      (q.statement.levels.map fun l => l.scope.markers.map Marker.start) = [[7, 16], [39, 48]] ∧
      p.statement.outline id = q.statement.outline id ∧
      (Block.markersOf p.statement.blocks).map Marker.start ⊆
        (Block.markersOf q.statement.blocks).map Marker.start := by
  obtain ⟨p, hp, hmarkers⟩ : ∃ p, parse {} (Catalogue.known (.ofList ["t"]))
      "SELECT t.a FROM t WHERE EXISTS (SELECT t.b FROM u t)" = .ok p ∧
        (p.statement.levels.map fun l => l.scope.markers.map Marker.start) = [[7, 16, 39], []] :=
    exists_of_any (by decide +kernel)
  obtain ⟨q, hq, hmarkers'⟩ : ∃ q, parse {} (Catalogue.known (.ofList ["t", "u"]))
      "SELECT t.a FROM t WHERE EXISTS (SELECT t.b FROM u t)" = .ok q ∧
        (q.statement.levels.map fun l => l.scope.markers.map Marker.start) = [[7, 16], [39, 48]] :=
    exists_of_any (by decide +kernel)
  have haccepts : ∀ name, (Catalogue.known (.ofList ["t"])).accepts name = true →
      (Catalogue.known (.ofList ["t", "u"])).accepts name = true := by
    intro name h
    have hsmall : TableNames.ofList ["t"] = ⟨["t"]⟩ := by decide +kernel
    have hlarge : TableNames.ofList ["t", "u"] = ⟨["t", "u"]⟩ := by decide +kernel
    simp only [Catalogue.known, TableNames.contains, hsmall, hlarge] at h ⊢
    simp_all
  have hboth := outline_parse {} (Catalogue.known (.ofList ["t"]))
    (Catalogue.known (.ofList ["t", "u"])) "SELECT t.a FROM t WHERE EXISTS (SELECT t.b FROM u t)"
  rw [hp, hq] at hboth
  obtain ⟨-, houtline, hsubset⟩ := hboth
  exact ⟨p, q, hp, hq, hmarkers, hmarkers', houtline, hsubset haccepts⟩

end SqlMarkers
