/-
SqlMarkers.Proofs.Ledger — every marker is a token of the log, and no token is
marked twice.

Two kinds of tokens become markers: names of sharded tables, at once, and
owners, when some scope resolves them. Until then an owner moves outwards from
scope to scope. `Reading.held` collects, as places in the text, the markers of
the scope in the making, its open owners, and the markers of all queries that
were read on the way. At every point of a trail this is a permutation of the
places of the marked tokens of its log (`Trail.held_perm`): nothing is lost
where an owner moves, and nothing is counted twice where a scope is
normalized, since the tokens of a log have different starts.
-/
import SqlMarkers.Proofs.Normal
import SqlMarkers.Proofs.Queries
import SqlMarkers.Proofs.Walk

namespace SqlMarkers

/-! ## Places -/

/-- Where a token stands, and its text. -/
def Token.place (t : Token) : Nat × String := (t.span.start, t.text)

/-- Where a marker stands, and its text. -/
def Marker.place (m : Marker) : Nat × String := (m.start, m.literal)

/-- Where an owner stands, and its text. -/
def Owner.place (o : Owner) : Nat × String := (o.start, o.literal)

/-- Whether a token becomes a marker, now or when its owner is resolved. -/
def Entry.isMarked (env : Setting) (e : Entry) : Bool :=
  match e.fate with
  | .owner _ => true
  | .table t => Reader.isSharded env t
  | _ => false

/-- The places of the marked tokens of a log. -/
def Entry.marked (env : Setting) (log : List Entry) : List (Nat × String) :=
  (log.filter (Entry.isMarked env)).map fun e => e.token.place

section Marked

variable (env : Setting) (log log' : List Entry) (t : Token)

@[simp] theorem Entry.marked_nil : Entry.marked env [] = [] := rfl

@[simp] theorem Entry.marked_append :
    Entry.marked env (log ++ log') = Entry.marked env log ++ Entry.marked env log' := by
  simp [Entry.marked]

theorem Entry.marked_cons (e : Entry) : Entry.marked env (e :: log) =
    (if e.isMarked env then [e.token.place] else []) ++ Entry.marked env log := by
  unfold Entry.marked
  rw [List.filter_cons]
  split <;> rfl

@[simp] theorem Entry.marked_passed (ts : List Token) :
    Entry.marked env (ts.map (⟨·, .passed⟩)) = [] := by
  induction ts with
  | nil => rfl
  | cons t ts ih =>
      rw [List.map_cons, Entry.marked_cons, ih]
      rfl

end Marked

/-- A cursor moves over tokens with ascending starts. -/
theorem Steps.pairwise_start {c c' : Cursor} {ts : List Token} (h : Steps c ts c')
    (ho : c.Orderly) : (ts.map fun t => t.span.start).Pairwise (· < ·) := by
  have happart := ho.apart
  rw [h.rest_eq ho] at happart
  have hts := (List.pairwise_append.1 happart).1
  rw [List.pairwise_map]
  refine hts.imp_of_mem fun {a b} ha hb hab => ?_
  have hwide := ho.wide a (h.mem_rest ho ha) (h.isEnd_eq ha)
  omega

/-- Marked tokens have different starts. -/
theorem Trail.nodup_marked {env : Setting} {s r : Reading} {log : List Entry} {h : List Part}
    {e : Edge} (t : Trail env s log h e r) (ho : s.cursor.Orderly) :
    ((Entry.marked env log).map Prod.fst).Nodup := by
  have hpair := t.steps.pairwise_start ho
  rw [List.map_map] at hpair
  have hsub : ((Entry.marked env log).map Prod.fst).Sublist
      (log.map ((fun t : Token => t.span.start) ∘ Entry.token)) := by
    rw [Entry.marked, List.map_map]
    exact List.filter_sublist.map _
  exact (hpair.sublist hsub).imp Nat.ne_of_lt

/-! ## Scopes -/

namespace Draft

variable (d : Draft)

/-- The places of a scope in the making: its markers and its open owners. -/
def places : List (Nat × String) := d.markers.map Marker.place ++ d.owners.map Owner.place

theorem map_place_resolved :
    (d.owners.filterMap d.resolve?).map Marker.place =
      (d.owners.filter fun o => (d.find? o).isSome).map Owner.place := by
  induction d.owners with
  | nil => rfl
  | cons o os ih =>
      rw [List.filterMap_cons, List.filter_cons, resolve?]
      cases d.find? o with
      | none => exact ih
      | some t => exact congrArg (o.place :: ·) ih

/-- The markers of declared tables and of resolved owners have different starts. -/
theorem nodup_start (hnodup : (d.places.map Prod.fst).Nodup) :
    ((d.markers ++ d.owners.filterMap d.resolve?).map Marker.start).Nodup := by
  have hstart : (d.markers ++ d.owners.filterMap d.resolve?).map Marker.start =
      (d.markers.map Marker.place ++
        (d.owners.filter fun o => (d.find? o).isSome).map Owner.place).map Prod.fst := by
    rw [← map_place_resolved, ← List.map_append, List.map_map]
    rfl
  rw [hstart]
  refine hnodup.sublist (List.Sublist.map _ ?_)
  exact (List.Sublist.refl _).append (List.filter_sublist.map _)

/-- The markers of a finished scope are those of its tables and of the owners that
they answer to. -/
theorem mem_finish_markers (hnodup : (d.places.map Prod.fst).Nodup) {m : Marker} :
    m ∈ d.finish.markers ↔ m ∈ d.markers ∨ ∃ o ∈ d.owners, d.resolve? o = some m := by
  rw [finish, (Marker.perm_normalize (d.nodup_start hnodup)).mem_iff, List.mem_append,
    List.mem_filterMap]

/-- Finishing a scope turns owners into markers, or hands them on. -/
theorem perm_finish (hnodup : (d.places.map Prod.fst).Nodup) :
    (d.finish.markers.map Marker.place ++ d.unresolved.map Owner.place).Perm d.places := by
  have hsplit : ((d.owners.filterMap d.resolve?).map Marker.place ++
      d.unresolved.map Owner.place).Perm (d.owners.map Owner.place) := by
    rw [map_place_resolved, ← List.map_append]
    have hnone : (fun o => (d.find? o).isNone) = fun o => !(d.find? o).isSome := by
      funext o
      cases d.find? o <;> rfl
    rw [unresolved, hnone]
    exact (List.filter_append_perm _ _).map _
  have hall : ((d.markers ++ d.owners.filterMap d.resolve?).map Marker.place ++
      d.unresolved.map Owner.place).Perm d.places := by
    rw [List.map_append, List.append_assoc, places]
    exact hsplit.append_left _
  have hmarkers := (Marker.perm_normalize (d.nodup_start hnodup)).map Marker.place
  exact (hmarkers.append_right _).trans hall

end Draft

/-- The places of the markers of queries and of all queries inside them. -/
def Query.placesIn (qs : List Query) : List (Nat × String) :=
  (Query.nestedIn qs).flatMap fun q => q.scope.markers.map Marker.place

namespace Query

@[simp] theorem placesIn_nil : placesIn [] = [] := rfl

@[simp] theorem placesIn_append (as bs : List Query) :
    placesIn (as ++ bs) = placesIn as ++ placesIn bs := by
  simp [placesIn]

theorem placesIn_singleton (q : Query) :
    placesIn [q] = q.scope.markers.map Marker.place ++
      placesIn (Part.queries q.parts ++ q.scope.subqueries) := by
  rw [placesIn, Query.nestedIn_singleton, List.flatMap_cons, q.nested_eq]
  rfl

theorem placesIn_perm {as bs : List Query} (h : as.Perm bs) :
    (placesIn as).Perm (placesIn bs) := by
  unfold placesIn
  rw [Query.nestedIn_eq, Query.nestedIn_eq]
  exact (h.flatMap_right _).flatMap_right _

end Query

/-! ## Along a trail -/

/-- The places of a reading with `h` in hand: those of its scope and those of
the queries read so far. -/
def Reading.held (r : Reading) (h : List Part) : List (Nat × String) :=
  r.draft.places ++ Query.placesIn (Part.queries h ++ r.draft.subqueries)

theorem Draft.places_declare (d : Draft) (t : Table) (token : Token) (hspan : t.span = token.span) :
    (d.declare t token.text).places.Perm (d.places ++ [token.place]) := by
  have hplace : Marker.place ⟨t.span.start, token.text, t.name⟩ = token.place := by
    rw [hspan]
    rfl
  simp only [Draft.places, Draft.declare, List.map_append, List.map_cons, List.map_nil, hplace,
    List.append_assoc]
  exact List.perm_append_comm.append_left _

/-- A table that is read adds its name, if it is sharded. -/
theorem Reading.held_declaring (env : Setting) (r : Reading) (h : List Part) (t : Table)
    (token : Token) (hspan : t.span = token.span) :
    ((r.declaring env t token).held h).Perm
      (r.held h ++ Entry.marked env [⟨token, .table t⟩]) := by
  rw [Entry.marked_cons, Entry.marked_nil, List.append_nil]
  unfold Reading.declaring
  cases hsharded : Reader.isSharded env t with
  | false => simp [Entry.isMarked, hsharded]
  | true =>
      simp only [if_true, Entry.isMarked, hsharded, Reading.held, List.append_assoc]
      refine ((r.draft.places_declare t token hspan).append_right _).trans ?_
      rw [List.append_assoc]
      exact List.perm_append_comm.append_left _

theorem Reading.held_noted (r : Reading) (h : List Part) (name : String) :
    ((r.noted name).held h).Perm (r.held h ++ [r.cursor.current.place]) := by
  simp only [Reading.held, Draft.places, Reading.noted, List.map_append, List.append_assoc]
  exact (List.perm_append_comm.append_left _).append_left _

theorem Named.marked_front {env : Setting} {c c' : Cursor} {schema : Option String}
    {front : List Entry} {token : Token} (h : Named c schema front token c') :
    Entry.marked env front = [] := by
  cases h <;> rfl

theorem Reading.held_congr {r r' : Reading} (hdraft : r'.draft = r.draft) (h : List Part) :
    r'.held h = r.held h := by
  rw [Reading.held, hdraft]
  rfl

/-- What a query holds when it ends becomes its markers and the owners that it
hands on. -/
theorem Reading.held_leave {r r' : Reading} {h : List Part} {q : Query}
    (hscope : q.scope = r'.draft.finish) (hnodup : ((r'.held q.parts).map Prod.fst).Nodup) :
    ((r.leave r' q).held (h ++ [.query q])).Perm (r.held h ++ r'.held q.parts) := by
  have hfinish := r'.draft.perm_finish (by
    rw [Reading.held, List.map_append] at hnodup
    exact (List.nodup_append.1 hnodup).1)
  have hq : Query.placesIn [q] = r'.draft.finish.markers.map Marker.place ++
      Query.placesIn (Part.queries q.parts ++ r'.draft.subqueries) := by
    rw [Query.placesIn_singleton, hscope]
    rfl
  rw [List.perm_iff_count] at hfinish ⊢
  intro a
  have hcount := hfinish a
  simp only [Reading.held, Reading.leave, Draft.places, Part.queries_append,
    Part.queries_cons_query, Part.queries_nil, Query.placesIn_append, hq, List.map_append,
    List.count_append] at hcount ⊢
  omega

/-- Places are held exactly once, and they are those of the marked tokens. -/
theorem Trail.held_perm {env : Setting} {s r : Reading} {log : List Entry} {h : List Part}
    {e : Edge} (t : Trail env s log h e r) (ho : s.cursor.Orderly) :
    (r.held h).Perm (s.held [] ++ Entry.marked env log) := by
  induction t with
  | start s => simp
  | pass _ _ _ _ ih | slip _ _ _ _ ih | dot _ _ _ _ ih | count _ _ _ ih =>
      rw [Entry.marked_append]
      simpa [Reading.held, Reading.counted, Draft.places, Entry.marked_cons, Entry.isMarked]
        using ih ho
  | owner _ _ _ _ _ ih =>
      rw [Entry.marked_append, ← List.append_assoc]
      exact (Reading.held_noted _ _ _).trans ((ih ho).append_right _)
  | passage kind _ _ _ _ _ ih => simpa [Reading.held] using ih ho
  | @table s r r' log front log' h e e' c tbl token t hnamed t' hdraft _ hspan ih ih' =>
      -- Behind the name nothing is marked, since the draft stays as it was.
      have hsub : Entry.marked env log' = [] := by
        have hperm := ih' (hnamed.steps.orderly (t.steps.orderly ho))
        rw [Reading.held_congr hdraft] at hperm
        have hlength := hperm.length_eq
        rw [List.length_append] at hlength
        refine List.eq_nil_of_length_eq_zero ?_
        simp only [Reading.held, Reading.moved_draft] at hlength
        omega
      have hheld : r'.held (h ++ [.table tbl]) = r.held h := by
        rw [Reading.held_congr hdraft, Reading.held, Part.queries_append]
        simp [Reading.held]
      have hfront : Entry.marked env front = [] := hnamed.marked_front
      refine (Reading.held_declaring env r' _ tbl token hspan).trans ?_
      rw [hheld]
      simpa [Entry.marked_cons, hfront, hsub] using
        (ih ho).append_right (Entry.marked env [⟨token, .table tbl⟩])
  | @nested s r r' log log' h e e' c q t hselect hc t' _ hscope _ ih ih' =>
      have ho' : (r.enter.moved c).cursor.Orderly :=
        (t.steps.orderly ho).next (Token.isEnd_of_isKeyword hselect) hc
      have hfresh : (r.enter.moved c).held [] = [] := rfl
      have hinner := ih' ho'
      rw [hfresh, List.nil_append] at hinner
      have hnodup : ((r'.held q.parts).map Prod.fst).Nodup :=
        (hinner.map Prod.fst).nodup_iff.2 (t'.nodup_marked ho')
      refine (Reading.held_leave hscope hnodup).trans ?_
      rw [Entry.marked_append, Entry.marked_cons, ← List.append_assoc]
      exact ((ih ho).append hinner)
  | @attach s r log h e q _ _ ih =>
      refine List.Perm.trans ?_ (ih ho)
      simp only [Reading.held, Reading.attaching, Part.queries_append, Part.queries_cons_query,
        Part.queries_nil, List.append_assoc]
      refine List.Perm.append_left _ (Query.placesIn_perm ?_)
      exact List.perm_append_comm.append_left _
  | keep _ _ _ ih => simpa [Reading.held] using ih ho
  | drop x _ _ ih => simpa [Reading.held] using ih ho
  | settle _ _ ih => exact ih ho
  | level _ _ ih => exact ih ho
  | perm _ hp ih =>
      refine List.Perm.trans ?_ (ih ho)
      refine List.Perm.append_left _ (Query.placesIn_perm (List.Perm.append_right _ ?_))
      exact (hp.filterMap _).symm

/-- No place of a scope in the making is held twice. -/
theorem Trail.nodup_places {env : Setting} {s r : Reading} {log : List Entry} {h : List Part}
    {e : Edge} (t : Trail env s log h e r) (ho : s.cursor.Orderly) (hs : s.held [] = []) :
    (r.draft.places.map Prod.fst).Nodup := by
  have hheld := t.held_perm ho
  rw [hs, List.nil_append] at hheld
  have hall := (hheld.map Prod.fst).nodup_iff.2 (t.nodup_marked ho)
  rw [Reading.held, List.map_append] at hall
  exact (List.nodup_append.1 hall).1

/-! ## Whole statements -/

/-- A statement that was read: its log starts at `c`, the first token, and ends
at `r`, where nothing but a `;` is left. -/
structure Record (env : Setting) (st : Statement) (c : Cursor) (log : List Entry) (r : Reading) :
    Prop where
  first : Cursor.ofText env.dialect env.source = .ok c
  trail : ∃ e, Trail env (Reading.start c) log st.parts e r
  scope : st.scope = r.draft.finish
  span : st.span = ⟨c.current.span.start, r.cursor.lastEnd⟩
  atEnd : Reader.AtEnd r.cursor

/-- Every statement that is read has a record, with the passages of the run. -/
theorem Setting.exists_record {env : Setting} {st : Statement} {r : Reading}
    (h : env.run = .ok (st, r)) :
    ∃ c log r₁, Record env st c log r₁ ∧ r.passages = r₁.passages := by
  obtain ⟨c, r₁, hfirst, hread, hpassages, hend⟩ := Setting.run_yields h
  obtain ⟨log, e, t⟩ := hread.trail
  exact ⟨c, log, r₁, ⟨hfirst, ⟨e, t⟩, hread.scope, hread.span, hend⟩, hpassages⟩

namespace Record

variable {env : Setting} {st : Statement} {c : Cursor} {log : List Entry} {r : Reading}

theorem orderly (hrec : Record env st c log r) : c.Orderly :=
  (Cursor.orderly_ofText hrec.first).1

theorem steps (hrec : Record env st c log r) : Steps c (log.map Entry.token) r.cursor :=
  let ⟨_, t⟩ := hrec.trail
  t.steps

/-- The tokens of the text are those of the log and what is left. -/
theorem tokens_eq (hrec : Record env st c log r) :
    (TokenStream.ofText env.dialect env.source).tokens =
      log.map Entry.token ++ r.cursor.rest := by
  rw [(Cursor.orderly_ofText hrec.first).2.1]
  exact hrec.steps.rest_eq hrec.orderly

theorem mem_tokens (hrec : Record env st c log r) {e : Entry} (he : e ∈ log) :
    e.token ∈ (TokenStream.ofText env.dialect env.source).tokens := by
  rw [hrec.tokens_eq]
  exact List.mem_append_left _ (List.mem_map_of_mem he)

theorem nested_eq (hrec : Record env st c log r) : st.nested = r.queries st.parts := by
  rw [st.nested_eq, hrec.scope]
  rfl

/-- Every query in a statement was read on the way. -/
theorem readBetween (hrec : Record env st c log r) {q : Query} (hq : q ∈ st.nested) :
    ReadBetween env c log r.cursor q := by
  obtain ⟨e, t⟩ := hrec.trail
  rw [hrec.nested_eq] at hq
  rcases t.readBetween q hq with hstart | hread
  · cases hstart
  · exact hread

/-- What holds of every finished scope holds of every block of a statement. -/
theorem forall_block (hrec : Record env st c log r) {P : Scope → Prop}
    (hP : ∀ d : Draft, P d.finish) : ∀ b ∈ st.blocks, P b.scope := by
  intro b hb
  rcases List.mem_cons.1 hb with rfl | hb
  · rw [hrec.scope]
    exact hP _
  · obtain ⟨q, hq, rfl⟩ := List.mem_map.1 hb
    obtain ⟨_, _, _, _, _, -, -, hown, -⟩ := hrec.readBetween hq
    change P q.scope
    rw [hown.scope]
    exact hP _

/-- A text with a statement has no lexical fault. -/
theorem failure_eq (hrec : Record env st c log r) :
    (TokenStream.ofText env.dialect env.source).failure = none := by
  rw [(Cursor.orderly_ofText hrec.first).2.2, ← hrec.steps.failure_eq hrec.orderly]
  obtain ⟨ts, hts, ⟨-, hrest⟩ | ⟨hf, -⟩⟩ := (hrec.steps.orderly hrec.orderly).ends
  · -- A fault would have stopped the reader in front of the end of the input.
    obtain ⟨e, hend, he⟩ := hrec.atEnd
    have hmem : e ∈ ts := by
      dsimp only at hrest
      rw [← hrest]
      rcases he with he | ⟨m, -, he⟩ <;> rw [he] <;> simp
    rw [hts e hmem] at hend
    cases hend
  · exact hf

end Record

/-- The places of the markers of blocks. -/
def Block.placesOf (bs : List Block) : List (Nat × String) :=
  bs.flatMap fun b => b.scope.markers.map Marker.place

theorem Block.placesOf_eq (bs : List Block) :
    Block.placesOf bs = (Block.markersOf bs).map Marker.place := by
  rw [Block.placesOf, Block.markersOf, List.map_flatMap]

theorem Block.placesOf_blocks (st : Statement) :
    Block.placesOf st.blocks = st.scope.markers.map Marker.place ++
      Query.placesIn (Part.queries st.parts ++ st.scope.subqueries) := by
  rw [Block.placesOf, Statement.blocks, List.flatMap_cons, List.flatMap_map, st.nested_eq]
  rfl

/-- The markers of all blocks of a statement, and the owners that no block
resolves, stand at the marked tokens of its log. -/
theorem Record.perm_marked {env : Setting} {st : Statement} {c : Cursor} {log : List Entry}
    {r : Reading} (hrec : Record env st c log r) :
    (Block.placesOf st.blocks ++ r.draft.unresolved.map Owner.place).Perm
      (Entry.marked env log) := by
  obtain ⟨e, t⟩ := hrec.trail
  have hheld := t.held_perm hrec.orderly
  have hfresh : (Reading.start c).held [] = [] := rfl
  rw [hfresh, List.nil_append] at hheld
  have hfinish := r.draft.perm_finish (t.nodup_places hrec.orderly hfresh)
  rw [Block.placesOf_blocks, hrec.scope]
  rw [List.perm_iff_count] at hfinish hheld ⊢
  intro a
  have hcount := hfinish a
  have hcount' := hheld a
  simp only [Reading.held, List.count_append] at hcount hcount' ⊢
  have hsub : r.draft.finish.subqueries = r.draft.subqueries := rfl
  rw [hsub]
  omega

end SqlMarkers
