/-
SqlMarkers.Proofs.Fates — what the log of a trail says about the text, the tree
and the passages.

* `Trail.fits`: the fate of a token suits its kind.
* `Trail.met`: every entry of the log was the current token at some point, and its
  fate tells what follows it in the text (`Entry.Told`).
* `Trail.surveyed`: the tokens that were passed over are those that lie in a
  passage.
* `Trail.mem_references_iff`: the table references of the tree are those of the
  log.
* `Trail.schema_before`: a schema and a `.` stand in front of the name they belong to.

The last section restates this for whole statements.
-/
import Mathlib.Data.List.Nodup
import SqlMarkers.Proofs.Ledger

namespace SqlMarkers

/-! ## The token of an entry -/

/-- What the fate of a token tells about the token itself. -/
def Entry.Fits (x : Entry) : Prop :=
  match x.fate with
  | .plain => x.token.isSymbol .question = false
  | .counted => x.token.isSymbol .question = true
  | .owner _ | .loose | .schema => x.token.isName = true
  | .table t => x.token.isName = true ∧ x.token.name? = some t.name
  | .passed => True

theorem Token.isQuestion_of_isPlain {t : Token} (h : t.kind.isPlain = true) :
    t.isSymbol .question = false := by
  rw [Bool.eq_false_iff]
  intro hmark
  rw [Token.isSymbol_iff.1 hmark] at h
  cases h

theorem Token.isQuestion_of_isDot {t : Token} (h : t.isSymbol .dot = true) :
    t.isSymbol .question = false := by
  rw [Token.isSymbol, Token.isSymbol_iff.1 h]
  rfl

theorem Named.fits {c c' : Cursor} {t : Table} {front : List Entry} {token : Token}
    (h : Named c t.schema front token c') (hdecoded : token.name? = some t.name) :
    ∀ x ∈ front ++ [⟨token, .table t⟩], x.Fits := by
  generalize t.schema = schema at h
  cases h with
  | alone hname _ => simpa [Entry.Fits] using ⟨hname, hdecoded⟩
  | qualified hname _ hdot _ hname₂ _ _ =>
      simpa [Entry.Fits] using ⟨hname, Token.isQuestion_of_isDot hdot, hname₂, hdecoded⟩

/-- The fates of a log suit their tokens. -/
theorem Trail.fits {env : Setting} {s r : Reading} {log : List Entry} {h : List Part} {e : Edge}
    (t : Trail env s log h e r) : ∀ x ∈ log, x.Fits := by
  have hsnoc : ∀ {log : List Entry} {y : Entry}, (∀ x ∈ log, x.Fits) → y.Fits →
      ∀ x ∈ log ++ [y], x.Fits :=
    fun hlog hy => List.forall_mem_append.2 ⟨hlog, List.forall_mem_singleton.2 hy⟩
  induction t with
  | start s => simp
  | pass _ hplain _ _ ih => exact hsnoc ih (Token.isQuestion_of_isPlain hplain)
  | slip _ hname _ _ ih | owner _ hname _ _ _ ih => exact hsnoc ih hname
  | dot _ _ hdot _ ih => exact hsnoc ih (Token.isQuestion_of_isDot hdot)
  | count _ hmark _ ih => exact hsnoc ih hmark
  | passage kind _ _ _ _ _ ih =>
      exact List.forall_mem_append.2 ⟨ih, List.forall_mem_map.2 fun _ _ => trivial⟩
  | table _ hnamed _ _ hdecoded _ ih ih' =>
      rw [List.append_assoc]
      refine List.forall_mem_append.2 ⟨ih, ?_⟩
      rw [List.append_cons]
      exact List.forall_mem_append.2 ⟨hnamed.fits hdecoded, ih'⟩
  | nested _ hselect _ _ _ _ _ ih ih' =>
      refine List.forall_mem_append.2 ⟨ih, List.forall_mem_cons.2 ⟨?_, ih'⟩⟩
      rw [Entry.Fits, Token.isSymbol, Token.isKeyword_iff.1 hselect]
      rfl
  | attach _ _ ih => exact ih
  | keep _ _ _ ih => exact ih
  | drop _ _ _ ih => exact ih
  | settle _ _ ih => exact ih
  | level _ _ ih => exact ih
  | perm _ _ ih => exact ih

/-! ## What follows a token -/

/-- What the fate of an entry of `log` tells about the cursor behind its token. -/
def Entry.Told (log : List Entry) (x : Entry) (c : Cursor) : Prop :=
  match x.fate with
  | .plain => (x.token.isName && c.current.isSymbol .dot) = false
  | .counted => x.token.isName = false
  | .owner name => x.token.name? = some name ∧ c.current.isSymbol .dot = true
  | .loose => c.current.isSymbol .dot = true
  | .schema => ∃ c₁ t, c.current.isSymbol .dot = true ∧ Yields Cursor.next c () c₁ ∧
      ⟨c₁.current, .table t⟩ ∈ log ∧ t.schema.isSome = true
  | .table t => t.span = x.token.span
  | .passed => True

/-- On the way from `c` to `c'`, the token of an entry was the current one. -/
structure Entry.Met (log : List Entry) (c : Cursor) (x : Entry) (c' : Cursor) : Prop where
  met : ∃ ts c₁ c₂ us, Steps c ts c₁ ∧ c₁.current = x.token ∧ Yields Cursor.next c₁ () c₂ ∧
    Steps c₂ us c' ∧ x.Told log c₂

namespace Entry

variable {log log' : List Entry} {x : Entry} {c c₁ c₂ c' : Cursor}

theorem Told.mono (h : x.Told log c) (hsub : log ⊆ log') : x.Told log' c := by
  unfold Told at h ⊢
  cases hfate : x.fate with
  | schema =>
      rw [hfate] at h
      obtain ⟨c₁, t, hdot, hc₁, ht, hschema⟩ := h
      exact ⟨c₁, t, hdot, hc₁, hsub ht, hschema⟩
  | plain | counted | owner _ | loose | table _ | passed =>
      rw [hfate] at h
      exact h

theorem Met.mono (h : Met log c x c') (hsub : log ⊆ log') : Met log' c x c' := by
  obtain ⟨ts, c₁, c₂, us, hts, hx, hnext, hus, htold⟩ := h.met
  exact ⟨ts, c₁, c₂, us, hts, hx, hnext, hus, htold.mono hsub⟩

theorem Met.later (h : Met log c x c₁) {us : List Token} (hsteps : Steps c₁ us c') :
    Met log c x c' := by
  obtain ⟨ts, c₂, c₃, vs, hts, hx, hnext, hvs, htold⟩ := h.met
  exact ⟨ts, c₂, c₃, _, hts, hx, hnext, hvs.trans hsteps, htold⟩

theorem Met.earlier {ts : List Token} (hsteps : Steps c ts c₁) (h : Met log c₁ x c') :
    Met log c x c' := by
  obtain ⟨vs, c₂, c₃, us, hvs, hx, hnext, hus, htold⟩ := h.met
  exact ⟨_, c₂, c₃, us, hsteps.trans hvs, hx, hnext, hus, htold⟩

/-- The entry of the token consumed last. -/
theorem met_last {ts : List Token} (hsteps : Steps c ts c₁)
    (hnext : Yields Cursor.next c₁ () c') (hx : c₁.current = x.token) (htold : x.Told log c') :
    Met log c x c' :=
  ⟨ts, c₁, c', [], hsteps, hx, hnext, .refl _, htold⟩

end Entry

/-- The tokens of a table's name. -/
theorem Named.met {c c' : Cursor} {t : Table} {front : List Entry} {token : Token}
    (h : Named c t.schema front token c') (hspan : t.span = token.span) :
    ∀ x ∈ front ++ [⟨token, .table t⟩],
      Entry.Met (front ++ [⟨token, .table t⟩]) c x c' := by
  generalize hschema : t.schema = schema at h
  intro x hx
  cases h with
  | alone hname hc =>
      obtain rfl := List.mem_singleton.1 hx
      exact Entry.met_last (.refl _) hc rfl hspan
  | qualified hname hc₁ hdot hc₂ hname₂ hc₃ _ =>
      have hone := Steps.single (Token.isEnd_of_isName hname) hc₁
      have htwo := hone.snoc (Token.isEnd_of_isSymbol hdot) hc₂
      have hlast := Steps.single (Token.isEnd_of_isName hname₂) hc₃
      simp only [List.cons_append, List.nil_append, List.mem_cons, List.not_mem_nil,
        or_false] at hx
      rcases hx with rfl | rfl | rfl
      · refine (Entry.met_last (.refl _) hc₁ rfl ?_).later
          ((Steps.single (Token.isEnd_of_isSymbol hdot) hc₂).trans hlast)
        exact ⟨_, t, hdot, hc₂, by simp, by rw [hschema]; rfl⟩
      · refine (Entry.met_last hone hc₂ rfl ?_).later hlast
        rw [Entry.Told, Token.isName, Token.isSymbol_iff.1 hdot]
        rfl
      · exact Entry.met_last htwo hc₃ rfl hspan

/-- Every entry of a log was met on the way. -/
theorem Trail.met {env : Setting} {s r : Reading} {log : List Entry} {h : List Part} {e : Edge}
    (t : Trail env s log h e r) : ∀ x ∈ log, Entry.Met log s.cursor x r.cursor := by
  -- The entries so far stay met when one more token is consumed.
  have hsnoc : ∀ {c c₁ c₂ : Cursor} {log : List Entry} {x : Entry},
      Steps c (log.map Entry.token) c₁ → (∀ x ∈ log, Entry.Met log c x c₁) →
      c₁.current = x.token → c₁.current.isEnd = false → Yields Cursor.next c₁ () c₂ →
      x.Told (log ++ [x]) c₂ →
      ∀ y ∈ log ++ [x], Entry.Met (log ++ [x]) c y c₂ := by
    intro c c₁ c₂ log x hsteps hlog hx hend hnext htold y hy
    rcases List.mem_append.1 hy with hy | hy
    · exact ((hlog y hy).later (.single hend hnext)).mono (List.subset_append_left _ _)
    · obtain rfl := List.mem_singleton.1 hy
      exact Entry.met_last hsteps hnext hx htold
  induction t with
  | start s =>
      intro x hx
      cases hx
  | pass t hplain hc hloose ih =>
      exact hsnoc t.steps ih rfl (Token.isEnd_of_isPlain hplain) hc hloose
  | slip t hname hc hdot ih => exact hsnoc t.steps ih rfl (Token.isEnd_of_isName hname) hc hdot
  | dot t _ hdot hc ih =>
      refine hsnoc t.steps ih rfl (Token.isEnd_of_isSymbol hdot) hc ?_
      rw [Entry.Told, Token.isName, Token.isSymbol_iff.1 hdot]
      rfl
  | count t hmark hc ih =>
      refine hsnoc t.steps ih rfl (Token.isEnd_of_isSymbol hmark) hc ?_
      rw [Entry.Told, Token.isName, Token.isSymbol_iff.1 hmark]
      rfl
  | owner t hname hdecoded hc hdot ih =>
      exact hsnoc t.steps ih rfl (Token.isEnd_of_isName hname) hc ⟨hdecoded, hdot⟩
  | passage kind t _ _ hsteps _ ih =>
      intro x hx
      rcases List.mem_append.1 hx with hx | hx
      · exact ((ih x hx).later hsteps).mono (List.subset_append_left _ _)
      · obtain ⟨token, htoken, rfl⟩ := List.mem_map.1 hx
        obtain ⟨vs, c₁, c₂, us, hvs, hcurrent, hnext, hus⟩ := hsteps.exists_of_mem htoken
        exact ⟨_, c₁, c₂, us, t.steps.trans hvs, hcurrent, hnext, hus, trivial⟩
  | @table s r r' log front log' h e e' c tbl token t hnamed t' _ _ hspan ih ih' =>
      intro x hx
      rw [Reading.declaring_cursor]
      have hmiddle :
          front ++ [⟨token, .table tbl⟩] ⊆ log ++ front ++ ⟨token, .table tbl⟩ :: log' := by
        simp [List.subset_def]
        grind
      have hlater : log' ⊆ log ++ front ++ ⟨token, .table tbl⟩ :: log' :=
        fun y hy => List.mem_append_right _ (List.mem_cons_of_mem _ hy)
      have hname : ∀ x ∈ front ++ [⟨token, .table tbl⟩], Entry.Met _ s.cursor x r'.cursor :=
        fun x hx => (((hnamed.met hspan x hx).later t'.steps).earlier t.steps).mono hmiddle
      simp only [List.append_assoc, List.mem_append, List.mem_cons] at hx
      rcases hx with hx | hfront | htable | hx
      · exact ((ih x hx).later (hnamed.steps.trans t'.steps)).mono (by simp)
      · exact hname x (by simp [hfront])
      · exact hname x (by simp [htable])
      · exact (((ih' x hx).earlier hnamed.steps).earlier t.steps).mono hlater
  | @nested s r r' log log' h e e' c q t hselect hc t' _ _ _ ih ih' =>
      intro x hx
      have hone := Steps.single (Token.isEnd_of_isKeyword hselect) hc
      rcases List.mem_append.1 hx with hx | hx
      · exact ((ih x hx).later (hone.trans t'.steps)).mono (List.subset_append_left _ _)
      · rcases List.mem_cons.1 hx with rfl | hx
        · refine (Entry.met_last t.steps hc rfl ?_).later t'.steps
          rw [Entry.Told, Token.isName, Token.isKeyword_iff.1 hselect]
          rfl
        · refine ((ih' x hx).earlier hone).earlier t.steps |>.mono ?_
          exact fun y hy => List.mem_append_right _ (List.mem_cons_of_mem _ hy)
  | attach _ _ ih => exact ih
  | keep _ _ _ ih => exact ih
  | drop _ _ _ ih => exact ih
  | settle _ _ ih => exact ih
  | level _ _ ih => exact ih
  | perm _ _ ih => exact ih

/-! ## Passages -/

/-- `a` lies in `b`. -/
def Span.Within (a b : Span) : Prop := b.start ≤ a.start ∧ a.stop ≤ b.stop

instance (a b : Span) : Decidable (a.Within b) :=
  inferInstanceAs (Decidable (_ ∧ _))

/-- On the way from `c` to `c'`, the tokens passed over are those in the passages
`ps`. -/
structure Surveyed (c : Cursor) (log : List Entry) (c' : Cursor) (ps : List Passage) : Prop where
  within : ∀ p ∈ ps, c.current.span.start ≤ p.span.start ∧ p.span.stop ≤ c'.lastEnd
  passed_iff : ∀ x ∈ log, x.fate = .passed ↔ ∃ p ∈ ps, x.token.span.Within p.span
  /-- Only the passages of hints can hold a `?`. -/
  isPlain : ∀ p ∈ ps, p.kind ≠ .hint → ∀ x ∈ log, x.token.span.Within p.span →
    x.token.kind.isPlain = true

namespace Surveyed

variable {c c₁ c' : Cursor} {log log' : List Entry} {ps ps' : List Passage}

theorem nil (hlog : ∀ x ∈ log, x.fate ≠ .passed) : Surveyed c log c' [] where
  within := by simp
  passed_iff x hx := by simp [hlog x hx]
  isPlain := by simp

theorem trans (hsteps : Steps c (log.map Entry.token) c₁)
    (hsteps' : Steps c₁ (log'.map Entry.token) c') (ho : c.Orderly)
    (h : Surveyed c log c₁ ps) (h' : Surveyed c₁ log' c' ps') :
    Surveyed c (log ++ log') c' (ps' ++ ps) := by
  have ho₁ := hsteps.orderly ho
  have hbehind := ho₁.behind
  -- A passage of one half holds no token of the other half.
  have hfirst : ∀ x ∈ log, ∀ p ∈ ps' ++ ps, x.token.span.Within p.span → p ∈ ps := by
    intro x hx p hp hin
    have hstop := hsteps.stop_le ho (List.mem_map_of_mem hx)
    have hwide := hsteps.start_lt_stop ho (List.mem_map_of_mem hx)
    rcases List.mem_append.1 hp with hp | hp
    · have := h'.within p hp
      have := hin.1
      omega
    · exact hp
  have hsecond : ∀ x ∈ log', ∀ p ∈ ps' ++ ps, x.token.span.Within p.span → p ∈ ps' := by
    intro x hx p hp hin
    have hstart := hsteps'.start_le ho₁ (List.mem_map_of_mem hx)
    have hwide := hsteps'.start_lt_stop ho₁ (List.mem_map_of_mem hx)
    rcases List.mem_append.1 hp with hp | hp
    · exact hp
    · have := h.within p hp
      have := hin.2
      omega
  refine ⟨fun p hp => ?_, fun x hx => ?_, fun p hp hkind x hx hin => ?_⟩
  · have hcurrent := hsteps.current_le ho
    have hlast := hsteps'.lastEnd_le ho₁
    rcases List.mem_append.1 hp with hp | hp
    · have := h'.within p hp
      omega
    · have := h.within p hp
      omega
  · rcases List.mem_append.1 hx with hx | hx
    · rw [h.passed_iff x hx]
      constructor
      · rintro ⟨p, hp, hin⟩
        exact ⟨p, List.mem_append_right _ hp, hin⟩
      · rintro ⟨p, hp, hin⟩
        exact ⟨p, hfirst x hx p hp hin, hin⟩
    · rw [h'.passed_iff x hx]
      constructor
      · rintro ⟨p, hp, hin⟩
        exact ⟨p, List.mem_append_left _ hp, hin⟩
      · rintro ⟨p, hp, hin⟩
        exact ⟨p, hsecond x hx p hp hin, hin⟩
  · rcases List.mem_append.1 hx with hx | hx
    · exact h.isPlain p (hfirst x hx p hp hin) hkind x hx hin
    · exact h'.isPlain p (hsecond x hx p hp hin) hkind x hx hin

/-- A stretch that is passed over as a whole. -/
theorem passage {ts : List Token} (hsteps : Steps c ts c') (ho : c.Orderly)
    (hplain : c.current.kind.isPlain = true) {kind : Passage.Kind}
    (hone : kind ≠ .hint → ts = [c.current]) :
    Surveyed c (ts.map (⟨·, .passed⟩)) c' [⟨kind, ⟨c.current.span.start, c'.lastEnd⟩⟩] := by
  refine ⟨?_, fun x hx => ?_, fun p hp hkind x hx _ => ?_⟩
  · simp
  · obtain ⟨token, htoken, rfl⟩ := List.mem_map.1 hx
    refine ⟨fun _ => ⟨_, List.mem_singleton_self _, ?_, ?_⟩, fun _ => rfl⟩
    · exact hsteps.start_le ho htoken
    · exact hsteps.stop_le ho htoken
  · rw [List.mem_singleton.1 hp] at hkind
    rw [hone hkind] at hx
    rw [List.mem_singleton.1 hx]
    exact hplain

end Surveyed

theorem Named.fate_front {c c' : Cursor} {schema : Option String} {front : List Entry}
    {token : Token} (h : Named c schema front token c') :
    ∀ x ∈ front, x.fate = .schema ∨ x.fate = .plain := by
  cases h <;> simp

/-- The tokens that were passed over are those in the passages of the trail. -/
theorem Trail.surveyed {env : Setting} {s r : Reading} {log : List Entry} {h : List Part}
    {e : Edge} (t : Trail env s log h e r) (ho : s.cursor.Orderly) :
    ∃ ps, r.passages = ps ++ s.passages ∧ Surveyed s.cursor log r.cursor ps := by
  -- One more token that is not passed over.
  have hsnoc : ∀ {c c₁ c₂ : Cursor} {log : List Entry} {x : Entry} {ps : List Passage},
      Steps c (log.map Entry.token) c₁ → c.Orderly → Surveyed c log c₁ ps →
      Steps c₁ [x.token] c₂ → x.fate ≠ .passed → Surveyed c (log ++ [x]) c₂ ps := by
    intro c c₁ c₂ log x ps hsteps ho hlog hnext hfate
    have hlast : Steps c₁ ([x].map Entry.token) c₂ := hnext
    exact hlog.trans hsteps hlast ho (.nil (by simpa using hfate))
  induction t with
  | start s => exact ⟨[], rfl, .nil (by simp)⟩
  | pass t hplain hc _ ih =>
      obtain ⟨ps, hps, hlog⟩ := ih ho
      exact ⟨ps, hps, hsnoc t.steps ho hlog (.single (Token.isEnd_of_isPlain hplain) hc) (by simp)⟩
  | slip t hname hc _ ih | owner t hname _ hc _ ih =>
      obtain ⟨ps, hps, hlog⟩ := ih ho
      exact ⟨ps, hps, hsnoc t.steps ho hlog (.single (Token.isEnd_of_isName hname) hc) (by simp)⟩
  | dot t _ hmark hc ih | count t hmark hc ih =>
      obtain ⟨ps, hps, hlog⟩ := ih ho
      exact ⟨ps, hps, hsnoc t.steps ho hlog (.single (Token.isEnd_of_isSymbol hmark) hc) (by simp)⟩
  | passage kind t hplain _ hsteps hone ih =>
      obtain ⟨ps, hps, hlog⟩ := ih ho
      refine ⟨_ :: ps, congrArg _ hps, ?_⟩
      refine hlog.trans t.steps ?_ ho (.passage hsteps (t.steps.orderly ho) hplain hone)
      rw [Entry.map_token_passed]
      exact hsteps
  | @table s r r' log front log' h e e' c tbl token t hnamed t' _ _ _ ih ih' =>
      have ho₁ := t.steps.orderly ho
      obtain ⟨ps, hps, hlog⟩ := ih ho
      obtain ⟨ps', hps', hlog'⟩ := ih' (hnamed.steps.orderly ho₁)
      have hname : Surveyed r.cursor (front ++ [⟨token, .table tbl⟩]) c [] := by
        refine .nil fun x hx => ?_
        rcases List.mem_append.1 hx with hx | hx
        · rcases hnamed.fate_front x hx with hfate | hfate <;> simp [hfate]
        · simp [List.mem_singleton.1 hx]
      have hsteps : Steps r.cursor (List.map Entry.token (front ++ [⟨token, .table tbl⟩])) c := by
        simpa using hnamed.steps
      have hrest := hsteps.trans t'.steps
      rw [← List.map_append] at hrest
      have hall := hlog.trans t.steps hrest ho (hname.trans hsteps t'.steps ho₁ hlog')
      refine ⟨ps' ++ ps, ?_, ?_⟩
      · rw [Reading.declaring_passages, hps', Reading.moved_passages, hps, List.append_assoc]
      · rw [Reading.declaring_cursor]
        simpa using hall
  | @nested s r r' log log' h e e' c q t hselect hc t' _ _ _ ih ih' =>
      have hone := Steps.single (Token.isEnd_of_isKeyword hselect) hc
      obtain ⟨ps, hps, hlog⟩ := ih ho
      obtain ⟨ps', hps', hlog'⟩ := ih' (hone.orderly (t.steps.orderly ho))
      have hfirst := hsnoc (x := ⟨r.cursor.current, .plain⟩) t.steps ho hlog hone (by simp)
      refine ⟨ps' ++ ps, ?_, ?_⟩
      · rw [Reading.leave_passages, hps', Reading.moved_passages, Reading.enter_passages, hps,
          List.append_assoc]
      · have hall := hfirst.trans (by simpa using t.steps.trans hone) t'.steps ho hlog'
        simpa using hall
  | attach _ _ ih => exact ih ho
  | keep _ _ _ ih => exact ih ho
  | drop _ _ _ ih => exact ih ho
  | settle _ _ ih => exact ih ho
  | level _ _ ih => exact ih ho
  | perm _ _ ih => exact ih ho

/-! ## Table references -/

/-- Every table reference of a statement and of the queries in it. -/
def Statement.references (st : Statement) : List Table :=
  Part.tables st.parts ++ st.nested.flatMap fun q => Part.tables q.parts

/-- The table references read so far with `h` in hand. -/
def Reading.references (r : Reading) (h : List Part) : List Table :=
  Part.tables h ++ (r.queries h).flatMap fun q => Part.tables q.parts

theorem Reading.mem_references {r : Reading} {h : List Part} {tbl : Table} :
    tbl ∈ r.references h ↔
      tbl ∈ Part.tables h ∨ ∃ q ∈ r.queries h, tbl ∈ Part.tables q.parts := by
  rw [references, List.mem_append, List.mem_flatMap]

/-- The table references of the tree are those of the log. -/
theorem Trail.mem_references_iff {env : Setting} {s r : Reading} {log : List Entry} {h : List Part}
    {e : Edge} (t : Trail env s log h e r) (tbl : Table) :
    tbl ∈ r.references h ↔ tbl ∈ s.references [] ∨ ∃ token, ⟨token, .table tbl⟩ ∈ log := by
  induction t with
  | start s => simp
  | pass _ _ _ _ ih | slip _ _ _ _ ih | dot _ _ _ _ ih | owner _ _ _ _ _ ih =>
      refine Iff.trans ?_ (ih.trans ?_)
      · exact Iff.rfl
      · simp
  | count _ _ _ ih =>
      refine Iff.trans ?_ (ih.trans ?_)
      · rw [Reading.references, Reading.queries_append rfl, Part.tables_append]
        simp [Reading.references, Reading.queries, Reading.counted]
      · simp
  | passage kind _ _ _ _ _ ih =>
      refine Iff.trans ?_ (ih.trans ?_)
      · exact Iff.rfl
      · simp
  | @table s r r' log front log' h e e' c tbl' token t hnamed t' hdraft _ _ ih ih' =>
      have hfront : ∀ token', (⟨token', .table tbl⟩ : Entry) ∉ front := by
        intro token' hmem
        rcases hnamed.fate_front _ hmem with hfate | hfate <;> cases hfate
      have hqueries : (r'.declaring env tbl' token).queries (h ++ [.table tbl']) = r.queries h := by
        rw [Reading.queries_append rfl, Reading.queries_congr (r := r) (by simp [hdraft])]
      -- What is read behind the name adds no reference, since the draft stays as it was.
      have hbehind : (∃ token', (⟨token', .table tbl⟩ : Entry) ∈ log') → tbl ∈ r.references h := by
        intro hlog'
        have hmem := ih'.2 (.inr hlog')
        rw [Reading.mem_references, Reading.queries_congr (r := r) (by rw [hdraft])] at hmem
        rw [Reading.mem_references]
        rcases hmem with hmem | ⟨q, hq, hmem⟩
        · cases hmem
        · refine .inr ⟨q, ?_, hmem⟩
          rw [Reading.queries, Query.nestedIn_append, List.mem_append]
          exact .inr hq
      have hnew : tbl ∈ (r'.declaring env tbl' token).references (h ++ [.table tbl']) ↔
          tbl ∈ r.references h ∨ tbl = tbl' := by
        rw [Reading.mem_references, hqueries, Reading.mem_references, Part.tables_append]
        simp only [Part.tables_cons_table, Part.tables_nil, List.mem_append, List.mem_singleton]
        grind
      rw [hnew]
      simp only [List.mem_append, List.mem_cons, Entry.mk.injEq, Fate.table.injEq, hfront,
        or_false]
      grind
  | @nested s r r' log log' h e e' c q t hselect hc t' he hscope hspan ih ih' =>
      have hfresh : tbl ∉ (r.enter.moved c).references [] := by
        intro hmem
        cases hmem
      have hnew : tbl ∈ (r.leave r' q).references (h ++ [.query q]) ↔
          tbl ∈ r.references h ∨ tbl ∈ r'.references q.parts := by
        simp only [Reading.mem_references, Reading.mem_queries_leave hscope, Part.tables_append,
          Part.tables_cons_query, Part.tables_nil, List.append_nil]
        grind
      rw [hnew, ih, ih']
      simp only [List.mem_append, List.mem_cons, Entry.mk.injEq, reduceCtorEq, and_false, false_or,
        hfresh]
      grind
  | attach _ _ ih =>
      refine Iff.trans ?_ ih
      simp only [Reading.mem_references, Reading.mem_queries_attaching, Part.tables_append,
        Part.tables_cons_query, Part.tables_nil, List.append_nil]
  | keep _ _ _ ih =>
      refine Iff.trans ?_ ih
      rw [Reading.references, Reading.queries_append rfl, Part.tables_append]
      simp [Reading.references]
  | drop x _ _ ih =>
      refine Iff.trans ?_ ih
      rw [Reading.mem_references, Reading.mem_references, Expr.queries_dropped, Part.tables_append,
        Expr.tables_parts, List.append_nil]
  | settle _ _ ih => exact ih
  | level _ _ ih => exact ih
  | perm _ hp ih =>
      refine Iff.trans ?_ ih
      simp only [Reading.mem_references, Reading.mem_queries_perm hp]
      rw [Part.tables, Part.tables, (hp.filterMap _).mem_iff]

/-- The name of a table with a schema follows the schema and a `.`. -/
theorem Trail.schema_before {env : Setting} {s r : Reading} {log : List Entry} {h : List Part}
    {e : Edge} (t : Trail env s log h e r) {token : Token} {tbl : Table}
    (hx : ⟨token, .table tbl⟩ ∈ log) (hschema : tbl.schema.isSome = true) :
    ∃ a b, [⟨a, .schema⟩, ⟨b, .plain⟩, ⟨token, .table tbl⟩] <:+: log := by
  -- The stretch stays where it is when the log grows at either end.
  have hlater : ∀ {log log' : List Entry},
      (∃ a b, [⟨a, .schema⟩, ⟨b, .plain⟩, ⟨token, .table tbl⟩] <:+: log) →
      ∃ a b, [⟨a, .schema⟩, ⟨b, .plain⟩, ⟨token, .table tbl⟩] <:+: log ++ log' :=
    fun ⟨a, b, hinfix⟩ => ⟨a, b, hinfix.trans (List.prefix_append _ _).isInfix⟩
  have hearlier : ∀ {log log' : List Entry},
      (∃ a b, [⟨a, .schema⟩, ⟨b, .plain⟩, ⟨token, .table tbl⟩] <:+: log') →
      ∃ a b, [⟨a, .schema⟩, ⟨b, .plain⟩, ⟨token, .table tbl⟩] <:+: log ++ log' :=
    fun ⟨a, b, hinfix⟩ => ⟨a, b, hinfix.trans (List.suffix_append _ _).isInfix⟩
  induction t with
  | start s => cases hx
  | pass _ _ _ _ ih | slip _ _ _ _ ih | dot _ _ _ _ ih | count _ _ _ ih | owner _ _ _ _ _ ih =>
      refine hlater (ih ?_)
      simpa using hx
  | passage kind _ _ _ _ _ ih =>
      refine hlater (ih ?_)
      simpa using hx
  | @table s r r' log front log' h e e' c tbl' token' t hnamed t' _ _ _ ih ih' =>
      simp only [List.append_assoc, List.mem_append, List.mem_cons] at hx
      rcases hx with hx | hx | hx | hx
      · rw [List.append_assoc]
        exact hlater (ih hx)
      · rcases hnamed.fate_front _ hx with hfate | hfate <;> cases hfate
      · obtain ⟨rfl, rfl⟩ : token = token' ∧ tbl = tbl' := by simpa using hx
        rw [List.append_cons, List.append_assoc log]
        refine hlater (hearlier ?_)
        generalize tbl.schema = schema at hschema hnamed
        cases hnamed with
        | alone => cases hschema
        | qualified => exact ⟨_, _, List.infix_rfl⟩
      · rw [List.append_cons]
        exact hearlier (ih' hx)
  | nested _ _ _ _ _ _ _ ih ih' =>
      simp only [List.mem_append, List.mem_cons, Entry.mk.injEq, reduceCtorEq, and_false,
        false_or] at hx
      rcases hx with hx | hx
      · exact hlater (ih hx)
      · rw [List.append_cons]
        exact hearlier (ih' hx)
  | attach _ _ ih => exact ih hx
  | keep _ _ _ ih => exact ih hx
  | drop _ _ _ ih => exact ih hx
  | settle _ _ ih => exact ih hx
  | level _ _ ih => exact ih hx
  | perm _ _ ih => exact ih hx

/-! ## Whole statements -/

namespace Record

variable {env : Setting} {st : Statement} {c : Cursor} {log : List Entry} {r : Reading}

/-- No two entries start at the same place. -/
theorem entry_eq (hrec : Record env st c log r) {x y : Entry} (hx : x ∈ log) (hy : y ∈ log)
    (hstart : x.token.span.start = y.token.span.start) : x = y := by
  have hpair := hrec.steps.pairwise_start hrec.orderly
  rw [List.map_map] at hpair
  exact List.inj_on_of_nodup_map (hpair.imp Nat.ne_of_lt) hx hy hstart

/-- What follows an entry in the text. -/
theorem told (hrec : Record env st c log r) {x : Entry} (hx : x ∈ log) {before after : List Token}
    (htokens : (TokenStream.ofText env.dialect env.source).tokens = before ++ x.token :: after) :
    ∃ c', c'.Orderly ∧ c'.rest = after ∧ x.Told log c' := by
  obtain ⟨e, t⟩ := hrec.trail
  obtain ⟨ts, c₁, c₂, us, hts, hcurrent, hnext, hus, htold⟩ := (t.met x hx).met
  have hend : c₁.current.isEnd = false := by
    rw [hcurrent]
    exact hrec.steps.isEnd_eq (List.mem_map_of_mem hx)
  have ho₁ := hts.orderly hrec.orderly
  refine ⟨c₂, ho₁.next hend hnext, ?_, htold⟩
  have hrest : (TokenStream.ofText env.dialect env.source).tokens = ts ++ x.token :: c₂.rest := by
    rw [(Cursor.orderly_ofText hrec.first).2.1, ← hcurrent,
      ← (Cursor.next_yields ho₁ hend hnext).1]
    exact hts.rest_eq hrec.orderly
  -- The token stands at one place of the text only.
  have happart := hrec.orderly.apart
  rw [← (Cursor.orderly_ofText hrec.first).2.1, hrest, List.pairwise_append,
    List.pairwise_cons] at happart
  have hwide := hrec.steps.start_lt_stop hrec.orderly (List.mem_map_of_mem hx)
  have hbefore : x.token ∉ ts := by
    intro hmem
    have := happart.2.2 x.token hmem x.token List.mem_cons_self
    omega
  have hafter : x.token ∉ c₂.rest := by
    intro hmem
    have := happart.2.1.1 x.token hmem
    omega
  exact ((List.append_cons_inj_of_notMem hbefore hafter).1 (hrest.symm.trans htokens)).2.2

theorem surveyed (hrec : Record env st c log r) : Surveyed c log r.cursor r.passages := by
  obtain ⟨e, t⟩ := hrec.trail
  obtain ⟨ps, hps, hsurveyed⟩ := t.surveyed hrec.orderly
  have hall : r.passages = ps := by
    rw [hps]
    exact List.append_nil ps
  rw [hall]
  exact hsurveyed

/-- The tokens that were passed over are those in the passages. -/
theorem passed_iff (hrec : Record env st c log r) {x : Entry} (hx : x ∈ log) :
    x.fate = .passed ↔ ∃ p ∈ r.passages, x.token.span.Within p.span :=
  hrec.surveyed.passed_iff x hx

/-- The table references of a statement are those of its log. -/
theorem mem_references_iff (hrec : Record env st c log r) {tbl : Table} :
    tbl ∈ st.references ↔ ∃ token, ⟨token, .table tbl⟩ ∈ log := by
  obtain ⟨e, t⟩ := hrec.trail
  have hfresh : tbl ∉ (Reading.start c).references [] := by
    intro hmem
    cases hmem
  rw [Statement.references, hrec.nested_eq]
  exact (t.mem_references_iff tbl).trans (by simp [hfresh])

/-- A table reference stands at its token. -/
theorem span_of_table (hrec : Record env st c log r) {token : Token} {tbl : Table}
    (hx : ⟨token, .table tbl⟩ ∈ log) : tbl.span = token.span := by
  obtain ⟨e, t⟩ := hrec.trail
  obtain ⟨_, _, _, _, -, -, -, -, htold⟩ := (t.met _ hx).met
  exact htold

end Record

end SqlMarkers
