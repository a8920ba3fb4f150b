/-
SqlMarkers.Proofs.Depth — how deep a reader can be.

Every reader that goes one level deeper is back on its level when it ends, with a result
or with a fault (`Reader.Balanced`). This alone does not bound the level: a run that started
above the limit would stay above it.

`Setting.Reaches` are the readings that a run comes to: the one a statement is read from,
those from which a reader calls a nested one, and those from which a nested reader starts on
what it has to read. Both kinds of calls are told by their effect. A reader calls a nested
one from `r'` if another nested reader, which differs from `r'` only, would make it do
something else (`Inner.Asks`); `Reader.nested` starts on its body from `r'` if another body
would make a difference there (`Reader.Enters`).

A reader does the same over towers that do the same on its own level (`Setting.eq_of_level`),
so it calls nested readers on its own level only. They start one level deeper, and only
below the limit. As a run starts on level zero, none of its readings is above the limit
(`Setting.Reaches.depth_le`).
-/
import SqlMarkers.Proofs.Skipping

namespace SqlMarkers

variable {env : Setting} {α : Type} {r r' : Reading} {n : Nat}

/-! ## Levels in balance -/

/-- A reader that is back on its level when it ends, with a result or with a fault. -/
def Reader.Balanced (m : Reader α) : Prop := ∀ r, (m.after r).nesting.depth = r.nesting.depth

/-- A reader that does not leave a reading above the limit, if it started from `r`. -/
def Reader.KeepsWithin (env : Setting) (r : Reading) {α : Type} (m : Reader α) : Prop :=
  (m.after r).nesting.depth ≤ env.limit

/-- The readers that go one level deeper, over nested readers `inner`, have a property: the
one of a nested query, and those that read a negation, a group of conditions, sources in
parentheses and the operand of an `INTERVAL`. -/
structure Inner.Nesters (env : Setting) (inner : Inner)
    (P : ∀ {α : Type}, Reader α → Prop) : Prop where
  query : P inner.embed
  negation : P (Reader.predicate env inner)
  group : P (Reader.attemptGroup env inner)
  sources : P (Reader.tableFactor env inner)
  interval : P (Reader.operand inner)

theorem Inner.Nesters.imp {inner : Inner} {P Q : ∀ {α : Type}, Reader α → Prop}
    (h : inner.Nesters env P) (hPQ : ∀ {α : Type} (m : Reader α), P m → Q m) :
    inner.Nesters env Q :=
  ⟨hPQ _ h.query, hPQ _ h.negation, hPQ _ h.group, hPQ _ h.sources, hPQ _ h.interval⟩

theorem Reader.Capped.depth_after {cap : Cap} {room : Nat} {P : α → Prop} {m m' : Reader α}
    (h : Reader.Capped cap room P m m') (hr : cap.Admits room r) :
    (m.after r).nesting.depth = r.nesting.depth := by
  have hcap := h r hr
  unfold Reader.after
  revert hcap
  generalize m r = x
  generalize m' r = x'
  intro hcap
  cases hcap with
  | ok _ _ hnesting => exact congrArg Nesting.depth hnesting
  | fault _ hnesting => exact congrArg Nesting.depth hnesting
  | refused hnesting _ => exact (congrArg Nesting.depth hnesting).trans rfl

/-- Readers over a tower of nested readers are in balance if they keep to the limit. -/
theorem Inner.balanced_of_capped {P : α → Prop} {m : Reader α}
    (h : ∀ room, (Inner.upTo env n).Capped (.below env.limit) n room (Inner.upTo env n) →
      Reader.Capped (.below env.limit) room P m m) : m.Balanced := by
  intro r
  obtain ⟨room, hr, hin⟩ := Inner.capped_upTo env n r
  exact (h room hin).depth_after hr

theorem Inner.balanced_upTo (env : Setting) (n : Nat) :
    (Inner.upTo env n).Nesters env Reader.Balanced where
  query := Inner.balanced_of_capped fun _ hin => hin.embed
  negation := Inner.balanced_of_capped fun _ hin => Reader.predicate_capped hin
  group := Inner.balanced_of_capped fun _ hin => Reader.attemptGroup_capped hin
  sources := Inner.balanced_of_capped fun _ hin => Reader.tableFactor_capped hin
  interval := Inner.balanced_of_capped fun _ hin => Reader.operand_capped hin

/-- A group that is given up leaves the reading as it was. -/
theorem Reader.eq_of_attemptGroup
    (h : Reader.attemptGroup env (Inner.upTo env n) r = .ok none r') : r' = r := by
  obtain ⟨room, hr, hin⟩ := Inner.capped_upTo env n r
  have hcap : Capping (.below env.limit) room _ r.nesting
      (Reader.attemptGroup env (Inner.upTo env n) r) (Reader.attemptGroup env (Inner.upTo env n) r) :=
    Reader.attemptGroup_capped hin r hr
  rcases Reader.attemptGroup_yields h with ⟨cs, hcs, -⟩ | ⟨-, level, rfl⟩
  · cases hcs
  · rw [h] at hcap
    cases hcap with
    | ok _ _ hnesting =>
        obtain rfl : level = r.nesting := hnesting
        rfl

/-! ## The readings of a run -/

/-- The readers that are made of readers nested in them. -/
inductive Setting.Grammar (env : Setting) : {α : Type} → (Inner → Reader α) → Prop
  | statement : env.Grammar (Reader.wholeStatement env)
  | query : env.Grammar (Reader.query env)
  | operand : env.Grammar Reader.operand
  | predicate : env.Grammar (Reader.predicate env)
  | group : env.Grammar (Reader.group env)
  | sources : env.Grammar (Reader.tableSources env)

/-- Two towers whose readers do the same, except that they may differ from `r'`. -/
structure Inner.SameOff (r' : Reading) (inner inner' : Inner) : Prop where
  query : ∀ s, s ≠ r' → inner'.query s = inner.query s
  operand : ∀ s, s ≠ r' → inner'.operand s = inner.operand s
  predicate : ∀ s, s ≠ r' → inner'.predicate s = inner.predicate s
  group : ∀ s, s ≠ r' → inner'.group s = inner.group s
  sources : ∀ s, s ≠ r' → inner'.sources s = inner.sources s

/-- From `r` the reader `F`, over `inner`, calls a nested reader from `r'`: what the nested
readers do there makes a difference. -/
def Inner.Asks (inner : Inner) (F : Inner → Reader α) (r r' : Reading) : Prop :=
  ∃ inner', inner.SameOff r' inner' ∧ F inner' r ≠ F inner r

/-- A nested reader that is called from `r` starts on what is nested from `r'`: what that
does there makes a difference. -/
def Reader.Enters (env : Setting) (r r' : Reading) : Prop :=
  ∃ body body' : Reader Unit, (∀ s, s ≠ r' → body' s = body s) ∧
    Reader.nested env body' r ≠ Reader.nested env body r

/-- A run of the statement comes to the reading `r`, where readers may nest `n` levels
deeper. -/
inductive Setting.Reaches (env : Setting) : Nat → Reading → Prop
  /-- The statement is read from the start of its text. -/
  | start {c : Cursor} (text : Cursor.ofText env.dialect env.source = .ok c) :
      env.Reaches env.limit (.start c)
  /-- A reader calls a nested one. -/
  | call {n : Nat} {r r' : Reading} {α : Type} {F : Inner → Reader α} (before : env.Reaches n r)
      (reader : env.Grammar F) (asks : (Inner.upTo env n).Asks F r r') : env.Reaches n r'
  /-- A nested reader starts on what is nested. -/
  | enter {n : Nat} {r r' : Reading} (before : env.Reaches (n + 1) r)
      (enters : Reader.Enters env r r') : env.Reaches n r'

/-! ### Calls on one level -/

/-- What is nested is read one level deeper, and only below the limit. -/
theorem Reader.enters_iff :
    Reader.Enters env r r' ↔ r.nesting.depth < env.limit ∧ r' = r.deeper := by
  constructor
  · rintro ⟨body, body', hsame, hne⟩
    have hbelow : ¬env.limit ≤ r.nesting.depth := by
      intro hlimit
      simp only [nested, if_pos hlimit] at hne
      exact hne rfl
    refine ⟨by omega, ?_⟩
    by_contra hother
    simp only [nested, if_neg hbelow, hsame _ (Ne.symm hother)] at hne
    exact hne rfl
  · rintro ⟨hbelow, rfl⟩
    classical
    refine ⟨fun s => .ok () s, fun s => if s = r.deeper then .error .stalled s else .ok () s, ?_, ?_⟩
    · exact fun s hs => if_neg hs
    · have hnot : ¬env.limit ≤ r.nesting.depth := by omega
      simp [nested, hnot]

/-- What is nested is never read above the limit. -/
theorem Reader.Enters.depth_le (h : Reader.Enters env r r') : r'.nesting.depth ≤ env.limit := by
  obtain ⟨hbelow, rfl⟩ := Reader.enters_iff.1 h
  exact hbelow

/-- The readers of the grammar can be compared over towers that can be compared. -/
theorem Setting.Grammar.capped {F : Inner → Reader α} (h : env.Grammar F) {cap : Cap} {room : Nat}
    {inner inner' : Inner} (hin : inner.Capped cap room room inner') :
    ∃ P, Reader.Capped cap room P (F inner) (F inner') := by
  cases h with
  | statement => exact ⟨_, Reader.wholeStatement_capped hin⟩
  | query => exact ⟨_, Reader.query_capped hin⟩
  | operand => exact ⟨_, Reader.operand_capped hin⟩
  | predicate => exact ⟨_, Reader.predicate_capped hin⟩
  | group => exact ⟨_, Reader.group_capped hin⟩
  | sources => exact ⟨_, Reader.tableSources_capped hin⟩

/-- A tower can be compared with one that does the same on a level, as with itself. -/
theorem Inner.Capped.of_level {inner inner' : Inner} {depth room : Nat}
    (h : inner.Capped (.same env.limit depth) room room inner) {r' : Reading}
    (hsame : inner.SameOff r' inner') (hother : r'.nesting.depth ≠ depth) :
    inner.Capped (.same env.limit depth) room room inner' := by
  have hoff : ∀ s : Reading, s.nesting.depth = depth → s ≠ r' := by
    rintro s hs rfl
    exact hother hs
  refine ⟨h.le_room, fun s hs => ?_, fun s hs => ?_, fun s hs => ?_, fun s hs => ?_, fun s hs => ?_⟩
  · have hembed : inner'.embed s = inner.embed s := by
      have hquery := hsame.query { s with draft := Draft.startingAt s.draft.parameters }
        (hoff _ hs.level)
      rw [Inner.embed, hquery, Inner.embed]
    rw [hembed]
    exact h.embed s hs
  · rw [hsame.operand s (hoff s hs.level)]
    exact h.operand s hs
  · rw [hsame.predicate s (hoff s hs.level)]
    exact h.predicate s hs
  · rw [hsame.group s (hoff s hs.level)]
    exact h.group s hs
  · rw [hsame.sources s (hoff s hs.level)]
    exact h.sources s hs

/-- A reader does the same over a tower that differs on another level only. -/
theorem Setting.eq_of_level {F : Inner → Reader α} (hF : env.Grammar F)
    (hlevel : env.limit ≤ r.nesting.depth + n) {inner' : Inner}
    (hsame : (Inner.upTo env n).SameOff r' inner') (hother : r'.nesting.depth ≠ r.nesting.depth) :
    F inner' r = F (Inner.upTo env n) r := by
  have hdown := Inner.Unrolls.upTo hlevel
  obtain ⟨least, hleast⟩ := hdown.capped hdown
  let room := max least (Query.heightIn r.draft.subqueries)
  have hin := hleast room (Nat.le_max_left _ _) room (Nat.le_refl _)
  obtain ⟨P, hcap⟩ := hF.capped (hin.of_level hsame hother)
  exact (hcap r ⟨rfl, Nat.le_max_right _ _⟩).eq.symm

/-- Nested readers are called on the level of the reader that calls them. -/
theorem Inner.Asks.level {F : Inner → Reader α} (h : (Inner.upTo env n).Asks F r r')
    (hF : env.Grammar F) (hlevel : env.limit ≤ r.nesting.depth + n) :
    r'.nesting.depth = r.nesting.depth := by
  obtain ⟨inner', hsame, hne⟩ := h
  by_contra hother
  exact hne (Setting.eq_of_level hF hlevel hsame hother)

/-- The levels a run is on and those that it may still nest make up the limit. -/
theorem Setting.Reaches.depth_add (h : env.Reaches n r) : r.nesting.depth + n = env.limit := by
  induction h with
  | start _ => exact Nat.zero_add _
  | call _ hF hasks ih => rw [hasks.level hF (Nat.le_of_eq ih.symm), ih]
  | enter _ henters ih =>
      obtain ⟨-, rfl⟩ := Reader.enters_iff.1 henters
      show _ + 1 + _ = _
      omega

/-- No reading of a run is above the limit. -/
theorem Setting.Reaches.depth_le (h : env.Reaches n r) : r.nesting.depth ≤ env.limit := by
  have hlevels := h.depth_add
  omega

/-- A reader that fails as soon as a nested one fails from `r'` calls it from there. -/
theorem Inner.asks_of_fails {inner : Inner} {F : Inner → Reader α}
    (h : ∀ f, ∃ inner', inner.SameOff r' inner' ∧ F inner' r = .error f r') :
    inner.Asks F r r' := by
  -- One of two faults is not what the reader ends with.
  by_cases hstalled : F inner r = .error .stalled r'
  · obtain ⟨inner', hsame, hfails⟩ := h .overflow
    refine ⟨inner', hsame, ?_⟩
    rw [hfails, hstalled]
    simp
  · obtain ⟨inner', hsame, hfails⟩ := h .stalled
    exact ⟨inner', hsame, fun heq => hstalled (heq ▸ hfails)⟩

/-- The predicate behind a `NOT` is read by the nested reader. -/
theorem Inner.asks_negation (inner : Inner) (hnot : r.cursor.current.kind = .keyword .NOT)
    (hnext : Reader.next r = .ok () r') : inner.Asks (Reader.predicate env) r r' := by
  classical
  refine Inner.asks_of_fails fun f => ?_
  refine ⟨{ inner with predicate := fun s => if s = r' then .error f s else inner.predicate s },
    ⟨fun _ _ => rfl, fun _ _ => rfl, fun s hs => if_neg hs, fun _ _ => rfl, fun _ _ => rfl⟩, ?_⟩
  rw [Reader.predicate, Reader.current_bind, hnot]
  exact (Reader.bind_ok hnext).trans (Reader.bind_error (if_pos rfl))

/-- A run comes to the predicate behind a `NOT`, one level deeper, unless the limit is met. -/
theorem Setting.Reaches.negated (h : env.Reaches (n + 1) r)
    (hnot : r.cursor.current.kind = .keyword .NOT) (hnext : Reader.next r = .ok () r') :
    env.Reaches n r'.deeper := by
  have hcall := h.call .predicate (Inner.asks_negation _ hnot hnext)
  have hlevels := hcall.depth_add
  exact hcall.enter (Reader.enters_iff.2 ⟨by omega, rfl⟩)

/-! ## The bound -/

/-- Levels are in balance, and what is nested starts within the limit. So no reader on a level
that a run comes to leaves a reading above the limit. A group that is given up leaves no
trace, and no tree is higher than the limit. -/
theorem balanced_parse (config : Config) (catalogue : Catalogue) (source : String) :
    (∀ n, (Inner.upTo (config.setting catalogue source) n).Nesters
      (config.setting catalogue source) Reader.Balanced) ∧
    (∀ r r', Reader.Enters (config.setting catalogue source) r r' →
      r'.nesting.depth ≤ config.maxDepth) ∧
    (∀ n r, (config.setting catalogue source).Reaches n r →
      r.nesting.depth ≤ config.maxDepth ∧
      ∀ s, s.nesting.depth = r.nesting.depth →
        (Inner.upTo (config.setting catalogue source) n).Nesters (config.setting catalogue source)
          (Reader.KeepsWithin (config.setting catalogue source) s)) ∧
    (∀ n r r', Reader.attemptGroup (config.setting catalogue source)
      (Inner.upTo (config.setting catalogue source) n) r = .ok none r' → r' = r) ∧
    ∀ p, parse config catalogue source = .ok p → p.statement.height ≤ config.maxDepth := by
  refine ⟨Inner.balanced_upTo _, fun r r' => Reader.Enters.depth_le, fun n r hr => ?reached,
    fun n r r' => Reader.eq_of_attemptGroup, fun p hp => ?height⟩
  case reached =>
    refine ⟨hr.depth_le, fun s hs => (Inner.balanced_upTo _ n).imp fun m hm => ?_⟩
    show (m.after s).nesting.depth ≤ _
    rw [hm s, hs]
    exact hr.depth_le
  case height =>
    obtain ⟨-, -, r, hrun⟩ := parse_ok hp
    cases (config.setting catalogue source).confined (Nat.le_refl _) with
    | refused _ hrun' =>
        rw [hrun] at hrun'
        cases hrun'
    | fault _ _ hrun' _ =>
        rw [hrun] at hrun'
        cases hrun'
    | ok _ hheight hrun' _ =>
        rw [hrun] at hrun'
        cases hrun'
        exact hheight

/-- A negated group around a query over a source in parentheses just fits under a limit
of 4. -/
theorem balanced_negation : ∃ p,
    parse { maxDepth := 4 } Catalogue.everyName
        "SELECT a FROM t WHERE NOT (a IN (SELECT b FROM (u)))" = .ok p ∧
      p.statement.height = 4 ∧ p.statement.height ≤ 4 := by
  have hparse : ∃ p, parse { maxDepth := 4 } Catalogue.everyName
      "SELECT a FROM t WHERE NOT (a IN (SELECT b FROM (u)))" = .ok p ∧ p.statement.height = 4 :=
    exists_of_any (by decide +kernel)
  obtain ⟨p, hp, hheight⟩ := hparse
  exact ⟨p, hp, hheight, (balanced_parse _ _ _).2.2.2.2 p hp⟩

end SqlMarkers
