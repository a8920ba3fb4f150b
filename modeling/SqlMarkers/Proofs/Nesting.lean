/-
SqlMarkers.Proofs.Nesting — what the nesting limit does to a reading.

`Reader.Capped cap room P m m'` compares two readers of the same thing, of which
`m'` may nest deeper than `m`. From any reading, either both do exactly the same,
or `m` is refused at the limit. In the first case the nesting of the reading is
what it was, on success and on failure alike; in the second only the note that the
limit was met is new. So the limit never changes what is read: it only stops it.
A `Cap` says which levels are compared, and whether `m'` is refused where `m` is.

The same relation, with `m'` being `m` itself, says what every reader does to the
nesting of a reading. It also carries the bound on the trees: `P` holds of the
result, and the queries that are attached to the scope are less than `room` high.

The modules `SqlMarkers.Proofs.Nesting.*` show the relation for every reader that is
built from nested readers that have it (`Inner.Capped`).
-/
import SqlMarkers.Proofs.Steps
import SqlMarkers.Reader.Statement

namespace SqlMarkers

/-! ## The height of a tree -/

mutual

/-- The height of a query: the greatest number of nested queries, negations, groups
of conditions and sources in parentheses on a way down into it. The query itself
does not count. -/
def Query.height : Query → Nat
  | ⟨_, _, sources, filter, _, having, _, _, _, _, ⟨_, _, _, subqueries⟩, _⟩ =>
      max
        (max
          (match sources with
           | some ss => TableSource.heightIn ss
           | none => 0)
          (match filter with
           | some ⟨cs, _⟩ => Condition.heightIn cs
           | none => 0))
        (max
          (match having with
           | some ⟨cs, _⟩ => Condition.heightIn cs
           | none => 0)
          (Query.heightIn subqueries))

/-- The height of nested queries, which count themselves. -/
def Query.heightIn : List Query → Nat
  | [] => 0
  | q :: qs => max (q.height + 1) (Query.heightIn qs)

/-- The height of table sources. -/
def TableSource.heightIn : List TableSource → Nat
  | [] => 0
  | ⟨factor, joins⟩ :: ss => max (max factor.height (Join.heightIn joins)) (TableSource.heightIn ss)

/-- The height of a table factor. -/
def TableFactor.height : TableFactor → Nat
  | .table _ => 0
  | .derived q _ _ => q.height + 1
  | .group ss => TableSource.heightIn ss + 1

/-- The height of joins. -/
def Join.heightIn : List Join → Nat
  | [] => 0
  | ⟨_, _, factor, on, _⟩ :: js => max (max factor.height (Condition.heightIn on)) (Join.heightIn js)

/-- The height of conditions. -/
def Condition.heightIn : List Condition → Nat
  | [] => 0
  | ⟨_, p, _⟩ :: cs => max p.height (Condition.heightIn cs)

/-- The height of a predicate. -/
def Predicate.height : Predicate → Nat
  | .inQuery _ _ q => q.height + 1
  | .existsIn _ q => q.height + 1
  | .not p => p.height + 1
  | .group cs => Condition.heightIn cs + 1
  | _ => 0

end

/-- The height of a condition clause. -/
def ConditionList.heightIn : Option ConditionList → Nat
  | some clause => Condition.heightIn clause.conditions
  | none => 0

/-- The height of the source of inserted rows. -/
def InsertSource.height : InsertSource → Nat
  | .query q => q.height + 1
  | _ => 0

/-- The height of a statement. -/
def Statement.height : Statement → Nat
  | .select q => q.height
  | .insert s => max s.source.height (Query.heightIn s.scope.subqueries)
  | .update s => max (ConditionList.heightIn s.filter) (Query.heightIn s.scope.subqueries)
  | .delete s => max (ConditionList.heightIn s.filter) (Query.heightIn s.scope.subqueries)
  | .define s => Query.heightIn s.scope.subqueries

theorem Query.heightIn_append (as bs : List Query) :
    Query.heightIn (as ++ bs) = max (Query.heightIn as) (Query.heightIn bs) := by
  induction as with
  | nil => simp [Query.heightIn]
  | cons a as ih => simp [Query.heightIn, ih, Nat.max_assoc]

theorem Condition.heightIn_append (as bs : List Condition) :
    Condition.heightIn (as ++ bs) = max (Condition.heightIn as) (Condition.heightIn bs) := by
  induction as with
  | nil => simp [Condition.heightIn]
  | cons a as ih => obtain ⟨_, p, _⟩ := a; simp [Condition.heightIn, ih, Nat.max_assoc]

theorem Join.heightIn_append (as bs : List Join) :
    Join.heightIn (as ++ bs) = max (Join.heightIn as) (Join.heightIn bs) := by
  induction as with
  | nil => simp [Join.heightIn]
  | cons a as ih => obtain ⟨_, _, f, on, _⟩ := a; simp [Join.heightIn, ih, Nat.max_assoc]

theorem TableSource.heightIn_le {n : Nat} {ss : List TableSource}
    (h : ∀ s ∈ ss, TableSource.heightIn [s] ≤ n) : TableSource.heightIn ss ≤ n := by
  induction ss with
  | nil => exact Nat.zero_le n
  | cons s ss ih =>
      obtain ⟨factor, joins⟩ := s
      have hs := h ⟨factor, joins⟩ List.mem_cons_self
      have hss := ih fun s hs => h s (List.mem_cons_of_mem _ hs)
      simp only [TableSource.heightIn] at hs ⊢
      omega

/-- The height of a query, clause by clause. -/
theorem Query.height_eq (q : Query) :
    q.height =
      max (max (TableSource.heightIn (q.sources.getD [])) (ConditionList.heightIn q.filter))
        (max (ConditionList.heightIn q.having) (Query.heightIn q.scope.subqueries)) := by
  obtain ⟨_, _, sources, filter, _, having, _, _, _, _, ⟨_, _, _, _⟩, _⟩ := q
  rcases sources with _ | ss <;> rcases filter with _ | ⟨_, _⟩ <;> rcases having with _ | ⟨_, _⟩ <;>
    rfl

/-! ## Faults at the limit -/

/-- Whether a fault says that the nesting limit is reached. -/
def Fault.isNesting : Fault → Bool
  | .grammar _ (.nesting _) => true
  | _ => false

/-- The nesting of a reading that was refused at the limit. -/
def Nesting.refused (s : Nesting) : Nesting := { s with exhausted := true }

/-- No step on a cursor meets the nesting limit. -/
def Cursor.Unnested {α : Type} (m : Cursor.Action α) : Prop :=
  ∀ c f c', m c = .error f c' → f.isNesting = false

namespace Cursor.Unnested

variable {α β : Type}

theorem pure (a : α) : Unnested (Pure.pure a) := by
  intro c f c' h
  cases h

theorem bind {m : Action α} {f : α → Action β} (h : Unnested m) (hf : ∀ a, Unnested (f a)) :
    Unnested (m >>= f) := by
  intro c e c' herror
  change EStateM.bind m f c = .error e c' at herror
  unfold EStateM.bind at herror
  split at herror
  · exact hf _ _ _ _ herror
  · rename_i hm
    cases herror
    exact h _ _ _ hm

theorem get : Unnested get := by
  intro c f c' h
  cases h

theorem next : Unnested next := by
  intro c f c' h
  unfold Cursor.next at h
  dsimp only at h
  split at h
  · cases h
  · cases h
    rfl
  · cases h

theorem peekNth (n : Nat) : Unnested (peekNth n) := by
  intro c f c' h
  unfold Cursor.peekNth lookAhead at h
  split at h
  · cases h
  · rename_i hlook
    split at hlook
    · cases hlook
    · cases hlook
      cases h
      rfl
    · cases hlook

theorem failExpected (what : String) : Unnested (failExpected what : Action α) := by
  intro c f c' h
  cases h
  rfl

theorem repeatStep {step : β → Action (Round β α)} (h : ∀ b, Unnested (step b)) (b : β) :
    Unnested (repeatStep remaining .stalled step b) := by
  have hrun : ∀ fuel b, Unnested (Round.run remaining .stalled step fuel b) := by
    intro fuel
    induction fuel with
    | zero =>
        intro b c f c' h
        cases h
        rfl
    | succ fuel ih =>
        intro b
        refine get.bind fun _ => (h b).bind fun round => ?_
        cases round with
        | again b' =>
            refine get.bind fun _ => ?_
            split
            · exact ih b'
            · exact fun _ _ _ h => by cases h; rfl
        | stop a => exact .pure a
  exact get.bind fun c => hrun _ b

theorem skipOneOf (kinds : List Kind) : Unnested (skipOneOf kinds) := by
  refine get.bind fun c => ?_
  split
  · exact next.bind fun _ => .pure true
  · exact .pure false

theorem skipWhile (kinds : List Kind) : Unnested (skipWhile kinds) := by
  refine repeatStep (fun _ => (skipOneOf kinds).bind fun found => ?_) ()
  split
  · exact .pure _
  · exact .pure _

theorem accept (kind : Kind) : Unnested (accept kind) := by
  refine get.bind fun c => ?_
  dsimp only
  split
  · exact next.bind fun _ => .pure _
  · exact failExpected _

theorem up (n : Nat) : Unnested (Counter.up n) := by
  unfold Counter.up
  split
  · exact .pure _
  · exact fun _ _ _ h => by cases h; rfl

theorem down (n : Nat) : Unnested (Counter.down n) := by
  unfold Counter.down
  split
  · exact .pure _
  · exact fun _ _ _ h => by cases h; rfl

theorem skipParentheses : Unnested skipParentheses := by
  refine (accept _).bind fun opening => repeatStep (fun state => ?_) _
  obtain ⟨depth, placeholders⟩ := state
  dsimp only
  split
  · exact get.bind fun c => .pure _
  · refine get.bind fun c => ?_
    split
    · intro c f c' h
      cases h
      rfl
    · exact (up _).bind fun _ => next.bind fun _ => .pure _
    · exact (down _).bind fun _ => next.bind fun _ => .pure _
    · exact (up _).bind fun _ => next.bind fun _ => .pure _
    · exact next.bind fun _ => .pure _

end Cursor.Unnested

/-! ## Readers that may nest less deep -/

/-- How two readers are compared. -/
structure Cap where
  /-- The limit at which the first one is refused. -/
  limit : Nat
  /-- The levels on which they are compared. -/
  onLevel : Nat → Prop
  /-- Whether the second one is refused where the first one is. -/
  together : Prop

/-- Readers are compared on every level, of which the second may nest deeper. -/
def Cap.below (limit : Nat) : Cap := ⟨limit, fun _ => True, False⟩

/-- Readers on one level that have to do the same. -/
def Cap.same (limit depth : Nat) : Cap := ⟨limit, (· = depth), True⟩

/-- The readings from which readers are compared: on a level that counts, and with
attached queries of at most this height. -/
structure Cap.Admits (cap : Cap) (room : Nat) (r : Reading) : Prop where
  level : cap.onLevel r.nesting.depth
  height : Query.heightIn r.draft.subqueries ≤ room

/-- The outcomes of two steps from a reading with the nesting `s`: the same one, or
the first step is refused at the limit. -/
inductive Capping {α : Type} (cap : Cap) (room : Nat) (P : α → Prop) (s : Nesting) :
    EStateM.Result Fault Reading α → EStateM.Result Fault Reading α → Prop
  | ok {a : α} {r : Reading} (result : P a) (admitted : cap.Admits room r)
      (nesting : r.nesting = s) : Capping cap room P s (.ok a r) (.ok a r)
  | fault {f : Fault} {r : Reading} (other : f.isNesting = false) (nesting : r.nesting = s) :
      Capping cap room P s (.error f r) (.error f r)
  | refused {offset : Nat} {r : Reading} {x : EStateM.Result Fault Reading α}
      (nesting : r.nesting = s.refused)
      (same : cap.together → x = .error (.grammar offset (.nesting cap.limit)) r) :
      Capping cap room P s (.error (.grammar offset (.nesting cap.limit)) r) x

/-- From every reading that counts the two steps do the same, or `m` is refused at the
limit. -/
def Reader.Capped {α : Type} (cap : Cap) (room : Nat) (P : α → Prop) (m m' : Reader α) : Prop :=
  ∀ r, cap.Admits room r → Capping cap room P r.nesting (m r) (m' r)

/-- A step that does not nest at all. -/
def Reader.Level {α : Type} (cap : Cap) (room : Nat) (m : Reader α) : Prop :=
  Reader.Capped cap room (fun _ => True) m m

/-- A round of a repetition that goes on with `B` or stops with `P`. -/
def Round.Holds {α β : Type} (B : β → Prop) (P : α → Prop) : Round β α → Prop
  | .again b => B b
  | .stop a => P a

/-- Nested readers of which those of `inner'` may nest deeper. What they read is less
than `n` high. -/
structure Inner.Capped (cap : Cap) (n room : Nat) (inner inner' : Inner) : Prop where
  le_room : n ≤ room
  embed : Reader.Capped cap room (fun q => q.height < n) inner.embed inner'.embed
  operand : Reader.Capped cap room (fun _ => True) inner.operand inner'.operand
  predicate : Reader.Capped cap room (fun p => p.height < n) inner.predicate inner'.predicate
  group : Reader.Capped cap room (fun cs => Condition.heightIn cs < n) inner.group inner'.group
  sources : Reader.Capped cap room (fun ss => TableSource.heightIn ss < n) inner.sources
    inner'.sources

namespace Reader

namespace Capped

variable {cap : Cap} {room : Nat} {α β : Type} {P : α → Prop} {m m' : Reader α}

theorem imp {Q : α → Prop} (h : Capped cap room P m m') (hPQ : ∀ a, P a → Q a) :
    Capped cap room Q m m' := by
  intro r hr
  have hm := h r hr
  revert hm
  generalize m r = x
  generalize m' r = x'
  rintro (⟨hresult, hadmitted, hnesting⟩ | ⟨hother, hnesting⟩ | ⟨hnesting, hsame⟩)
  · exact .ok (hPQ _ hresult) hadmitted hnesting
  · exact .fault hother hnesting
  · exact .refused hnesting hsame

theorem pure {a : α} (h : P a) : Capped cap room P (Pure.pure a) (Pure.pure a) :=
  fun _ hr => .ok h hr rfl

theorem bind {f f' : α → Reader β} {Q : β → Prop} (h : Capped cap room P m m')
    (hf : ∀ a, P a → Capped cap room Q (f a) (f' a)) :
    Capped cap room Q (m >>= f) (m' >>= f') := by
  intro r hr
  change Capping cap room Q r.nesting (EStateM.bind m f r) (EStateM.bind m' f' r)
  unfold EStateM.bind
  have hm := h r hr
  revert hm
  generalize m r = x
  generalize m' r = x'
  rintro (⟨hresult, hadmitted, hnesting⟩ | ⟨hother, hnesting⟩ | ⟨hnesting, hsame⟩)
  · rw [← hnesting]
    exact hf _ hresult _ hadmitted
  · exact .fault hother hnesting
  · refine .refused hnesting fun htogether => ?_
    rw [hsame htogether]

/-- Rounds that are capped make repetitions that are. -/
theorem repeating {step step' : β → Reader (Round β α)} (B : β → Prop)
    (hstep : ∀ b, B b → Capped cap room (Round.Holds B P) (step b) (step' b)) {b : β} (hb : B b) :
    Capped cap room P (repeating step b) (Reader.repeating step' b) := by
  have hrun : ∀ fuel b, B b →
      Capped cap room P (Round.run (fun r => r.cursor.remaining) .stalled step fuel b)
        (Round.run (fun r => r.cursor.remaining) .stalled step' fuel b) := by
    intro fuel
    induction fuel with
    | zero => exact fun _ _ _ _ => .fault rfl rfl
    | succ fuel ih =>
        intro b hb
        refine bind (P := fun _ => True) (fun _ hr => .ok trivial hr rfl) fun s _ => ?_
        refine (hstep b hb).bind fun round hround => ?_
        cases round with
        | again b' =>
            refine bind (P := fun _ => True) (fun _ hr => .ok trivial hr rfl) fun s' _ => ?_
            split
            · exact ih b' hround
            · exact fun _ _ => .fault rfl rfl
        | stop a => exact .pure hround
  exact fun r hr => hrun _ b hb r hr

end Capped

/-! ### Steps of every reader -/

section Steps

variable {cap : Cap} {room : Nat} {α β : Type}

theorem onCursor_level {action : Cursor.Action α} (h : Cursor.Unnested action) :
    Level cap room (onCursor action) := by
  intro r hr
  unfold onCursor
  split
  · exact .ok trivial ⟨hr.level, hr.height⟩ rfl
  · rename_i hfault
    exact .fault (h _ _ _ hfault) rfl

theorem get_level : Level cap room get := fun _ hr => .ok trivial hr rfl

theorem current_level : Level cap room current := fun _ hr => .ok trivial hr rfl

theorem lastEnd_level : Level cap room lastEnd := fun _ hr => .ok trivial hr rfl

theorem here_level : Level cap room here := fun _ hr => .ok trivial hr rfl

theorem next_level : Level cap room next := onCursor_level .next

theorem peekNth_level (n : Nat) : Level cap room (peekNth n) := onCursor_level (.peekNth n)

theorem peek_level : Level cap room peek := peekNth_level 1

theorem atKeyword_level (k : Keyword) : Level cap room (atKeyword k) :=
  fun _ hr => .ok trivial hr rfl

theorem atSymbol_level (s : Symbol) : Level cap room (atSymbol s) :=
  fun _ hr => .ok trivial hr rfl

theorem skipKeyword_level (k : Keyword) : Level cap room (skipKeyword k) :=
  onCursor_level (.skipOneOf _)

theorem skipAnyOf_level (ks : List Keyword) : Level cap room (skipAnyOf ks) :=
  onCursor_level (.skipOneOf _)

theorem skipSymbol_level (s : Symbol) : Level cap room (skipSymbol s) :=
  onCursor_level (.skipOneOf _)

theorem skipKeywords_level (ks : List Keyword) : Level cap room (skipKeywords ks) :=
  onCursor_level (.skipWhile _)

theorem acceptKeyword_level (k : Keyword) : Level cap room (acceptKeyword k) :=
  onCursor_level (.accept _)

theorem acceptSymbol_level (s : Symbol) : Level cap room (acceptSymbol s) :=
  onCursor_level (.accept _)

variable {P : α → Prop}

theorem failExpected_capped (what : String) :
    Capped cap room P (failExpected what) (failExpected what) := by
  intro r hr
  exact .fault rfl rfl

theorem throw_capped {f : Fault} (h : f.isNesting = false) :
    Capped cap room P (throw f) (throw f) := fun _ _ => .fault h rfl

theorem failHere_capped {cause : GrammarCause} (h : ∀ n, cause ≠ .nesting n) :
    Capped cap room P (failHere cause) (failHere cause) := by
  intro r hr
  refine .fault ?_ rfl
  cases cause with
  | nesting n => exact absurd rfl (h n)
  | _ => rfl

theorem failAt_capped {offset : Nat} {cause : GrammarCause} (h : ∀ n, cause ≠ .nesting n) :
    Capped cap room P (failAt offset cause) (failAt offset cause) := by
  refine throw_capped ?_
  cases cause with
  | nesting n => exact absurd rfl (h n)
  | _ => rfl

/-- A check that fails if something else had to come. -/
theorem failUnless_capped {c : Bool} {what : String} {k k' : Reader α}
    (hk : Capped cap room P k k') :
    Capped cap room P (if c then do failExpected (α := PUnit) what; k else k)
      (if c then do failExpected (α := PUnit) what; k' else k') := by
  split
  · exact (failExpected_capped (P := fun _ => True) what).bind fun _ _ => hk
  · exact hk

theorem recordPassage_level (kind : Passage.Kind) (span : Span) :
    Level cap room (recordPassage kind span) :=
  fun _ hr => .ok trivial ⟨hr.level, hr.height⟩ rfl

theorem passParentheses_level : Level cap room passParentheses :=
  (onCursor_level .skipParentheses).bind fun _ _ => recordPassage_level _ _

/-- Entries that are capped make lists that are. -/
theorem commaSeparated_capped {entry entry' : Reader α} (h : Capped cap room P entry entry') :
    Capped cap room (fun as => ∀ a ∈ as, P a) (commaSeparated entry) (commaSeparated entry') := by
  refine Capped.repeating (fun as => ∀ a ∈ as, P a) (fun done hdone => ?_) (by simp)
  refine h.bind fun a ha => ?_
  have hmore : ∀ b ∈ done ++ [a], P b := by
    intro b hb
    rcases List.mem_append.1 hb with hb | hb
    · exact hdone b hb
    · exact List.mem_singleton.1 hb ▸ ha
  refine (skipSymbol_level _).bind fun found _ => ?_
  split
  · exact .pure hmore
  · exact .pure hmore

theorem close_level (opening : Token) : Level cap room (close opening) := by
  refine (skipSymbol_level _).bind fun found _ => ?_
  split
  · exact .pure trivial
  · refine current_level.bind fun t _ => ?_
    split
    · exact failAt_capped (by simp)
    · exact failExpected_capped _

/-- A look at a keyword and the token behind it. -/
theorem peekBehind_capped {k : Keyword} {p : Token → Bool} {f f' : Bool → Reader α}
    (hf : ∀ found, Capped cap room P (f found) (f' found)) :
    Capped cap room P
      (do
        if ← atKeyword k then do
          let t ← peek
          let found ← pure (p t)
          f found
        else do
          let found ← pure false
          f found)
      (do
        if ← atKeyword k then do
          let t ← peek
          let found ← pure (p t)
          f' found
        else do
          let found ← pure false
          f' found) := by
  refine (atKeyword_level k).bind fun present _ => ?_
  split
  · exact peek_level.bind fun t _ => hf (p t)
  · exact hf false

/-! ### The scope -/

theorem up_level (n : Nat) : Level cap room (Counter.up n) := by
  unfold Counter.up
  split
  · exact .pure trivial
  · exact throw_capped rfl

theorem down_level (n : Nat) : Level cap room (Counter.down n) := by
  unfold Counter.down
  split
  · exact .pure trivial
  · exact throw_capped rfl

theorem modifyDraft_level {f : Draft → Draft} (hf : ∀ d, (f d).subqueries = d.subqueries) :
    Level cap room (modifyDraft f) := by
  intro r hr
  refine .ok trivial ⟨hr.level, ?_⟩ rfl
  show Query.heightIn (f r.draft).subqueries ≤ room
  rw [hf]
  exact hr.height

theorem nextParameter_level : Level cap room nextParameter := by
  refine get_level.bind fun r _ => (up_level _).bind fun count _ => ?_
  exact (modifyDraft_level (f := fun d => { d with parameters := count })
    fun _ => rfl).bind fun _ _ => .pure trivial

theorem nameOf_level (t : Token) : Level cap room (nameOf t) := by
  unfold nameOf
  split
  · exact .pure trivial
  · exact throw_capped rfl

theorem noteOwner_level (t : Token) : Level cap room (noteOwner t) :=
  (nameOf_level t).bind fun _ _ => modifyDraft_level fun _ => rfl

theorem consume_level : Level cap room consume := by
  refine current_level.bind fun t _ => ?_
  have hmove : Level cap room (do next; if t.isName && (← atSymbol .dot) then noteOwner t) := by
    refine next_level.bind fun _ _ => (atSymbol_level _).bind fun dot _ => ?_
    split
    · exact noteOwner_level t
    · exact .pure trivial
  split
  · exact nextParameter_level.bind fun _ _ => hmove
  · exact hmove

theorem verbatimFrom_level (env : Setting) (start : Nat) :
    Level cap room (verbatimFrom env start) :=
  lastEnd_level.bind fun _ _ => .pure trivial

end Steps

/-! ## Nested readers -/

variable {cap : Cap} {n room : Nat} {inner inner' : Inner}

/-- A query that is read and attached to the scope. -/
theorem attach_capped (hin : inner.Capped cap n room inner') {α : Type} (a : α) {P : α → Prop}
    (ha : P a) :
    Capped cap room P
      (do
        let q ← inner.embed
        modifyDraft fun d => { d with subqueries := d.subqueries ++ [q] }
        return a)
      (do
        let q ← inner'.embed
        modifyDraft fun d => { d with subqueries := d.subqueries ++ [q] }
        return a) := by
  refine hin.embed.bind fun q hq r hr => .ok ha ⟨hr.level, ?_⟩ rfl
  show Query.heightIn (r.draft.subqueries ++ [q]) ≤ room
  have hroom := hin.le_room
  have hheight := hr.height
  rw [Query.heightIn_append]
  simp only [Query.heightIn]
  omega

theorem refuseNesting_capped {α : Type} {P : α → Prop} (env : Setting) (m' : Reader α) :
    Capped (.below env.limit) room P (refuseNesting env) m' :=
  fun _ _ => .refused rfl False.elim

/-- Beyond the limit both readers are refused. -/
theorem nested_refused {α : Type} {P : α → Prop} {env env' : Setting} (hcap : cap.limit = env.limit)
    (htogether : cap.together → env'.limit = env.limit) {m m' : Reader α} {r : Reading}
    (hdepth : env.limit ≤ r.nesting.depth) :
    Capping cap room P r.nesting (nested env m r) (nested env' m' r) := by
  unfold nested refuseNesting
  rw [if_pos hdepth, Cursor.fault, ← hcap]
  refine .refused rfl fun h => ?_
  rw [htogether h, if_pos hdepth, Cursor.fault, hcap]

/-- One level deeper the same holds, since the reader comes back to its level. -/
theorem nested_capped {α : Type} {P : α → Prop} {cap' : Cap} {env env' : Setting}
    (hlimit : env.limit ≤ env'.limit) (hcap : cap.limit = env.limit) (hcap' : cap'.limit = cap.limit)
    (htogether : cap.together → cap'.together ∧ env'.limit = env.limit)
    (hlevel : ∀ depth, cap.onLevel depth → cap'.onLevel (depth + 1)) {m m' : Reader α}
    (h : Capped cap' room P m m') : Capped cap room P (nested env m) (nested env' m') := by
  intro r hr
  by_cases hdepth : env.limit ≤ r.nesting.depth
  · exact nested_refused hcap (fun h => (htogether h).2) hdepth
  · have hout : ∀ r' : Reading, r'.nesting = r.deeper.nesting → r'.shallower.nesting = r.nesting := by
      intro r' hnesting
      simp [Reading.shallower, hnesting, Reading.deeper]
    have hdepth' : ¬env'.limit ≤ r.nesting.depth := by omega
    unfold nested
    rw [if_neg hdepth, if_neg hdepth']
    have hbody := h r.deeper ⟨hlevel _ hr.level, hr.height⟩
    revert hbody
    generalize m r.deeper = x
    generalize m' r.deeper = x'
    rintro (⟨hresult, hadmitted, hnesting⟩ | ⟨hother, hnesting⟩ | ⟨hnesting, hsame⟩)
    · refine .ok hresult ⟨?_, hadmitted.height⟩ (hout _ hnesting)
      rw [hout _ hnesting]
      exact hr.level
    · exact .fault hother (hout _ hnesting)
    · rw [hcap'] at hsame ⊢
      refine .refused ?_ fun h => ?_
      · simp [Reading.shallower, hnesting, Reading.deeper, Nesting.refused]
      · rw [hsame (htogether h).1]

end Reader

end SqlMarkers
