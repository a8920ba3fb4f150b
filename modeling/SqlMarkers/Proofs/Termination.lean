/-
SqlMarkers.Proofs.Termination — why reading a statement comes to an end.

Three things could go on forever: the loop over the text that splits off tokens, the
loops of the readers, and the calls of the readers to each other.

* A token takes at least one character (`TokenStream.length_lt_of_step`), so the
  equation of the token loop, which knows no bound, has one solution, and that is
  `TokenStream.readFrom` (`TokenStream.recurs_iff`).
* A loop of a reader is `repeatStep`, measured by the tokens that are left. It goes on
  only after a round that consumed a token, and ends in the fault `stalled` otherwise
  (`repeatStep_eq`). A group that is given up does not hide that fault
  (`Reader.attemptGroup_stalled`). So where no statement ends in it
  (`Setting.read_ne_stalled`), every round of every loop consumed a token or was the last.
* The readers call each other only through the five nested ones, one level deeper each
  time. So the equations that make each of the five the reader of its level over these
  same five, again without any bound, have one solution, which is the tower of
  `SqlMarkers.Reader.Query` (`Inner.recurs_iff`).

When a group is given up its text is read as an operand, and no reader of an operand
on the same level tries a group (`Reader.operandPredicate_retry`).
-/
import SqlMarkers.Proofs.Limits
import SqlMarkers.Proofs.Outcomes

namespace SqlMarkers

/-! ## The loop over the text -/

namespace TokenStream

/-- `read` reads on from where the token before it ends, as long as there are tokens. -/
def Recurs (d : Dialect) (read : Nat → Option Lexeme → List Char → TokenStream) : Prop :=
  ∀ offset previous cs, read offset previous cs =
    match step d offset previous cs with
    | .finished stop => ⟨[⟨.endOfInput, "", ⟨stop, stop⟩⟩], none⟩
    | .failed fault => ⟨[], some fault⟩
    | .token start l =>
        let more := read (start + Text.width l.text) (some l) l.rest
        { more with tokens := tokenAt start l :: more.tokens }

variable {d : Dialect} {offset start : Nat} {previous : Option Lexeme} {cs : List Char} {l : Lexeme}

/-- A token takes at least one character off the text. -/
theorem length_lt_of_step (h : step d offset previous cs = .token start l) :
    l.rest.length < cs.length := by
  obtain ⟨gap, hcs, -, htext, -⟩ := step_token h
  have hpos := List.length_pos_of_ne_nil htext
  have hlength := congrArg List.length hcs
  simp only [List.length_append] at hlength
  omega

/-- Bounds that exceed the number of characters make no difference. -/
theorem readFrom_congr {fuel fuel' : Nat} (h : cs.length < fuel) (h' : cs.length < fuel') :
    readFrom d fuel offset previous cs = readFrom d fuel' offset previous cs := by
  induction fuel generalizing fuel' offset previous cs with
  | zero => exact absurd h (Nat.not_lt_zero _)
  | succ fuel ih =>
      obtain ⟨fuel', rfl⟩ : ∃ n, fuel' = n + 1 := ⟨fuel' - 1, by omega⟩
      rw [readFrom, readFrom]
      cases hstep : step d offset previous cs with
      | finished stop => rfl
      | failed fault => rfl
      | token start l =>
          have hshorter := length_lt_of_step hstep
          have hmore : readFrom d fuel (start + Text.width l.text) (some l) l.rest =
              readFrom d fuel' (start + Text.width l.text) (some l) l.rest :=
            ih (by omega) (by omega)
          dsimp only
          rw [hmore]

/-- The reading of tokens with as many steps as there can be. -/
def readAll (d : Dialect) (offset : Nat) (previous : Option Lexeme) (cs : List Char) :
    TokenStream :=
  readFrom d (cs.length + 1) offset previous cs

theorem recurs_readAll (d : Dialect) : Recurs d (readAll d) := by
  intro offset previous cs
  rw [readAll, readFrom]
  cases hstep : step d offset previous cs with
  | finished stop => rfl
  | failed fault => rfl
  | token start l =>
      dsimp only
      rw [readAll, readFrom_congr (length_lt_of_step hstep) (Nat.lt_succ_self _)]

/-- The equation of the token loop has one solution. -/
theorem recurs_iff {read : Nat → Option Lexeme → List Char → TokenStream} :
    Recurs d read ↔ read = readAll d := by
  constructor
  · intro h
    have hread : ∀ n offset previous cs, cs.length = n →
        read offset previous cs = readAll d offset previous cs := by
      intro n
      induction n using Nat.strongRecOn with
      | ind n ih =>
          intro offset previous cs hlength
          rw [h, recurs_readAll d offset previous cs]
          cases hstep : step d offset previous cs with
          | finished stop => rfl
          | failed fault => rfl
          | token start l =>
              dsimp only
              rw [ih _ (hlength ▸ length_lt_of_step hstep) _ _ _ rfl]
    funext offset previous cs
    exact hread _ offset previous cs rfl
  · rintro rfl
    exact recurs_readAll d

end TokenStream

/-! ## The loops of the readers -/

section Loops

variable {ε σ α β : Type} {size : σ → Nat} {stuck : ε} {step : β → EStateM ε σ (Round β α)}

/-- Bounds that exceed the size of the state make no difference. -/
theorem Round.run_congr {fuel fuel' : Nat} {b : β} {s : σ} (h : size s < fuel)
    (h' : size s < fuel') :
    Round.run size stuck step fuel b s = Round.run size stuck step fuel' b s := by
  induction fuel generalizing fuel' b s with
  | zero => exact absurd h (Nat.not_lt_zero _)
  | succ fuel ih =>
      obtain ⟨fuel', rfl⟩ : ∃ n, fuel' = n + 1 := ⟨fuel' - 1, by omega⟩
      show EStateM.bind (step b) _ s = EStateM.bind (step b) _ s
      unfold EStateM.bind
      cases step b s with
      | error f s' => rfl
      | ok round s' =>
          cases round with
          | stop a => rfl
          | again next =>
              show (ite _ _ _ : EStateM ε σ α) s' = (ite _ _ _ : EStateM ε σ α) s'
              by_cases hless : size s' < size s
              · rw [if_pos hless, if_pos hless]
                exact ih (by omega) (by omega)
              · rw [if_neg hless, if_neg hless]

/-- A repetition does one round after the other, and goes on only after one that made
the state smaller. -/
theorem repeatStep_eq (size : σ → Nat) (stuck : ε) (step : β → EStateM ε σ (Round β α)) (b : β) :
    repeatStep size stuck step b = (do
      let before := size (← get)
      match ← step b with
      | .again next =>
          if size (← get) < before then repeatStep size stuck step next else throw stuck
      | .stop a => return a) := by
  funext s
  show EStateM.bind (step b) _ s = EStateM.bind (step b) _ s
  unfold EStateM.bind
  cases step b s with
  | error f s' => rfl
  | ok round s' =>
      cases round with
      | stop a => rfl
      | again next =>
          show (ite _ _ _ : EStateM ε σ α) s' = (ite _ _ _ : EStateM ε σ α) s'
          by_cases hless : size s' < size s
          · rw [if_pos hless, if_pos hless]
            exact Round.run_congr hless (Nat.lt_succ_self _)
          · rw [if_neg hless, if_neg hless]

end Loops

namespace Reader

/-- A group whose reading stalled is not given up. -/
theorem attemptGroup_stalled {env : Setting} {inner : Inner} {r r' : Reading}
    (h : inner.group r = .error .stalled r') : attemptGroup env inner r = .error .stalled r' := by
  simp [attemptGroup, h, Fault.isRecoverable]

/-- The operand that is read instead of a group is read without a group on its level. -/
theorem operandPredicate_retry (env : Setting) (inner : Inner) (group : Reader (List Condition)) :
    operandPredicate env { inner with group } = operandPredicate env inner := rfl

end Reader

/-! ## The calls of the readers to each other -/

/-- Where both readers are refused or none is, they do the same. -/
theorem Capping.eq {α : Type} {limit depth room : Nat} {P : α → Prop} {s : Nesting}
    {x x' : EStateM.Result Fault Reading α} (h : Capping (.same limit depth) room P s x x') :
    x = x' := by
  cases h with
  | ok => rfl
  | fault => rfl
  | refused _ hsame => exact (hsame trivial).symm

variable {env : Setting} {inner inner' below below' : Inner} {depth : Nat}

/-- From readings on this level, `inner` reads what the grammar says over `below`, one
level deeper. -/
structure Inner.Over (env : Setting) (depth : Nat) (inner below : Inner) : Prop where
  query : ∀ r, r.nesting.depth = depth →
    inner.query r = Reader.nested env (Reader.query env below) r
  operand : ∀ r, r.nesting.depth = depth →
    inner.operand r = Reader.nested env (Reader.operand below) r
  predicate : ∀ r, r.nesting.depth = depth →
    inner.predicate r = Reader.nested env (Reader.predicate env below) r
  group : ∀ r, r.nesting.depth = depth →
    inner.group r = Reader.nested env (Reader.group env below) r
  sources : ∀ r, r.nesting.depth = depth →
    inner.sources r = Reader.nested env (Reader.tableSources env below) r

/-- The five readers call each other, each call one level deeper, without any bound on
the calls. -/
def Inner.Recurs (env : Setting) (inner : Inner) : Prop := ∀ depth, inner.Over env depth inner

/-- Readers that go level by level down to the limit, where all calls are refused. -/
inductive Inner.Unrolls (env : Setting) : Nat → Inner → Prop
  | refused {depth : Nat} {inner below : Inner} (limit : env.limit ≤ depth)
      (hover : inner.Over env depth below) : Unrolls env depth inner
  | level {depth : Nat} {inner below : Inner} (hover : inner.Over env depth below)
      (deeper : Unrolls env (depth + 1) below) : Unrolls env depth inner

namespace Inner

theorem Unrolls.of_recurs (h : inner.Recurs env) (depth : Nat) : inner.Unrolls env depth := by
  by_cases hdepth : env.limit ≤ depth
  · exact .refused hdepth (h depth)
  · exact .level (h depth) (of_recurs h (depth + 1))
termination_by env.limit - depth

/-- From the limit on it does not matter what the exhausted readers are over. -/
theorem exhausted_over (h : env.limit ≤ depth) (below : Inner) :
    (Inner.exhausted env).Over env depth below := by
  have hrefused : ∀ {α : Type} (body : Reader α) (r : Reading), r.nesting.depth = depth →
      Reader.refuseNesting env r = Reader.nested env body r := by
    intro α body r hr
    rw [Reader.nested, if_pos (hr ▸ h)]
  constructor <;> exact hrefused _

/-- The tower of readers that may nest `n` levels deeper, where no more are allowed. -/
theorem Unrolls.upTo {n : Nat} (h : env.limit ≤ depth + n) : (Inner.upTo env n).Unrolls env depth := by
  induction n generalizing depth with
  | zero => exact .refused h (exhausted_over h (Inner.exhausted env))
  | succ n ih =>
      have hover : (Inner.upTo env (n + 1)).Over env depth (Inner.upTo env n) := by
        constructor <;> exact fun _ _ => rfl
      exact .level hover (ih (by omega))

theorem over_upTo {n : Nat} (h : env.limit ≤ depth + n) :
    ∃ below, (Inner.upTo env n).Over env depth below ∧ below.Unrolls env (depth + 1) := by
  cases n with
  | zero =>
      have hnext : (Inner.upTo env 0).Unrolls env (depth + 1) := .upTo (by omega)
      exact ⟨_, exhausted_over h _, hnext⟩
  | succ n =>
      have hover : (Inner.upTo env (n + 1)).Over env depth (Inner.upTo env n) := by
        constructor <;> exact fun _ _ => rfl
      exact ⟨_, hover, .upTo (by omega)⟩

/-- Readers that are over the same ones on every level are the same. -/
theorem eq_of_over (h : ∀ depth, inner.Over env depth below)
    (h' : ∀ depth, inner'.Over env depth below) : inner = inner' := by
  have hquery : inner.query = inner'.query :=
    funext fun r => ((h _).query r rfl).trans ((h' _).query r rfl).symm
  have hoperand : inner.operand = inner'.operand :=
    funext fun r => ((h _).operand r rfl).trans ((h' _).operand r rfl).symm
  have hpredicate : inner.predicate = inner'.predicate :=
    funext fun r => ((h _).predicate r rfl).trans ((h' _).predicate r rfl).symm
  have hgroup : inner.group = inner'.group :=
    funext fun r => ((h _).group r rfl).trans ((h' _).group r rfl).symm
  have hsources : inner.sources = inner'.sources :=
    funext fun r => ((h _).sources r rfl).trans ((h' _).sources r rfl).symm
  cases inner
  cases inner'
  simp_all

section Same

variable {α : Type} {room n : Nat} {P : α → Prop} {m m' body body' : Reader α}

/-- Two readers are the same if what they nest is the same one level deeper. -/
theorem same_capped (hm : ∀ r, r.nesting.depth = depth → m r = Reader.nested env body r)
    (hm' : ∀ r, r.nesting.depth = depth → m' r = Reader.nested env body' r)
    (h : Reader.Capped (.same env.limit (depth + 1)) room P body body') :
    Reader.Capped (.same env.limit depth) room P m m' := by
  have hnested : Reader.Capped (.same env.limit depth) room P (Reader.nested env body)
      (Reader.nested env body') := by
    refine Reader.nested_capped (Nat.le_refl _) ?_ ?_ ?_ ?_ h
    · rfl
    · rfl
    · exact fun _ => ⟨trivial, rfl⟩
    · exact fun _ hlevel => congrArg (· + 1) hlevel
  intro r hr
  rw [hm r hr.level, hm' r hr.level]
  exact hnested r hr

/-- From the limit on both readers are refused. -/
theorem same_refused (hdepth : env.limit ≤ depth)
    (hm : ∀ r, r.nesting.depth = depth → m r = Reader.nested env body r)
    (hm' : ∀ r, r.nesting.depth = depth → m' r = Reader.nested env body' r) :
    Reader.Capped (.same env.limit depth) room P m m' := by
  intro r hr
  rw [hm r hr.level, hm' r hr.level]
  exact Reader.nested_refused rfl (fun _ => rfl) (hr.level ▸ hdepth)

/-- Readers on a level are the same if the readers below them are. -/
theorem Over.capped (h : inner.Over env depth below) (h' : inner'.Over env depth below')
    (hbelow : ∀ room, n ≤ room → below.Capped (.same env.limit (depth + 1)) n room below') :
    ∀ room, n + 1 ≤ room → inner.Capped (.same env.limit depth) (n + 1) room inner' := by
  intro room hroom
  have hown := hbelow n (Nat.le_refl n)
  have hin := hbelow room (Nat.le_of_succ_le hroom)
  constructor
  · exact hroom
  · exact embed_capped (same_capped h.query h'.query
      ((Reader.query_capped hown).imp fun _ hq => Nat.lt_succ_of_le hq))
  · exact same_capped h.operand h'.operand (Reader.operand_capped hin)
  · exact same_capped h.predicate h'.predicate
      ((Reader.predicate_capped hin).imp fun _ hp => Nat.lt_succ_of_le hp)
  · exact same_capped h.group h'.group
      ((Reader.group_capped hin).imp fun _ hcs => Nat.lt_succ_of_le hcs)
  · exact same_capped h.sources h'.sources
      ((Reader.tableSources_capped hin).imp fun _ hss => Nat.lt_succ_of_le hss)

theorem Over.refused (hdepth : env.limit ≤ depth) (h : inner.Over env depth below)
    (h' : inner'.Over env depth below') (hroom : n ≤ room) :
    inner.Capped (.same env.limit depth) n room inner' := by
  constructor
  · exact hroom
  · exact embed_capped (n := n) (same_refused hdepth h.query h'.query)
  · exact same_refused hdepth h.operand h'.operand
  · exact same_refused hdepth h.predicate h'.predicate
  · exact same_refused hdepth h.group h'.group
  · exact same_refused hdepth h.sources h'.sources

/-- Readers that go down to the limit are the same: by induction on the levels. -/
theorem Unrolls.capped (h : inner.Unrolls env depth) (h' : inner'.Unrolls env depth) :
    ∃ least, ∀ n, least ≤ n → ∀ room, n ≤ room →
      inner.Capped (.same env.limit depth) n room inner' := by
  induction h generalizing inner' with
  | refused hdepth hover =>
      cases h' with
      | refused _ hover' => exact ⟨0, fun _ _ _ => hover.refused hdepth hover'⟩
      | level hover' _ => exact ⟨0, fun _ _ _ => hover.refused hdepth hover'⟩
  | level hover _ ih =>
      cases h' with
      | refused hdepth hover' => exact ⟨0, fun _ _ _ => hover.refused hdepth hover'⟩
      | level hover' hdeeper' =>
          obtain ⟨least, hbelow⟩ := ih hdeeper'
          refine ⟨least + 1, fun n hn => ?_⟩
          obtain ⟨n, rfl⟩ : ∃ k, n = k + 1 := ⟨n - 1, by omega⟩
          exact hover.capped hover' (hbelow n (Nat.le_of_succ_le_succ hn))

/-- Nested readers that are the same give the same, whatever is attached to the scope. -/
theorem nested_eq {P : Nat → α → Prop} (h : below.Unrolls env (depth + 1))
    (h' : below'.Unrolls env (depth + 1))
    (hbody : ∀ n, below.Capped (.same env.limit (depth + 1)) n n below' →
      Reader.Capped (.same env.limit (depth + 1)) n (P n) body body')
    {r : Reading} (hr : r.nesting.depth = depth) :
    Reader.nested env body r = Reader.nested env body' r := by
  obtain ⟨least, hleast⟩ := h.capped h'
  let n := max least (Query.heightIn r.draft.subqueries)
  have hin := hleast n (Nat.le_max_left _ _) n (Nat.le_refl n)
  have hsame := same_capped (fun _ _ => rfl) (fun _ _ => rfl) (hbody n hin) r
    ⟨hr, Nat.le_max_right _ _⟩
  exact hsame.eq

/-- Readers are over any that go down to the limit. -/
theorem Over.congr (hover : inner.Over env depth below) (h : below.Unrolls env (depth + 1))
    (h' : below'.Unrolls env (depth + 1)) : inner.Over env depth below' where
  query r hr := (hover.query r hr).trans (nested_eq h h' (fun _ => Reader.query_capped) hr)
  operand r hr := (hover.operand r hr).trans (nested_eq h h' (fun _ => Reader.operand_capped) hr)
  predicate r hr :=
    (hover.predicate r hr).trans (nested_eq h h' (fun _ => Reader.predicate_capped) hr)
  group r hr := (hover.group r hr).trans (nested_eq h h' (fun _ => Reader.group_capped) hr)
  sources r hr :=
    (hover.sources r hr).trans (nested_eq h h' (fun _ => Reader.tableSources_capped) hr)

end Same

/-- The tower that is as high as the limit solves the equations. -/
theorem recurs_upTo (env : Setting) : (Inner.upTo env env.limit).Recurs env := by
  intro depth
  have hlimit : env.limit ≤ depth + env.limit := Nat.le_add_left _ _
  obtain ⟨below, hover, hbelow⟩ := over_upTo hlimit
  exact hover.congr hbelow (.upTo (Nat.le_add_left _ _))

/-- The equations of the calls have one solution. -/
theorem recurs_iff : inner.Recurs env ↔ inner = Inner.upTo env env.limit := by
  constructor
  · intro h
    have htower := recurs_upTo env
    have hover : ∀ depth, inner.Over env depth (Inner.upTo env env.limit) := fun depth =>
      (h depth).congr (.of_recurs h _) (.of_recurs htower _)
    exact eq_of_over hover htower
  · rintro rfl
    exact recurs_upTo env

end Inner

/-! ## Reading a statement -/

theorem Setting.read_ne_stalled (env : Setting) : env.read ≠ .error .stalled := by
  intro hread
  have hlands := env.run_lands
  unfold Setting.read at hread
  cases hrun : env.run with
  | ok p =>
      rw [hrun] at hread
      cases hread
  | error f =>
      rw [hrun] at hread hlands
      cases hread
      exact hlands

/-- Why reading the statement comes to an end. -/
structure Setting.Terminates (env : Setting) : Prop where
  /-- A token takes at least one character off the text. -/
  tokens_consume : ∀ offset previous cs start l,
    TokenStream.step env.dialect offset previous cs = .token start l → l.rest.length < cs.length
  /-- The token loop is the one solution of its equation, which knows no bound. -/
  token_loop : ∀ read, TokenStream.Recurs env.dialect read ↔ read = TokenStream.readAll env.dialect
  /-- Every other loop goes on only after a round that made its state smaller. -/
  loops : ∀ (σ α β : Type) (size : σ → Nat) (step : β → EStateM Fault σ (Round β α)) (b : β),
    repeatStep size Fault.stalled step b = (do
      let before := size (← get)
      match ← step b with
      | .again next =>
          if size (← get) < before then repeatStep size Fault.stalled step next
          else throw Fault.stalled
      | .stop a => return a)
  /-- A group that stalls is not given up, so its stall ends the reading. -/
  stall_ends : ∀ inner r r', inner.group r = .error .stalled r' →
    Reader.attemptGroup env inner r = .error .stalled r'
  /-- No round of a loop fails to consume a token. -/
  never_stalls : env.read ≠ .error .stalled
  /-- The nested readers are the one solution of their equations, in which every call
  goes one level deeper and nothing bounds the calls but the nesting limit. -/
  calls : ∀ inner, Inner.Recurs env inner ↔ inner = Inner.upTo env env.limit
  /-- The operand that is read instead of a group does not try a group on its level. -/
  retry : ∀ inner group, Reader.operandPredicate env { inner with group } =
    Reader.operandPredicate env inner

/-- Reading a statement comes to an end, under every configuration and catalogue. -/
theorem terminates_parse (config : Config) (catalogue : Catalogue) (source : String) :
    (config.setting catalogue source).Terminates ∧
      readStatement config catalogue source.toList ≠ .error .stalled := by
  refine ⟨?_, (config.setting catalogue source).read_ne_stalled⟩
  exact
    { tokens_consume := fun _ _ _ _ _ => TokenStream.length_lt_of_step
      token_loop := fun _ => TokenStream.recurs_iff
      loops := fun _ _ _ size => repeatStep_eq size Fault.stalled
      stall_ends := fun _ _ _ => Reader.attemptGroup_stalled
      never_stalls := Setting.read_ne_stalled _
      calls := fun _ => Inner.recurs_iff
      retry := fun inner group => Reader.operandPredicate_retry _ inner group }

end SqlMarkers
