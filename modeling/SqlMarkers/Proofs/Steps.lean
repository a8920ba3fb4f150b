/-
SqlMarkers.Proofs.Steps — how a cursor moves over tokens.

The first section holds the few rules for reading steps that end with a
result: what a sequence of steps went through (`yields_bind`), and that a
repetition keeps what each of its rounds keeps (`repeatStep_yields`).

`Steps c ts c'` says that the cursor moves from `c` over the tokens `ts` to
`c'`, one token at a time and never over the end of the input. Where the
tokens ahead are in order (`Cursor.Orderly`, which holds at the start of a
statement) nothing is lost on the way: the tokens ahead of `c` are `ts` and
then the tokens ahead of `c'` (`Steps.rest_eq`), and order is kept
(`Steps.orderly`).
-/
import SqlMarkers.Cursor
import SqlMarkers.Proofs.Layout

namespace SqlMarkers

/-! ## Steps that end with a result -/

/-- From the state `s` the step `m` gives `a` and leaves the state `s'`. -/
def Yields {ε σ α : Type} (m : EStateM ε σ α) (s : σ) (a : α) (s' : σ) : Prop := m s = .ok a s'

section Results

variable {ε σ α β : Type}

theorem yields_bind {m : EStateM ε σ α} {f : α → EStateM ε σ β} {s s' : σ} {b : β} :
    Yields (m >>= f) s b s' ↔ ∃ a s₁, Yields m s a s₁ ∧ Yields (f a) s₁ b s' := by
  show EStateM.bind m f s = .ok b s' ↔ ∃ a s₁, m s = .ok a s₁ ∧ f a s₁ = .ok b s'
  unfold EStateM.bind
  split
  · rename_i a s₁ hm
    refine ⟨fun h => ⟨a, s₁, hm, h⟩, ?_⟩
    rintro ⟨_, _, ha, h⟩
    rw [hm] at ha
    cases ha
    exact h
  · rename_i e s₁ hm
    simp [hm]

theorem yields_pure {s s' : σ} {a b : α} :
    Yields (pure a : EStateM ε σ α) s b s' ↔ a = b ∧ s = s' := by
  show EStateM.Result.ok a s = .ok b s' ↔ _
  simp

theorem yields_get {s s' t : σ} : Yields (get : EStateM ε σ σ) s t s' ↔ s = t ∧ s = s' := by
  show EStateM.Result.ok s s = .ok t s' ↔ _
  simp

theorem yields_modify {f : σ → σ} {s s' : σ} {u : Unit} :
    Yields (modify f : EStateM ε σ Unit) s u s' ↔ f s = s' := by
  show EStateM.Result.ok () (f s) = .ok u s' ↔ _
  simp

theorem yields_throw {e : ε} {s s' : σ} {a : α} :
    Yields (throw e : EStateM ε σ α) s a s' ↔ False := by
  show EStateM.Result.error e s = .ok a s' ↔ _
  simp

theorem yields_map {m : EStateM ε σ α} {g : α → β} {s s' : σ} {b : β} :
    Yields (m >>= fun a => pure (g a)) s b s' ↔ ∃ a, Yields m s a s' ∧ g a = b := by
  simp only [yields_bind, yields_pure]
  constructor
  · rintro ⟨a, _, hm, hb, rfl⟩
    exact ⟨a, hm, hb⟩
  · rintro ⟨a, hm, hb⟩
    exact ⟨a, s', hm, hb, rfl⟩

theorem yields_ite {c : Prop} [Decidable c] {m n : EStateM ε σ α} {s s' : σ} {a : α} :
    Yields (if c then m else n) s a s' ↔ (c ∧ Yields m s a s') ∨ (¬c ∧ Yields n s a s') := by
  split <;> simp_all

/-- What a round asks for meets `again` or `stop`. -/
def Round.Meets (again : β → σ → Prop) (stop : α → σ → Prop) : Round β α → σ → Prop
  | .again b, s => again b s
  | .stop a, s => stop a s

@[simp] theorem Round.meets_again {again : β → σ → Prop} {stop : α → σ → Prop} {b : β} {s : σ} :
    (Round.again b : Round β α).Meets again stop s ↔ again b s := .rfl

@[simp] theorem Round.meets_stop {again : β → σ → Prop} {stop : α → σ → Prop} {a : α} {s : σ} :
    (Round.stop a : Round β α).Meets again stop s ↔ stop a s := .rfl

/-- What every round keeps holds at the end of a repetition. -/
theorem repeatStep_yields {size : σ → Nat} {stuck : ε} {step : β → EStateM ε σ (Round β α)} {b : β}
    (again : β → σ → Prop) (stop : α → σ → Prop)
    (hstep : ∀ {b s round s'}, again b s → Yields (step b) s round s' →
      round.Meets again stop s')
    {s s' : σ} {a : α} (hb : again b s) (h : Yields (repeatStep size stuck step b) s a s') :
    stop a s' := by
  have hrun : ∀ fuel b s, again b s → Yields (Round.run size stuck step fuel b) s a s' →
      stop a s' := by
    intro fuel
    induction fuel with
    | zero =>
        intro b s _ hrun
        exact (yields_throw.1 hrun).elim
    | succ fuel ih =>
        intro b s hb hrun
        obtain ⟨_, _, hget, hrun⟩ := yields_bind.1 hrun
        obtain ⟨rfl, rfl⟩ := yields_get.1 hget
        obtain ⟨round, s₁, hround, hrest⟩ := yields_bind.1 hrun
        have hmeets := hstep hb hround
        cases round with
        | again next =>
            obtain ⟨_, _, hget, hrest⟩ := yields_bind.1 hrest
            obtain ⟨rfl, rfl⟩ := yields_get.1 hget
            rcases yields_ite.1 hrest with ⟨-, hrest⟩ | ⟨-, hrest⟩
            · exact ih next s₁ hmeets hrest
            · exact (yields_throw.1 hrest).elim
        | stop result =>
            obtain ⟨rfl, rfl⟩ := yields_pure.1 hrest
            exact hmeets
  obtain ⟨_, _, hget, hrest⟩ := yields_bind.1 h
  obtain ⟨rfl, rfl⟩ := yields_get.1 hget
  exact hrun _ b s hb hrest

end Results

/-! ### Counting -/

namespace Counter

variable {σ β : Type} {n m : Nat} {s s' : σ} {f : Nat → EStateM Fault σ β} {b : β}

theorem yields_up : Yields (up n) s m s' ↔ n < limit ∧ n + 1 = m ∧ s = s' := by
  rw [up, yields_ite, yields_pure, yields_throw, and_false, or_false]

theorem yields_down : Yields (down n) s m s' ↔ 0 < n ∧ n - 1 = m ∧ s = s' := by
  rw [down, yields_ite, yields_pure, yields_throw, and_false, or_false]

/-- Where a count succeeded, it can be left out. -/
theorem bind_up (h : Yields (up n >>= f) s b s') : Yields (f (n + 1)) s b s' := by
  obtain ⟨m, s₁, hup, h⟩ := yields_bind.1 h
  obtain ⟨-, rfl, rfl⟩ := yields_up.1 hup
  exact h

theorem bind_down (h : Yields (down n >>= f) s b s') : Yields (f (n - 1)) s b s' := by
  obtain ⟨m, s₁, hdown, h⟩ := yields_bind.1 h
  obtain ⟨-, rfl, rfl⟩ := yields_down.1 hdown
  exact h

end Counter

/-! ## Moving over tokens -/

/-- The cursor moves from `c` over the tokens `ts` to `c'`. -/
inductive Steps : Cursor → List Token → Cursor → Prop
  | refl (c : Cursor) : Steps c [] c
  | snoc {c c₁ c₂ : Cursor} {ts : List Token} :
      Steps c ts c₁ → c₁.current.isEnd = false → Yields Cursor.next c₁ () c₂ →
      Steps c (ts ++ [c₁.current]) c₂

namespace Cursor

/-- The current token and those behind it. -/
def rest (c : Cursor) : List Token := c.current :: c.ahead

/-- The tokens ahead stand one behind the other, behind what was consumed, and
go on to the end of the input or to a lexical fault. -/
structure Orderly (c : Cursor) : Prop where
  behind : c.lastEnd ≤ c.current.span.start
  apart : c.rest.Pairwise fun a b => a.span.stop ≤ b.span.start
  upright : ∀ t ∈ c.rest, t.span.start ≤ t.span.stop
  wide : ∀ t ∈ c.rest, t.isEnd = false → t.span.start < t.span.stop
  ends : TokenStream.Ends ⟨c.rest, c.failure⟩

variable {c c' : Cursor}

/-- Only the last token can be the end of the input. -/
theorem Orderly.ahead_ne_nil (ho : c.Orderly) (hend : c.current.isEnd = false)
    (hfailure : c.failure = none) : c.ahead ≠ [] := by
  intro hahead
  obtain ⟨ts, -, ⟨hf, -⟩ | ⟨-, e, he, hrest⟩⟩ := ho.ends
  · exact hf hfailure
  · rw [rest, hahead, List.singleton_eq_append_iff] at hrest
    obtain ⟨-, hrest⟩ | ⟨-, hrest⟩ := hrest
    · cases hrest
      rw [he] at hend
      cases hend
    · cases hrest

/-- Nothing stands behind the end of the input. -/
theorem Orderly.rest_of_isEnd (ho : c.Orderly) (hend : c.current.isEnd = true) :
    c.rest = [c.current] := by
  obtain ⟨ts, hts, hends⟩ := ho.ends
  have hcurrent : c.current ∉ ts := fun hmem => by
    rw [hts _ hmem] at hend
    cases hend
  rcases hends with ⟨-, hrest⟩ | ⟨-, e, -, hrest⟩
  · exact absurd (hrest ▸ List.mem_cons_self) hcurrent
  · cases ts with
    | nil =>
        rw [rest] at hrest ⊢
        rw [(List.cons.inj hrest).2]
    | cons t ts =>
        rw [rest] at hrest
        exact absurd ((List.cons.inj hrest).1 ▸ List.mem_cons_self) hcurrent

/-- A step over a token takes it off the front. -/
theorem next_yields (ho : c.Orderly) (hend : c.current.isEnd = false) (h : Yields next c () c') :
    c.rest = c.current :: c'.rest ∧ c'.failure = c.failure ∧
      c'.lastEnd = c.current.span.stop := by
  unfold Yields next at h
  dsimp only at h
  split at h
  · rename_i t ts hahead
    cases h
    exact ⟨congrArg (c.current :: ·) hahead, rfl, rfl⟩
  · cases h
  · rename_i hahead hfailure
    exact absurd hahead (ho.ahead_ne_nil hend hfailure)

theorem lastEnd_of_next (h : Yields next c () c') : c'.lastEnd = c.current.span.stop := by
  unfold Yields next at h
  dsimp only at h
  split at h <;> cases h <;> rfl

theorem Orderly.next (ho : c.Orderly) (hend : c.current.isEnd = false)
    (h : Yields Cursor.next c () c') : c'.Orderly := by
  obtain ⟨hrest, hfailure, hlast⟩ := next_yields ho hend h
  have hapart := ho.apart
  rw [hrest] at hapart
  obtain ⟨hhead, htail⟩ := List.pairwise_cons.1 hapart
  have hmem : ∀ t ∈ c'.rest, t ∈ c.rest := fun t ht => hrest ▸ List.mem_cons_of_mem _ ht
  refine ⟨?_, htail, fun t ht => ho.upright t (hmem t ht), fun t ht => ho.wide t (hmem t ht), ?_⟩
  · rw [hlast]
    exact hhead _ List.mem_cons_self
  · obtain ⟨ts, hts, hends⟩ := ho.ends
    rw [hfailure]
    dsimp only at hends
    rw [hrest] at hends
    cases ts with
    | nil =>
        rcases hends with ⟨-, hnil⟩ | ⟨-, e, he, hsingle⟩
        · cases hnil
        · rw [(List.cons.inj hsingle).1, he] at hend
          cases hend
    | cons t ts =>
        refine ⟨ts, fun u hu => hts u (List.mem_cons_of_mem _ hu), ?_⟩
        rcases hends with ⟨hf, hcons⟩ | ⟨hf, e, he, hcons⟩
        · exact .inl ⟨hf, (List.cons.inj hcons).2⟩
        · exact .inr ⟨hf, e, he, (List.cons.inj hcons).2⟩

/-- What was consumed ends before every token ahead. -/
theorem Orderly.lastEnd_le (ho : c.Orderly) {t : Token} (ht : t ∈ c.rest) :
    c.lastEnd ≤ t.span.start := by
  rcases List.mem_cons.1 ht with rfl | htail
  · exact ho.behind
  · have hcurrent := ho.upright c.current List.mem_cons_self
    have hstop := (List.pairwise_cons.1 ho.apart).1 t htail
    have hbehind := ho.behind
    omega

/-- The current token starts before every token behind it. -/
theorem Orderly.current_le (ho : c.Orderly) {t : Token} (ht : t ∈ c.rest) :
    c.current.span.start ≤ t.span.start := by
  rcases List.mem_cons.1 ht with rfl | htail
  · exact Nat.le_refl _
  · have hcurrent := ho.upright c.current List.mem_cons_self
    have hstop := (List.pairwise_cons.1 ho.apart).1 t htail
    omega

/-- The cursor at the start of a statement. -/
theorem orderly_ofText {d : Dialect} {source : List Char} (h : ofText d source = .ok c) :
    c.Orderly ∧ (TokenStream.ofText d source).tokens = c.rest ∧
      (TokenStream.ofText d source).failure = c.failure := by
  have hlaid := TokenStream.laid_ofText d source
  have hends := TokenStream.ends_ofText d source
  rw [ofText] at h
  generalize TokenStream.ofText d source = stream at h hlaid hends
  obtain ⟨_ | ⟨t, ts⟩, failure⟩ := stream
  · cases failure <;> cases h
  · cases h
    refine ⟨⟨Nat.zero_le _, hlaid.pairwise, fun t ht => ?_, fun t ht hend => ?_, hends⟩, rfl, rfl⟩
    · obtain ⟨before, after, -, hspan, -⟩ := hlaid.mem ht
      rw [hspan]
      exact Nat.le_add_right _ _
    · obtain ⟨before, after, -, hspan, hkind⟩ := hlaid.mem ht
      have hwidth : 0 < Text.width t.text.toList := by
        refine Text.width_pos fun hnil => ?_
        rw [Token.isEnd, hkind.2 hnil] at hend
        cases hend
      rw [hspan]
      dsimp only
      omega

end Cursor

namespace Steps

variable {c c₁ c' : Cursor} {ts us : List Token}

theorem single (hend : c.current.isEnd = false) (h : Yields Cursor.next c () c') :
    Steps c [c.current] c' :=
  .snoc (.refl c) hend h

theorem trans (h : Steps c ts c₁) (h' : Steps c₁ us c') : Steps c (ts ++ us) c' := by
  induction h' with
  | refl => rwa [List.append_nil]
  | snoc _ hend hnext ih =>
      rw [← List.append_assoc]
      exact .snoc ih hend hnext

theorem orderly (h : Steps c ts c') (ho : c.Orderly) : c'.Orderly := by
  induction h with
  | refl => exact ho
  | snoc _ hend hnext ih => exact ih.next hend hnext

/-- The tokens ahead are those moved over and those still ahead. -/
theorem rest_eq (h : Steps c ts c') (ho : c.Orderly) : c.rest = ts ++ c'.rest := by
  induction h with
  | refl => rfl
  | snoc hsteps hend hnext ih =>
      rw [ih, (Cursor.next_yields (hsteps.orderly ho) hend hnext).1, List.append_assoc,
        List.singleton_append]

theorem failure_eq (h : Steps c ts c') (ho : c.Orderly) : c'.failure = c.failure := by
  induction h with
  | refl => rfl
  | snoc hsteps hend hnext ih =>
      rw [(Cursor.next_yields (hsteps.orderly ho) hend hnext).2.1, ih]

theorem isEnd_eq (h : Steps c ts c') {t : Token} (ht : t ∈ ts) : t.isEnd = false := by
  induction h with
  | refl => cases ht
  | snoc _ hend _ ih =>
      rcases List.mem_append.1 ht with ht | ht
      · exact ih ht
      · rw [List.mem_singleton.1 ht]
        exact hend

theorem mem_rest (h : Steps c ts c') (ho : c.Orderly) {t : Token} (ht : t ∈ ts) : t ∈ c.rest := by
  rw [h.rest_eq ho]
  exact List.mem_append_left _ ht

/-- A token moved over ends where the cursor is, or before. -/
theorem stop_le (h : Steps c ts c') (ho : c.Orderly) {t : Token} (ht : t ∈ ts) :
    t.span.stop ≤ c'.lastEnd := by
  induction h with
  | refl => cases ht
  | snoc hsteps hend hnext ih =>
      have ho₁ := hsteps.orderly ho
      rw [(Cursor.next_yields ho₁ hend hnext).2.2]
      rcases List.mem_append.1 ht with ht | ht
      · have hcurrent := ho₁.upright _ List.mem_cons_self
        have hbehind := ho₁.behind
        have := ih ht
        omega
      · obtain rfl := List.mem_singleton.1 ht
        exact Nat.le_refl _

theorem lastEnd_le (h : Steps c ts c') (ho : c.Orderly) : c.lastEnd ≤ c'.lastEnd := by
  induction h with
  | refl => exact Nat.le_refl _
  | snoc hsteps hend hnext ih =>
      have ho₁ := hsteps.orderly ho
      have hcurrent := ho₁.upright _ List.mem_cons_self
      have hbehind := ho₁.behind
      rw [(Cursor.next_yields ho₁ hend hnext).2.2]
      omega

/-- A token moved over starts where the cursor was, or later. -/
theorem start_le (h : Steps c ts c') (ho : c.Orderly) {t : Token} (ht : t ∈ ts) :
    c.current.span.start ≤ t.span.start :=
  ho.current_le (h.mem_rest ho ht)

theorem start_lt_stop (h : Steps c ts c') (ho : c.Orderly) {t : Token} (ht : t ∈ ts) :
    t.span.start < t.span.stop :=
  ho.wide t (h.mem_rest ho ht) (h.isEnd_eq ht)

theorem current_le (h : Steps c ts c') (ho : c.Orderly) :
    c.current.span.start ≤ c'.current.span.start := by
  refine ho.current_le ?_
  rw [h.rest_eq ho]
  exact List.mem_append_right _ List.mem_cons_self

theorem lastEnd_lt (h : Steps c ts c') (ho : c.Orderly) (hne : ts ≠ []) :
    c.lastEnd < c'.lastEnd := by
  obtain ⟨t, ht⟩ := List.exists_mem_of_ne_nil ts hne
  have hbehind := ho.behind
  have hstart := h.start_le ho ht
  have hwide := h.start_lt_stop ho ht
  have hstop := h.stop_le ho ht
  omega

theorem eq_of_nil (h : Steps c [] c') : c' = c := by
  generalize hts : ([] : List Token) = ts at h
  cases h with
  | refl => rfl
  | snoc _ _ _ => simp at hts

/-- Every token moved over was the current one. -/
theorem exists_of_mem (h : Steps c ts c') {t : Token} (ht : t ∈ ts) :
    ∃ vs c₁ c₂ us, Steps c vs c₁ ∧ c₁.current = t ∧ Yields Cursor.next c₁ () c₂ ∧
      Steps c₂ us c' := by
  induction h with
  | refl => cases ht
  | snoc hsteps hend hnext ih =>
      rcases List.mem_append.1 ht with ht | ht
      · obtain ⟨vs, c₁, c₂, us, hvs, hcurrent, hc₂, hus⟩ := ih ht
        exact ⟨vs, c₁, c₂, _, hvs, hcurrent, hc₂, hus.snoc hend hnext⟩
      · exact ⟨_, _, _, [], hsteps, (List.mem_singleton.1 ht).symm, hnext, .refl _⟩

end Steps

/-! ## Parentheses that are stepped over -/

namespace Cursor

variable {c c' : Cursor}

theorem accept_yields {kind : Kind} {t : Token} (h : Yields (accept kind) c t c') :
    t = c.current ∧ t.kind = kind ∧ Yields next c () c' := by
  obtain ⟨_, _, hget, h⟩ := yields_bind.1 h
  obtain ⟨rfl, rfl⟩ := yields_get.1 hget
  rcases yields_ite.1 h with ⟨hkind, h⟩ | ⟨-, h⟩
  · obtain ⟨_, _, hnext, h⟩ := yields_bind.1 h
    obtain ⟨rfl, rfl⟩ := yields_pure.1 h
    exact ⟨rfl, hkind, hnext⟩
  · cases h

theorem skipOneOf_yields {kinds : List Kind} {b : Bool} (h : Yields (skipOneOf kinds) c b c') :
    (b = true ∧ c.current.kind ∈ kinds ∧ Yields next c () c') ∨
      (b = false ∧ c.current.kind ∉ kinds ∧ c' = c) := by
  obtain ⟨_, _, hget, h⟩ := yields_bind.1 h
  obtain ⟨rfl, rfl⟩ := yields_get.1 hget
  rcases yields_ite.1 h with ⟨hkind, h⟩ | ⟨hkind, h⟩
  · obtain ⟨_, _, hnext, h⟩ := yields_bind.1 h
    obtain ⟨rfl, rfl⟩ := yields_pure.1 h
    exact .inl ⟨rfl, by simpa [isOneOf] using hkind, hnext⟩
  · obtain ⟨rfl, rfl⟩ := yields_pure.1 h
    exact .inr ⟨rfl, by simpa [isOneOf] using hkind, rfl⟩

theorem peekNth_yields {n : Nat} {t : Token} (h : Yields (peekNth n) c t c') :
    c.lookAhead n = .ok t ∧ c' = c := by
  unfold Yields peekNth at h
  split at h
  · rename_i ht
    cases h
    exact ⟨ht, rfl⟩
  · cases h

theorem lookAhead_zero (c : Cursor) : c.lookAhead 0 = .ok c.current := rfl

/-- A step brings every token ahead one place nearer. -/
theorem lookAhead_of_next (h : Yields next c () c') (n : Nat) :
    c'.lookAhead n = c.lookAhead (n + 1) := by
  unfold Yields next at h
  dsimp only at h
  split at h
  · rename_i t ts hahead
    cases h
    simp only [lookAhead, hahead, List.getElem?_cons_succ, List.getLastD_cons]
  · cases h
  · rename_i hahead hfailure
    cases h
    cases n <;> simp [lookAhead, hahead, hfailure]

theorem current_of_next (h : Yields next c () c') {t : Token} (ht : c.lookAhead 1 = .ok t) :
    c'.current = t := by
  have := (lookAhead_of_next h 0).trans ht
  rw [lookAhead_zero] at this
  exact Except.ok.inj this

/-- A pair of parentheses is stepped over token by token. -/
theorem skipParentheses_yields {skipped : Skipped} (h : Yields skipParentheses c skipped c') :
    c.current.kind = .symbol .leftParen ∧
      ∃ ts, ts ≠ [] ∧ Steps c ts c' ∧ skipped.span = ⟨c.current.span.start, c'.lastEnd⟩ := by
  obtain ⟨opening, c₁, hopen, h⟩ := yields_bind.1 h
  obtain ⟨rfl, hkind, hnext⟩ := accept_yields hopen
  have hfirst : Steps c [c.current] c₁ := .single (by rw [Token.isEnd, hkind]; rfl) hnext
  refine ⟨hkind, ?_⟩
  refine repeatStep_yields (fun _ c' => ∃ ts, ts ≠ [] ∧ Steps c ts c')
    (fun skipped c' => ∃ ts, ts ≠ [] ∧ Steps c ts c' ∧
      skipped.span = ⟨c.current.span.start, c'.lastEnd⟩) ?_ ⟨_, by simp, hfirst⟩ h
  rintro ⟨depth, placeholders⟩ c₂ round c₃ ⟨ts, hne, hsteps⟩ hround
  have hstep : ∀ {again : Nat × Nat}, c₂.current.isEnd = false →
      Yields (do next; return .again again : Action (Round (Nat × Nat) Skipped)) c₂ round c₃ →
      round.Meets (fun _ c' => ∃ ts, ts ≠ [] ∧ Steps c ts c')
        (fun skipped c' => ∃ ts, ts ≠ [] ∧ Steps c ts c' ∧
          skipped.span = ⟨c.current.span.start, c'.lastEnd⟩) c₃ := by
    intro again hend h
    obtain ⟨_, _, hnext, h⟩ := yields_bind.1 h
    obtain ⟨rfl, rfl⟩ := yields_pure.1 h
    exact ⟨_, by simp, hsteps.snoc hend hnext⟩
  rcases yields_ite.1 hround with ⟨-, hround⟩ | ⟨-, hround⟩
  · obtain ⟨_, _, hget, h⟩ := yields_bind.1 hround
    obtain ⟨rfl, rfl⟩ := yields_get.1 hget
    obtain ⟨rfl, rfl⟩ := yields_pure.1 h
    exact ⟨ts, hne, hsteps, rfl⟩
  · obtain ⟨_, _, hget, h⟩ := yields_bind.1 hround
    obtain ⟨rfl, rfl⟩ := yields_get.1 hget
    split at h
    · cases h
    · rename_i hkind
      exact hstep (by simp_all [Token.isEnd]) (Counter.bind_up h)
    · rename_i hkind
      exact hstep (by simp_all [Token.isEnd]) (Counter.bind_down h)
    · rename_i hkind
      exact hstep (by simp_all [Token.isEnd]) (Counter.bind_up h)
    · exact hstep (by simp_all [Token.isEnd]) h

end Cursor

end SqlMarkers
