/-
SqlMarkers.Proofs.Calls — a cursor under any sequence of calls.

A caller may go on with a cursor after a call has failed, from the state the failure left
(`Cursor.after`). Whatever it calls, the cursor only ever does one thing: it tries to move
one token further, and a call ends with the first try that fails (`Call.strides`). So one
lemma about a single try (`Stands.next`) gives all that holds of whole runs: the current
token is one of the stream and never an earlier one than before, looking ahead tells the
stream, and once a try has failed no later one succeeds.

A try behind a failed one starts in front of the faulty piece and not in front of the gap
that led to it. `TokenStream.retried` is the stream as it looks from there. It differs from the
stream in the cause of its fault, and only where an unclosed hint stands behind a comment
(`TokenStream.again_ofText`).
-/
import Mathlib.Logic.Relation
import SqlMarkers.Proofs.Advances
import SqlMarkers.Proofs.Balance

namespace SqlMarkers

/-! ## The fault that a second try meets -/

namespace TokenStream

/-- The stream as it looks once the piece behind its last token has been tried. -/
def retried (s : TokenStream) (tried : Bool) : TokenStream :=
  if tried then { s with failure := s.failure.map LexicalFault.repeated } else s

@[simp] theorem retried_false (s : TokenStream) : s.retried false = s := rfl

theorem retried_true (s : TokenStream) :
    s.retried true = { s with failure := s.failure.map LexicalFault.repeated } := rfl

@[simp] theorem tokens_retried (s : TokenStream) (tried : Bool) :
    (s.retried tried).tokens = s.tokens := by
  cases tried <;> rfl

theorem Ends.retried {s : TokenStream} (h : s.Ends) (tried : Bool) : (s.retried tried).Ends := by
  obtain ⟨tokens, failure⟩ := s
  cases tried <;> cases failure <;> simpa [TokenStream.retried, Ends] using h

/-- Later tries meet what the second one met. -/
@[simp] theorem retried_retried (s : TokenStream) (tried tried' : Bool) :
    (s.retried tried).retried tried' = s.retried (tried || tried') := by
  obtain ⟨tokens, failure⟩ := s
  cases tried <;> cases tried' <;> cases failure <;> rfl

end TokenStream

/-- A second try meets the same fault, unless the piece is an open hint that a comment in front
of it makes a comment. -/
def LexicalFault.Lasts (d : Dialect) (f : LexicalFault) : Prop :=
  f.repeated = f ∨
    d.features.hints = true ∧ f.cause = .unterminatedComment ∧ f.again = .unterminatedHint

theorem LexicalFault.lasts_of_again {d : Dialect} {f : LexicalFault} (h : f.again = f.cause) :
    f.Lasts d := by
  refine .inl ?_
  obtain ⟨start, offset, cause, again⟩ := f
  obtain rfl : again = cause := h
  rfl

namespace TokenStream

theorem lasts_of_step {d : Dialect} {offset : Nat} {previous : Option Lexeme} {cs : List Char}
    {f : LexicalFault} (h : step d offset previous cs = .failed f) : f.Lasts d := by
  unfold step at h
  split at h
  · rename_i skipped cause again hskip
    cases h
    obtain ⟨gap, block, hint, commented, -, -, hblock, -, rfl, rfl⟩ := Gap.skip_unclosed hskip
    cases hint with
    | false => exact LexicalFault.lasts_of_again rfl
    | true =>
        cases commented with
        | false => exact LexicalFault.lasts_of_again rfl
        | true => exact .inr ⟨hblock.hints, rfl, rfl⟩
  · cases h
  · split at h
    · cases h
    · cases h
      exact LexicalFault.lasts_of_again rfl

theorem lasts_of_readFrom {d : Dialect} {fuel offset : Nat} {previous : Option Lexeme}
    {cs : List Char} {f : LexicalFault} (h : (readFrom d fuel offset previous cs).failure = some f) :
    f.Lasts d := by
  induction fuel generalizing offset previous cs with
  | zero =>
      cases h
      exact LexicalFault.lasts_of_again rfl
  | succ fuel ih =>
      rw [readFrom] at h
      split at h
      · cases h
      · rename_i fault hstep
        cases h
        exact lasts_of_step hstep
      · exact ih h

theorem lasts_ofText {d : Dialect} {source : List Char} {f : LexicalFault}
    (h : (ofText d source).failure = some f) : f.Lasts d := by
  rw [ofText] at h
  split at h
  · exact lasts_of_readFrom h
  · cases h
    exact LexicalFault.lasts_of_again rfl

end TokenStream

@[simp] theorem LexicalFault.isLexical_toFault (f : LexicalFault) : f.toFault.isLexical = true := rfl

/-! ## Calls -/

namespace Cursor

/-- An operation that a caller of a cursor may choose. -/
inductive Call where
  | next
  | peekNth (n : Nat)
  | accept (kind : Kind)
  | skipOneOf (kinds : List Kind)
  | skipWhile (kinds : List Kind)
  | skipParentheses
deriving DecidableEq, Repr

/-- What a call answers. -/
inductive Answer where
  | done
  | token (t : Token)
  | found (b : Bool)
  | skipped (s : Skipped)
deriving DecidableEq, Repr

/-- The operation itself. -/
def Call.run : Call → Action Answer
  | .next => do Cursor.next; return .token (← get).current
  | .peekNth n => return .token (← Cursor.peekNth n)
  | .accept kind => return .token (← Cursor.accept kind)
  | .skipOneOf kinds => return .found (← Cursor.skipOneOf kinds)
  | .skipWhile kinds => do Cursor.skipWhile kinds; return .done
  | .skipParentheses => return .skipped (← Cursor.skipParentheses)

/-- Whether the call only looks ahead. -/
def Call.isPeek : Call → Bool
  | .peekNth _ => true
  | _ => false

/-- The state a call leaves, whether it succeeds or fails. -/
def Call.after (call : Call) (c : Cursor) : Cursor :=
  match call.run c with
  | .ok _ c' | .error _ c' => c'

/-- The state that calls leave, one after the other. -/
def after (calls : List Call) (c : Cursor) : Cursor := calls.foldl (fun c call => call.after c) c

@[simp] theorem after_nil (c : Cursor) : after [] c = c := rfl

@[simp] theorem after_cons (call : Call) (calls : List Call) (c : Cursor) :
    after (call :: calls) c = after calls (call.after c) := rfl

@[simp] theorem after_append (calls more : List Call) (c : Cursor) :
    after (calls ++ more) c = after more (after calls c) := List.foldl_append

/-! ### Calls are tries to move on -/

/-- The cursor gets from one state to another by moving on, token by token. -/
def Passes : Cursor → Cursor → Prop :=
  Relation.ReflTransGen fun c c' => Yields Cursor.next c () c'

/-- The outcome of tries to move on: all succeed, or the last one fails and its fault is the
outcome, or something other than the text stops them. -/
inductive Striding {α : Type} (c : Cursor) : EStateM.Result Fault Cursor α → Prop
  | ok {a : α} {c' : Cursor} : Passes c c' → Striding c (.ok a c')
  | fails {f : Fault} {c₁ c' : Cursor} :
      Passes c c₁ → Cursor.next c₁ = .error f c' → Striding c (.error f c')
  | stops {f : Fault} {c' : Cursor} :
      Passes c c' → f.isLexical = false → Striding c (.error f c')

/-- The action only tries to move on, and ends with the first try that fails. -/
def Strides {α : Type} (m : Action α) : Prop := ∀ c, Striding c (m c)

section Strides

variable {α β : Type} {m : Action α}

theorem strides_pure (a : α) : Strides (pure a : Action α) := fun _ => .ok .refl

theorem strides_get : Strides (get : Action Cursor) := fun _ => .ok .refl

theorem strides_throw {f : Fault} (hf : f.isLexical = false) : Strides (throw f : Action α) :=
  fun _ => .stops .refl hf

theorem strides_failExpected (what : String) : Strides (failExpected what : Action α) :=
  fun _ => .stops .refl rfl

theorem strides_next : Strides next := by
  intro c
  cases h : next c with
  | ok a c' => exact .ok (.single h)
  | error f c' => exact .fails .refl h

theorem Striding.after {c c₁ : Cursor} {result : EStateM.Result Fault Cursor α} (hc : Passes c c₁)
    (h : Striding c₁ result) : Striding c result := by
  cases h with
  | ok hp => exact .ok (hc.trans hp)
  | fails hp hn => exact .fails (hc.trans hp) hn
  | stops hp hf => exact .stops (hc.trans hp) hf

theorem Strides.bind {f : α → Action β} (hm : Strides m) (hf : ∀ a, Strides (f a)) :
    Strides (m >>= f) := by
  intro c
  show Striding c (EStateM.bind m f c)
  unfold EStateM.bind
  have hc := hm c
  cases h : m c with
  | ok a c₁ =>
      rw [h] at hc
      cases hc with
      | ok hp => exact .after hp (hf a c₁)
  | error e c₁ =>
      rw [h] at hc
      cases hc with
      | fails hp hn => exact .fails hp hn
      | stops hp he => exact .stops hp he

theorem strides_up (n : Nat) : Strides (Counter.up n) := by
  unfold Counter.up
  split
  · exact strides_pure _
  · exact strides_throw rfl

theorem strides_down (n : Nat) : Strides (Counter.down n) := by
  unfold Counter.down
  split
  · exact strides_pure _
  · exact strides_throw rfl

theorem strides_repeatStep {step : β → Action (Round β α)} (hstep : ∀ b, Strides (step b)) (b : β) :
    Strides (repeatStep remaining .stalled step b) := by
  have hrun : ∀ fuel b, Strides (Round.run remaining .stalled step fuel b) := by
    intro fuel
    induction fuel with
    | zero => exact fun _ => strides_throw rfl
    | succ fuel ih =>
        intro b
        refine strides_get.bind fun before => (hstep b).bind fun round => ?_
        cases round with
        | again next =>
            refine strides_get.bind fun c => ?_
            split
            · exact ih next
            · exact strides_throw rfl
        | stop result => exact strides_pure result
  exact strides_get.bind fun c => hrun _ b

theorem strides_skipOneOf (kinds : List Kind) : Strides (skipOneOf kinds) := by
  refine strides_get.bind fun c => ?_
  split
  · exact strides_next.bind fun _ => strides_pure true
  · exact strides_pure false

theorem strides_accept (kind : Kind) : Strides (accept kind) := by
  refine strides_get.bind fun c => ?_
  dsimp only
  split
  · exact strides_next.bind fun _ => strides_pure _
  · exact strides_failExpected _

theorem strides_skipWhile (kinds : List Kind) : Strides (skipWhile kinds) := by
  refine strides_repeatStep (fun _ => (strides_skipOneOf kinds).bind fun found => ?_) ()
  split
  · exact strides_pure _
  · exact strides_pure _

theorem strides_skipParentheses : Strides skipParentheses := by
  refine (strides_accept _).bind fun opening => strides_repeatStep ?_ (1, 0)
  rintro ⟨depth, placeholders⟩
  have hagain : ∀ depth placeholders, Strides (do
      next
      return .again (depth, placeholders) : Action (Round (Nat × Nat) Skipped)) :=
    fun _ _ => strides_next.bind fun _ => strides_pure _
  dsimp only
  split
  · exact strides_get.bind fun c => strides_pure _
  · refine strides_get.bind fun c => ?_
    split
    · exact strides_throw rfl
    · exact (strides_up depth).bind fun _ => hagain _ _
    · exact (strides_down depth).bind fun _ => hagain _ _
    · exact (strides_up placeholders).bind fun _ => hagain _ _
    · exact hagain _ _

end Strides

/-- Every call but a look ahead is a sequence of tries to move on. -/
theorem Call.strides {call : Call} (h : call.isPeek = false) : Strides call.run := by
  cases call with
  | next => exact strides_next.bind fun _ => strides_get.bind fun _ => strides_pure _
  | peekNth n => cases h
  | accept kind => exact (strides_accept kind).bind fun _ => strides_pure _
  | skipOneOf kinds => exact (strides_skipOneOf kinds).bind fun _ => strides_pure _
  | skipWhile kinds => exact (strides_skipWhile kinds).bind fun _ => strides_pure _
  | skipParentheses => exact strides_skipParentheses.bind fun _ => strides_pure _

theorem peekNth_after (n : Nat) (c : Cursor) : (Call.peekNth n).after c = c := by
  show (match EStateM.bind (peekNth n) _ c with
    | .ok (_ : Answer) c' | .error _ c' => c') = c
  unfold EStateM.bind peekNth
  cases c.lookAhead n <;> rfl

/-! ### Where a cursor stands -/

/-- The cursor stands on the token `k` of a stream. -/
structure Stands (s : TokenStream) (k : Nat) (c : Cursor) : Prop where
  rest : s.tokens.drop k = c.rest
  failure : s.failure = c.failure

namespace Stands

variable {s : TokenStream} {k : Nat} {c c' : Cursor}

theorem of_ofText {d : Dialect} {source : List Char} (h : ofText d source = .ok c) :
    Stands (TokenStream.ofText d source) 0 c := by
  obtain ⟨-, htokens, hfailure⟩ := orderly_ofText h
  exact ⟨htokens, hfailure⟩

theorem current (h : Stands s k c) : s.tokens[k]? = some c.current := by
  rw [← List.head?_drop, h.rest]
  rfl

theorem lt_length (h : Stands s k c) : k < s.tokens.length :=
  (List.getElem?_eq_some_iff.1 h.current).1

theorem ahead (h : Stands s k c) : s.tokens.drop (k + 1) = c.ahead := by
  rw [← List.drop_drop, h.rest]
  rfl

/-- One try: the cursor moves to the next token, or it is on the last one and stays there,
with the fault of the stream if there is one. -/
theorem next (h : Stands s k c) :
    (∃ c', Cursor.next c = .ok () c' ∧ Stands s (k + 1) c') ∨
      (k + 1 = s.tokens.length ∧ s.failure = none ∧
        ∃ c', Cursor.next c = .ok () c' ∧ Stands s k c') ∨
      (k + 1 = s.tokens.length ∧ ∃ f c', s.failure = some f ∧
        Cursor.next c = .error f.toFault c' ∧ c'.current = c.current ∧
        Stands (s.retried true) k c') := by
  have hrest := h.rest
  have hahead := h.ahead
  have hfailure := h.failure
  have hlast : c.ahead = [] → k + 1 = s.tokens.length := fun hnil => by
    have hlength := congrArg List.length hahead
    have hlt := h.lt_length
    rw [List.length_drop, hnil, List.length_nil] at hlength
    omega
  obtain ⟨current, ahead, failure, lastEnd⟩ := c
  cases ahead with
  | cons t ts => exact .inl ⟨_, rfl, hahead, hfailure⟩
  | nil =>
      cases failure with
      | none => exact .inr (.inl ⟨hlast rfl, hfailure, _, rfl, hrest, hfailure⟩)
      | some f =>
          refine .inr (.inr ⟨hlast rfl, f, _, hfailure, rfl, rfl, hrest, ?_⟩)
          rw [TokenStream.retried_true, hfailure]
          rfl

/-- Moving on never leads back. -/
theorem passes (h : Stands s k c) (hp : Passes c c') : ∃ k', k ≤ k' ∧ Stands s k' c' := by
  induction hp with
  | refl => exact ⟨k, Nat.le_refl k, h⟩
  | tail _ hn ih =>
      obtain ⟨k', hk, h'⟩ := ih
      rcases h'.next with ⟨_, hok, hs⟩ | ⟨-, -, _, hok, hs⟩ | ⟨-, _, _, -, herror, -⟩
      · obtain ⟨-, rfl⟩ := EStateM.Result.ok.inj (hok.symm.trans hn)
        exact ⟨k' + 1, Nat.le_succ_of_le hk, hs⟩
      · obtain ⟨-, rfl⟩ := EStateM.Result.ok.inj (hok.symm.trans hn)
        exact ⟨k', hk, hs⟩
      · cases herror.symm.trans hn

/-- What a call does to a cursor: it moves on to a token and succeeds, or is stopped there by
something other than the text; or it gets to the last token and meets the fault of the
stream. -/
theorem call (h : Stands s k c) {call : Call} (hcall : call.isPeek = false) :
    (∃ k', k ≤ k' ∧ Stands s k' (call.after c) ∧
      ∀ f c', call.run c = .error f c' → f.isLexical = false) ∨
    (∃ k' f, k ≤ k' ∧ k' + 1 = s.tokens.length ∧ s.failure = some f ∧
      call.run c = .error f.toFault (call.after c) ∧ Stands (s.retried true) k' (call.after c)) := by
  have hstride := Call.strides hcall c
  unfold Call.after
  generalize call.run c = result at hstride
  cases hstride with
  | ok hp =>
      obtain ⟨k', hk, h'⟩ := h.passes hp
      exact .inl ⟨k', hk, h', fun _ _ => nofun⟩
  | stops hp hf =>
      obtain ⟨k', hk, h'⟩ := h.passes hp
      refine .inl ⟨k', hk, h', fun f c' herror => ?_⟩
      cases herror
      exact hf
  | fails hp hn =>
      obtain ⟨k', hk, h'⟩ := h.passes hp
      rcases h'.next with ⟨_, hok, -⟩ | ⟨-, -, _, hok, -⟩ | ⟨hlast, f, _, hfailure, herror, -, hs⟩
      · cases hok.symm.trans hn
      · cases hok.symm.trans hn
      · obtain ⟨rfl, rfl⟩ := EStateM.Result.error.inj (herror.symm.trans hn)
        exact .inr ⟨k', f, hk, hlast, hfailure, rfl, hs⟩

/-- The last token is the end of the input, if no fault follows. -/
theorem current_last (h : Stands s k c) (hends : s.Ends) (hlast : k + 1 = s.tokens.length)
    (hfailure : s.failure = none) : c.current.isEnd = true ∧ s.tokens.getLast? = some c.current := by
  have hcurrent := h.current
  obtain ⟨ts, -, ⟨hsome, -⟩ | ⟨-, e, he, htokens⟩⟩ := hends
  · exact absurd hfailure hsome
  · rw [htokens, List.length_append, List.length_singleton, Nat.add_right_cancel_iff] at hlast
    subst hlast
    rw [htokens, List.getElem?_concat_length] at hcurrent
    obtain rfl := Option.some.inj hcurrent
    exact ⟨he, by rw [htokens, List.getLast?_concat]⟩

/-- A step over a token takes it off the front. -/
theorem step (h : Stands s k c) (hends : s.Ends) (hend : c.current.isEnd = false)
    (hn : Yields Cursor.next c () c') : Stands s (k + 1) c' ∧ c.rest = c.current :: c'.rest := by
  have hnext : Stands s (k + 1) c' := by
    rcases h.next with ⟨_, hok, hs⟩ | ⟨hlast, hfailure, -⟩ | ⟨-, _, _, -, herror, -⟩
    · obtain ⟨-, rfl⟩ := EStateM.Result.ok.inj (hok.symm.trans hn)
      exact hs
    · cases hend.symm.trans (h.current_last hends hlast hfailure).1
    · cases herror.symm.trans hn
  refine ⟨hnext, ?_⟩
  rw [← hnext.rest, h.ahead]
  rfl

/-- What stands ahead is what the stream holds there. -/
theorem lookAhead (h : Stands s k c) (hends : s.Ends) (n : Nat) :
    (∀ t, s.tokens[k + n]? = some t → c.lookAhead n = .ok t) ∧
    (s.tokens.length ≤ k + n → s.failure = none →
      ∃ e, e.isEnd = true ∧ s.tokens.getLast? = some e ∧ c.lookAhead n = .ok e) ∧
    (s.tokens.length ≤ k + n → ∀ f, s.failure = some f → c.lookAhead n = .error f.toFault) := by
  have hget : (c.current :: c.ahead)[n]? = s.tokens[k + n]? := by
    rw [← List.getElem?_drop, h.rest]
    rfl
  unfold Cursor.lookAhead
  rw [hget, ← h.failure]
  refine ⟨fun t ht => ?_, fun hbeyond hnone => ?_, fun hbeyond f hf => ?_⟩
  · rw [ht]
  · obtain ⟨ts, -, ⟨hsome, -⟩ | ⟨-, e, he, htokens⟩⟩ := hends
    · exact absurd hnone hsome
    · have hlast : (c.current :: c.ahead).getLast? = some e := by
        have hdrop := congrArg List.getLast? h.rest
        rw [List.getLast?_drop, if_neg (Nat.not_le_of_lt h.lt_length), htokens,
          List.getLast?_concat] at hdrop
        exact hdrop.symm
      rw [List.getLast?_cons, ← List.getLastD_eq_getLast?] at hlast
      rw [List.getElem?_eq_none hbeyond, hnone, htokens, List.getLast?_concat]
      exact ⟨e, he, rfl, congrArg Except.ok (Option.some.inj hlast)⟩
  · rw [List.getElem?_eq_none hbeyond, hf]

end Stands

/-! ### Parentheses that are stepped over -/

/-- Inside the parentheses that open at `c`, so many levels deep and behind so many `?`. At
level 0 they are closed. -/
inductive Inside (s : TokenStream) (k : Nat) (c : Cursor) : Nat → Nat → Cursor → Prop
  | opened {n : Nat} {ts : List Token} {c' : Cursor} :
      Stands s (k + 1 + ts.length) c' → c.rest = c.current :: ts ++ c'.rest →
      Paired false n ts [] → Inside s k c (n + 1) (ts.countP (·.isSymbol .question)) c'
  | closed {ts : List Token} {t : Token} {c' : Cursor} :
      c.rest = c.current :: ts ++ t :: c'.rest → t.kind = .symbol .rightParen → Balanced ts →
      c'.lastEnd = t.span.stop → Inside s k c 0 (ts.countP (·.isSymbol .question)) c'

namespace Inside

variable {s : TokenStream} {k n placeholders : Nat} {c c₁ c₂ : Cursor}

/-- One token further inside the parentheses, which leaves `n'` of them open. -/
theorem more (h : Inside s k c (n + 1) placeholders c₁) (hends : s.Ends)
    (hend : c₁.current.isEnd = false) (hn : Yields next c₁ () c₂) {n' : Nat}
    (hpaired : ∀ ts, Paired false n ts [] → Paired false n' (ts ++ [c₁.current]) []) :
    Inside s k c (n' + 1) (placeholders + [c₁.current].countP (·.isSymbol .question)) c₂ := by
  cases h with
  | @opened _ ts _ hs hrest hts =>
      obtain ⟨hs₂, hrest₁⟩ := hs.step hends hend hn
      rw [← List.countP_append]
      refine .opened ?_ ?_ (hpaired ts hts)
      · rwa [List.length_append, List.length_singleton, ← Nat.add_assoc]
      · rw [hrest, hrest₁]
        simp

/-- The parenthesis that closes the first one. -/
theorem close (h : Inside s k c 1 placeholders c₁) (hends : s.Ends)
    (hkind : c₁.current.kind = .symbol .rightParen) (hn : Yields next c₁ () c₂) :
    Inside s k c 0 placeholders c₂ := by
  cases h with
  | @opened _ ts _ hs hrest hts =>
      obtain ⟨-, hrest₁⟩ := hs.step hends (by rw [Token.isEnd, hkind]; rfl) hn
      exact .closed (hrest₁ ▸ hrest) hkind (hts.balanced_iff.2 rfl) (lastEnd_of_next hn)

end Inside

/-- From `c` to `c'` there is a pair of parentheses: the tokens between them are balanced, so
the second one matches the first, and their `?` are counted. -/
def Parenthesized (c : Cursor) (skipped : Skipped) (c' : Cursor) : Prop :=
  ∃ ts t, c.rest = c.current :: ts ++ t :: c'.rest ∧ c.current.kind = .symbol .leftParen ∧
    t.kind = .symbol .rightParen ∧ Balanced ts ∧
    skipped = ⟨⟨c.current.span.start, t.span.stop⟩, ts.countP (·.isSymbol .question)⟩ ∧
    c'.lastEnd = t.span.stop

theorem Stands.skipParentheses {s : TokenStream} {k : Nat} {c c' : Cursor} {skipped : Skipped}
    (h : Stands s k c) (hends : s.Ends) (hy : Yields Cursor.skipParentheses c skipped c') :
    Parenthesized c skipped c' := by
  obtain ⟨opening, c₁, hopen, hy⟩ := yields_bind.1 hy
  obtain ⟨rfl, hkind, hnext⟩ := accept_yields hopen
  obtain ⟨hs₁, hrest⟩ := h.step hends (by rw [Token.isEnd, hkind]; rfl) hnext
  have hfirst : Inside s k c 1 0 c₁ := .opened hs₁ hrest .nil
  refine repeatStep_yields (fun x c' => Inside s k c x.1 x.2 c') (Parenthesized c) ?_ hfirst hy
  rintro ⟨depth, placeholders⟩ c₂ round c₃ hinside hround
  rcases yields_ite.1 hround with ⟨rfl, hround⟩ | ⟨hdepth, hround⟩
  · obtain ⟨_, _, hget, hround⟩ := yields_bind.1 hround
    obtain ⟨rfl, rfl⟩ := yields_get.1 hget
    obtain ⟨rfl, rfl⟩ := yields_pure.1 hround
    cases hinside with
    | @closed ts t _ hrest hright hts hstop =>
        exact ⟨ts, t, hrest, hkind, hright, hts, by rw [hstop]; rfl, hstop⟩
  · obtain ⟨n, rfl⟩ := Nat.exists_eq_succ_of_ne_zero hdepth
    obtain ⟨_, _, hget, hround⟩ := yields_bind.1 hround
    obtain ⟨rfl, rfl⟩ := yields_get.1 hget
    split at hround
    · cases hround
    · rename_i hleft
      obtain ⟨_, hn, rfl⟩ := yields_map.1 (Counter.bind_up hround)
      have hmore := hinside.more hends (by rw [Token.isEnd, hleft]; rfl) hn fun ts hts =>
        hts.opening hleft
      simpa [Token.isSymbol, hleft] using hmore
    · rename_i hright
      obtain ⟨_, hn, rfl⟩ := yields_map.1 (Counter.bind_down hround)
      cases n with
      | zero => exact hinside.close hends hright hn
      | succ n =>
          have hmore := hinside.more hends (by rw [Token.isEnd, hright]; rfl) hn fun ts hts =>
            hts.closing hright
          simpa [Token.isSymbol, hright] using hmore
    · rename_i hquestion
      obtain ⟨_, hn, rfl⟩ := yields_map.1 (Counter.bind_up hround)
      have hmore := hinside.more hends (by rw [Token.isEnd, hquestion]; rfl) hn fun ts hts =>
        hts.flat (by rw [Token.isParenthesis, Token.isSymbol, Token.isSymbol, hquestion]; rfl)
      simpa [Token.isSymbol, hquestion] using hmore
    · rename_i hend hleft hright hquestion
      obtain ⟨_, hn, rfl⟩ := yields_map.1 hround
      have hmore := hinside.more hends (Token.isEnd_eq_false.2 hend) hn fun ts hts =>
        hts.flat (Token.isParenthesis_of_isFlat (Kind.isFlat_of hend hleft hright))
      have hplain : c₂.current.isSymbol .question = false := beq_false_of_ne hquestion
      simpa [hplain] using hmore

/-! ## Runs -/

/-- Whether the call tries to move on and fails because of the text. -/
def Call.fails (call : Call) (c : Cursor) : Bool :=
  match call.run c with
  | .ok _ _ => false
  | .error f _ => f.isLexical && !call.isPeek

/-- Whether one of the calls, made one after the other, fails because of the text. -/
def tried : List Call → Cursor → Bool
  | [], _ => false
  | call :: calls, c => call.fails c || tried calls (call.after c)

/-- The number of tokens of a stream that the cursor has left behind. -/
def place (s : TokenStream) (c : Cursor) : Nat := s.tokens.length - c.rest.length

namespace Stands

variable {s : TokenStream} {k : Nat} {c : Cursor}

theorem place_eq (h : Stands s k c) : place s c = k := by
  have hlt := h.lt_length
  rw [place, ← h.rest, List.length_drop]
  omega

/-- What a call leaves: the stream is the same, or, if the call failed because of the text,
the last token is reached and the stream is the one of a second try. -/
theorem call_after (h : Stands s k c) (call : Call) :
    ∃ k', k ≤ k' ∧ Stands (s.retried (call.fails c)) k' (call.after c) ∧
      (call.fails c = true → k' + 1 = s.tokens.length ∧ s.failure ≠ none) := by
  cases hpeek : call.isPeek with
  | true =>
      cases call with
      | peekNth n =>
          have hfails : (Call.peekNth n).fails c = false := by
            unfold Call.fails
            split
            · rfl
            · exact Bool.and_false _
          rw [hfails, peekNth_after]
          exact ⟨k, Nat.le_refl k, h, nofun⟩
      | _ => cases hpeek
  | false =>
      rcases h.call hpeek with ⟨k', hk, h', hlexical⟩ | ⟨k', f, hk, hlast, hf, hrun, h'⟩
      · have hfails : call.fails c = false := by
          unfold Call.fails
          split
          · rfl
          · rename_i f c' herror
            rw [hlexical f c' herror, Bool.false_and]
        rw [hfails]
        exact ⟨k', hk, h', nofun⟩
      · have hfails : call.fails c = true := by
          rw [Call.fails, hrun]
          simp [hpeek]
        rw [hfails]
        exact ⟨k', hk, h', fun _ => ⟨hlast, by simp [hf]⟩⟩

/-- What a run of calls leaves. -/
theorem after (h : Stands s k c) (calls : List Call) :
    ∃ k', k ≤ k' ∧ Stands (s.retried (tried calls c)) k' (Cursor.after calls c) ∧
      (tried calls c = true → k' + 1 = s.tokens.length ∧ s.failure ≠ none) := by
  induction calls generalizing s k c with
  | nil => exact ⟨k, Nat.le_refl k, h, nofun⟩
  | cons call calls ih =>
      obtain ⟨k₁, hk₁, h₁, hfails⟩ := h.call_after call
      obtain ⟨k₂, hk₂, h₂, htried⟩ := ih h₁
      rw [TokenStream.retried_retried] at h₂
      refine ⟨k₂, Nat.le_trans hk₁ hk₂, h₂, fun heither => ?_⟩
      rcases Bool.or_eq_true_iff.1 heither with hnow | hlater
      · -- Behind the last token there is nowhere to go.
        obtain ⟨hlast, hfailure⟩ := hfails hnow
        have hlt := h₂.lt_length
        rw [TokenStream.tokens_retried] at hlt
        exact ⟨by omega, hfailure⟩
      · obtain ⟨hlast, hfailure⟩ := htried hlater
        rw [TokenStream.tokens_retried] at hlast
        refine ⟨hlast, fun hnone => hfailure ?_⟩
        cases call.fails c with
        | false => exact hnone
        | true => rw [TokenStream.retried_true, hnone]; rfl

end Stands

/-! ### Reading on from what a call left -/

section Followed

variable {d : Dialect} {source : List Char} {c c' : Cursor}

theorem followed_passes (h : Bytewise.Followed d source c) (hp : Passes c c') :
    Bytewise.Followed d source c' := by
  induction hp with
  | refl => exact h
  | tail _ hn ih => exact ih.next (.inl ⟨_, hn⟩)

theorem followed_call (h : Bytewise.Followed d source c) (call : Call) :
    Bytewise.Followed d source (call.after c) := by
  cases hpeek : call.isPeek with
  | true =>
      cases call with
      | peekNth n => rwa [peekNth_after]
      | _ => cases hpeek
  | false =>
      have hstride := Call.strides hpeek c
      unfold Call.after
      generalize call.run c = result at hstride
      cases hstride with
      | ok hp => exact followed_passes h hp
      | fails hp hn => exact (followed_passes h hp).next (.inr ⟨_, hn⟩)
      | stops hp _ => exact followed_passes h hp

/-- A reader of bytes follows a cursor through a run of calls. -/
theorem followed_after (h : Bytewise.Followed d source c) (calls : List Call) :
    Bytewise.Followed d source (after calls c) := by
  induction calls generalizing c with
  | nil => exact h
  | cons call calls ih => exact ih (followed_call h call)

end Followed

/-! ### The whole run -/

/-- What a caller finds at a cursor on the token `k` of a stream. -/
structure Serves (s : TokenStream) (k : Nat) (c : Cursor) : Prop where
  current : s.tokens[k]? = some c.current
  /-- The token `n` places ahead, -/
  peekNth : ∀ n t, s.tokens[k + n]? = some t → Cursor.peekNth n c = .ok t c
  /-- or the end of the input, where the stream ends before, -/
  peekNth_end : ∀ n, s.tokens.length ≤ k + n → s.failure = none →
    ∃ e, e.isEnd = true ∧ s.tokens.getLast? = some e ∧ Cursor.peekNth n c = .ok e c
  /-- or its fault. -/
  peekNth_fault : ∀ n f, s.tokens.length ≤ k + n → s.failure = some f →
    Cursor.peekNth n c = .error f.toFault c
  accept : ∀ kind, c.current.kind ≠ kind →
    Cursor.accept kind c = .error (c.unexpected kind.describe) c
  skipParentheses : ∀ skipped c', Cursor.skipParentheses c = .ok skipped c' →
    Parenthesized c skipped c'
  /-- A call that fails because of the text has got to the last token and meets the fault. -/
  fault : ∀ (call : Call) f c', call.isPeek = false → call.run c = .error f c' →
    f.isLexical = true →
    ∃ e, s.failure = some e ∧ f = e.toFault ∧ s.tokens.getLast? = some c'.current

theorem Stands.serves {s : TokenStream} {k : Nat} {c : Cursor} (h : Stands s k c)
    (hends : s.Ends) : Serves s k c where
  current := h.current
  peekNth n t ht := by rw [Cursor.peekNth, (h.lookAhead hends n).1 t ht]
  peekNth_end n hbeyond hnone := by
    obtain ⟨e, he, hlast, hahead⟩ := (h.lookAhead hends n).2.1 hbeyond hnone
    exact ⟨e, he, hlast, by rw [Cursor.peekNth, hahead]⟩
  peekNth_fault n f hbeyond hf := by rw [Cursor.peekNth, (h.lookAhead hends n).2.2 hbeyond f hf]
  accept kind hkind := by
    show (if c.current.kind = kind then _ else failExpected kind.describe : Action Token) c = _
    rw [if_neg hkind]
    rfl
  skipParentheses _ _ hskip := h.skipParentheses hends hskip
  fault call f c' hpeek hrun hlexical := by
    rcases h.call hpeek with ⟨_, -, -, hother⟩ | ⟨k', e, -, hlast, he, hrun', h'⟩
    · rw [hother f c' hrun] at hlexical
      cases hlexical
    · obtain ⟨rfl, hc'⟩ := EStateM.Result.error.inj (hrun.symm.trans hrun')
      refine ⟨e, he, rfl, ?_⟩
      have hcurrent := h'.current
      rw [TokenStream.tokens_retried] at hcurrent
      rw [hc', List.getLast?_eq_getElem?, ← hlast, Nat.add_sub_cancel, hcurrent]

/-- On the last token, in front of a fault, the cursor stays whatever is called, and meets the
fault that a second try meets. -/
theorem Stands.stuck {s : TokenStream} {k : Nat} {c : Cursor} {e : LexicalFault}
    (h : Stands (s.retried true) k c) (hlast : k + 1 = s.tokens.length) (he : s.failure = some e)
    (more : List Call) : (Cursor.after more c).current = c.current ∧
      ∃ c', Cursor.next (Cursor.after more c) = .error e.repeated.toFault c' := by
  obtain ⟨k', hk, h', -⟩ := h.after more
  rw [TokenStream.retried_retried, Bool.true_or] at h'
  have hfault : (s.retried true).failure = some e.repeated := by
    rw [TokenStream.retried_true, he]
    rfl
  have hlt := h'.lt_length
  have hcurrent := h.current
  have hcurrent' := h'.current
  rw [TokenStream.tokens_retried] at hlt hcurrent hcurrent'
  obtain rfl : k' = k := by omega
  refine ⟨Option.some.inj (hcurrent'.symm.trans hcurrent), ?_⟩
  rcases h'.next with ⟨_, -, hs⟩ | ⟨-, hnone, -⟩ | ⟨-, f, c', hf, herror, -⟩
  · have hbeyond := hs.lt_length
    rw [TokenStream.tokens_retried] at hbeyond
    omega
  · cases hnone.symm.trans hfault
  · obtain rfl := Option.some.inj (hf.symm.trans hfault)
    exact ⟨c', herror⟩

/-- Whatever a caller does with the cursor of a statement, it finds the stream of the statement
there, and never gets back to an earlier token. Once a call has failed because of the text,
the current token stays, and every further try fails with the fault that a second try
meets, which is the first fault unless an open hint stands behind a comment. -/
theorem serves_after {d : Dialect} {source : List Char} {c₀ : Cursor}
    (h : ofText d source = .ok c₀) (calls : List Call) :
    let s := TokenStream.ofText d source
    let c := after calls c₀
    Serves (s.retried (tried calls c₀)) (place s c) c ∧
      (∀ more, place s c ≤ place s (after more c)) ∧
      (tried calls c₀ = true → ∃ e, s.failure = some e ∧ ∀ more,
        (after more c).current = c.current ∧
          ∃ c', Cursor.next (after more c) = .error e.repeated.toFault c') ∧
      (∀ e, s.failure = some e → e.Lasts d) ∧
      ∃ n, (Bytewise.reader d source n).current = c.current ∧ Bytewise.Same d source
        (Cursor.next c) (Bytewise.advance d source (Bytewise.reader d source n)) := by
  have hends := TokenStream.ends_ofText d source
  obtain ⟨k, -, hk, htried⟩ := (Stands.of_ofText h).after calls
  have hplace : ∀ {tried k c}, Stands ((TokenStream.ofText d source).retried tried) k c →
      place (TokenStream.ofText d source) c = k := fun hs => by
    have := hs.place_eq
    rwa [place, TokenStream.tokens_retried] at this
  refine ⟨?_, fun more => ?_, fun hfailed => ?_, fun e he => TokenStream.lasts_ofText he, ?_⟩
  · rw [hplace hk]
    exact hk.serves (hends.retried _)
  · obtain ⟨k', hle, hk', -⟩ := hk.after more
    rw [TokenStream.retried_retried] at hk'
    rw [hplace hk, hplace hk']
    exact hle
  · obtain ⟨hlast, hfailure⟩ := htried hfailed
    obtain ⟨e, he⟩ := Option.ne_none_iff_exists'.1 hfailure
    rw [hfailed] at hk
    exact ⟨e, he, hk.stuck hlast he⟩
  · obtain ⟨hfits, n, hmeets⟩ := followed_after (Bytewise.followed_ofText h) calls
    exact ⟨n, hmeets.current_eq, hmeets.next hfits⟩

/-- A run over parentheses that is refused, looks ahead and fails twice at an open hint. -/
theorem serves_after_openHint :
    let calls : List Call := [.accept .chars, .next, .skipParentheses, .next, .peekNth 1, .next]
    ∃ c₀, ofText .mysql "f (?, (?)) a /* c */ /*! x".toList = .ok c₀ ∧ tried calls c₀ = true ∧
      Serves ((TokenStream.ofText .mysql "f (?, (?)) a /* c */ /*! x".toList).retried true)
        (place (TokenStream.ofText .mysql "f (?, (?)) a /* c */ /*! x".toList) (after calls c₀))
        (after calls c₀) ∧
      ∃ e, (TokenStream.ofText .mysql "f (?, (?)) a /* c */ /*! x".toList).failure = some e ∧
        ∀ more, (after more (after calls c₀)).current = (after calls c₀).current ∧
          ∃ c', Cursor.next (after more (after calls c₀)) = .error e.repeated.toFault c' := by
  intro calls
  obtain ⟨c₀, h, htried⟩ : ∃ c₀,
      ofText .mysql "f (?, (?)) a /* c */ /*! x".toList = .ok c₀ ∧ tried calls c₀ = true :=
    exists_of_any (by decide +kernel)
  obtain ⟨hserves, -, hstuck, -⟩ := serves_after h calls
  rw [htried] at hserves
  exact ⟨c₀, h, htried, hserves, hstuck htried⟩

/-- A second try to get past an open hint behind a comment fails with another fault. -/
theorem unsteady_openHint : ∃ c₀ c₁ c₂,
    ofText .mysql "a /* c */ /*! x".toList = .ok c₀ ∧
      Cursor.next c₀ = .error (.lexical 10 .unterminatedComment) c₁ ∧
      Cursor.next c₁ = .error (.lexical 10 .unterminatedHint) c₂ := by
  obtain ⟨c₀, h, hc₀⟩ : ∃ c₀, ofText .mysql "a /* c */ /*! x".toList = .ok c₀ ∧
      c₀ = ⟨⟨.identifier, "a", ⟨0, 1⟩⟩, [],
        some ⟨10, 10, .unterminatedComment, .unterminatedHint⟩, 0⟩ :=
    exists_of_any (by decide +kernel)
  subst hc₀
  exact ⟨_, _, _, h, rfl, rfl⟩

end Cursor

end SqlMarkers
