/-
SqlMarkers.Proofs.Outcomes — what the outcome of parsing tells about a text.

Parsing reads the tokens of a text one by one, looks ahead and sometimes goes
back; taking the tokens apart first would give the same ones. So the two agree
on which texts have tokens (`lexicallyAgrees_parse`): a text that is parsed has
tokens, a lexical error of the parser is the one of the tokenizer, and a grammar
error points at a token in front of the place where the tokens end.

In a tree that is parsed everything sits where it is written (`sits_of_parse`).
-/
import SqlMarkers.Proofs.Landing.Statement
import SqlMarkers.Proofs.Markers

namespace SqlMarkers

/-! ## Tokens and lexical faults -/

namespace TokenStream

/-- A step that fails points behind what was read before. -/
theorem offset_le_of_step {d : Dialect} {offset : Nat} {previous : Option Lexeme} {cs : List Char}
    {f : LexicalFault} (h : step d offset previous cs = .failed f) : offset ≤ f.offset := by
  unfold step at h
  split at h
  · cases h
    exact Nat.le_add_right _ _
  · cases h
  · split at h
    · cases h
    · cases h
      exact Nat.le_trans (Nat.le_add_right _ _) (Nat.le_add_right _ _)

theorem offset_le_readFrom (d : Dialect) (fuel offset : Nat) (previous : Option Lexeme)
    (cs : List Char) {f : LexicalFault} (hf : (readFrom d fuel offset previous cs).failure = some f) :
    offset ≤ f.offset ∧
      ∀ t ∈ (readFrom d fuel offset previous cs).tokens, t.span.stop ≤ f.offset := by
  induction fuel generalizing offset previous cs with
  | zero =>
      rw [readFrom] at hf ⊢
      cases hf
      exact ⟨Nat.le_refl _, by simp⟩
  | succ fuel ih =>
      rw [readFrom] at hf ⊢
      split at hf
      · cases hf
      · rename_i fault hstep
        cases hf
        exact ⟨offset_le_of_step hstep, by simp⟩
      · rename_i start l hstep
        obtain ⟨gap, -, rfl, -⟩ := step_token hstep
        obtain ⟨hoffset, htokens⟩ := ih _ _ _ hf
        refine ⟨by omega, fun t ht => ?_⟩
        rcases List.mem_cons.1 ht with rfl | ht
        · exact hoffset
        · exact htokens t ht

/-- The tokens of a text stand in front of its lexical fault. -/
theorem stop_le_offset {d : Dialect} {source : List Char} {f : LexicalFault} {t : Token}
    (hf : (ofText d source).failure = some f) (ht : t ∈ (ofText d source).tokens) :
    t.span.stop ≤ f.offset := by
  rw [ofText] at hf ht
  split at hf
  · rename_i hfits
    rw [if_pos hfits] at ht
    exact (offset_le_readFrom d _ 0 none source hf).2 t ht
  · rename_i hfits
    rw [if_neg hfits] at ht
    cases ht

end TokenStream

/-! ## Agreement on tokens -/

/-- What an outcome of parsing a text says about its tokens. -/
def LexicallyAgrees (d : Dialect) (source : String) : Except Failure Parsed → Prop
  | .ok _ => ∃ tokens, tokenize d source = .ok tokens
  | .error (.error e) =>
      match e.kind with
      | .lexical => tokenize d source = .error e
      | .grammar => ∃ t ∈ (TokenStream.ofText d source.toList).tokens, t.span.start = e.offset ∧
          ∀ e', tokenize d source = .error e' → t.span.stop ≤ e'.offset
  | .error .undecodable => ∃ t ∈ (TokenStream.ofText d source.toList).tokens, t.name? = none

theorem tokenize_of_failure {d : Dialect} {source : String} {f : LexicalFault}
    (h : (TokenStream.ofText d source.toList).failure = some f) :
    tokenize d source = .error (Error.locate .lexical source.toList f.offset f.cause.detail) := by
  simp only [tokenize, h]

theorem exists_of_tokenize {d : Dialect} {source : String} {e : Error}
    (h : tokenize d source = .error e) :
    ∃ f, (TokenStream.ofText d source.toList).failure = some f ∧ e.offset = f.offset := by
  simp only [tokenize] at h
  split at h
  · cases h
  · rename_i f hf
    cases h
    exact ⟨f, hf, rfl⟩

/-- The outcome of parsing agrees with the tokens of the text. -/
theorem lexicallyAgrees_parse (config : Config) (catalogue : Catalogue) (source : String) :
    LexicallyAgrees config.dialect source (parse config catalogue source) := by
  have hrun := (config.setting catalogue source).run_lands
  cases hread : (config.setting catalogue source).run with
  | ok result =>
      obtain ⟨st, r⟩ := result
      rw [hread] at hrun
      rw [parse_of_run hread]
      have hfailure : (TokenStream.ofText config.dialect source.toList).failure = none := hrun.1
      exact ⟨(TokenStream.ofText config.dialect source.toList).tokens,
        by simp only [tokenize, hfailure]⟩
  | error f =>
      rw [hread] at hrun
      rw [parse_of_error hread]
      cases f with
      | lexical offset cause =>
          obtain ⟨fault, hfault, rfl, rfl⟩ := hrun
          exact tokenize_of_failure hfault
      | grammar offset cause =>
          obtain ⟨t, ht, rfl⟩ := hrun
          refine ⟨t, ht, rfl, fun e' he' => ?_⟩
          obtain ⟨fault, hfault, hoffset⟩ := exists_of_tokenize he'
          rw [hoffset]
          exact TokenStream.stop_le_offset hfault ht
      | undecodable => exact hrun
      | overflow | stalled => exact hrun.elim

/-! ## Places of a tree -/

/-- In a statement that is parsed everything sits where it is written. -/
theorem sits_of_parse {config : Config} {catalogue : Catalogue} {source : String} {p : Parsed}
    (h : parse config catalogue source = .ok p) :
    ∃ tokens, tokenize config.dialect source = .ok tokens ∧
      p.statement.Sits ⟨source.toList, tokens, config.dialect.features.backslashEscapes⟩ := by
  obtain ⟨-, -, r, hread⟩ := parse_ok h
  have hrun := (config.setting catalogue source).run_lands
  rw [hread] at hrun
  have hfailure : (TokenStream.ofText config.dialect source.toList).failure = none := hrun.1
  refine ⟨(TokenStream.ofText config.dialect source.toList).tokens, ?_, hrun.2⟩
  simp only [tokenize, hfailure]

/-- Kept source text, a string, a member, a nested query and a list of values. -/
theorem sits_select : ∃ p,
    parse {} Catalogue.everyName
      "SELECT t.a, b + 1 FROM t WHERE (c = 'x' OR d IN (1, ?)) AND EXISTS (SELECT * FROM u)" =
        .ok p ∧ ∃ tokens, tokenize .standard
      "SELECT t.a, b + 1 FROM t WHERE (c = 'x' OR d IN (1, ?)) AND EXISTS (SELECT * FROM u)" =
        .ok tokens ∧ p.statement.Sits ⟨
      "SELECT t.a, b + 1 FROM t WHERE (c = 'x' OR d IN (1, ?)) AND EXISTS (SELECT * FROM u)".toList,
          tokens, false⟩ := by
  obtain ⟨p, h, -⟩ : ∃ p, parse {} Catalogue.everyName
      "SELECT t.a, b + 1 FROM t WHERE (c = 'x' OR d IN (1, ?)) AND EXISTS (SELECT * FROM u)" =
        .ok p ∧ True :=
    exists_of_any (by decide +kernel)
  exact ⟨p, h, sits_of_parse h⟩

end SqlMarkers
