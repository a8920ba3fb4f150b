/-
SqlMarkers.Proofs.Partition — tokens and gaps divide a text.

A text that has tokens is a first gap, a first token, a second gap, a second
token, and so on up to a last gap (`Partition`). The gaps are those of the
grammar in `SqlMarkers.Proofs.Gaps`, so no character is skipped that is not
a space character or part of a comment or hint, and none belongs to two
tokens. `partition_of_tokenize` says so for every text and dialect.

One step of the reader splits off a gap and a token
(`TokenStream.step_token`, `TokenStream.step_finished`); the induction over the
steps is `TokenStream.partition_readFrom`.
-/
import SqlMarkers.Proofs.Markers

namespace SqlMarkers

/-- A token and the gap in front of it. -/
structure Spaced where
  gap : List Char
  token : Token

/-- The text of gaps and tokens in turn, up to and including a last gap. -/
def Spaced.text (xs : List Spaced) (last : List Char) : List Char :=
  xs.flatMap (fun x => x.gap ++ x.token.text.toList) ++ last

@[simp] theorem Spaced.text_nil (last : List Char) : Spaced.text [] last = last := rfl

@[simp] theorem Spaced.text_cons (x : Spaced) (xs : List Spaced) (last : List Char) :
    Spaced.text (x :: xs) last = x.gap ++ (x.token.text.toList ++ Spaced.text xs last) := by
  simp [Spaced.text]

/-- The text `cs`, whose first byte has the number `offset`, is divided into the gaps and
tokens `xs` and a last gap, and its tokens are those of `xs` and an end of the input. -/
structure Partition (d : Dialect) (offset : Nat) (cs : List Char) (tokens : List Token)
    (xs : List Spaced) (last : List Char) : Prop where
  /-- Nothing but gaps and tokens makes up the text. -/
  whole : Spaced.text xs last = cs
  gaps : ∀ x ∈ xs, Gap.Closed d x.gap
  lastGap : Gap.Final d last
  /-- The end of the input is the last token and stands behind the text. -/
  tokens_eq : tokens = xs.map Spaced.token ++
    [⟨.endOfInput, "", ⟨offset + Text.width cs, offset + Text.width cs⟩⟩]
  /-- No token before it is an end of the input or empty. -/
  proper : ∀ x ∈ xs, x.token.kind ≠ .endOfInput ∧ x.token.text ≠ ""
  /-- The span of a token is where it stands in the text. -/
  placed : ∀ front x behind, xs = front ++ x :: behind →
    x.token.span = ⟨offset + Text.width (Spaced.text front x.gap),
      offset + Text.width (Spaced.text front x.gap) + Text.width x.token.text.toList⟩

namespace Partition

variable {d : Dialect} {offset : Nat}

/-- A text that is one gap. -/
theorem nil {cs : List Char} (h : Gap.Final d cs) :
    Partition d offset cs [⟨.endOfInput, "", ⟨offset + Text.width cs, offset + Text.width cs⟩⟩]
      [] cs where
  whole := rfl
  gaps := by simp
  lastGap := h
  tokens_eq := rfl
  proper := by simp
  placed := by simp

/-- One more gap and token in front. -/
theorem cons {gap : List Char} {l : Lexeme} {tokens : List Token} {xs : List Spaced}
    {last : List Char} (hgap : Gap.Closed d gap) (hkind : l.kind ≠ .endOfInput)
    (htext : l.text ≠ [])
    (h : Partition d (offset + Text.width gap + Text.width l.text) l.rest tokens xs last) :
    Partition d offset (gap ++ (l.text ++ l.rest))
      (TokenStream.tokenAt (offset + Text.width gap) l :: tokens)
      (⟨gap, TokenStream.tokenAt (offset + Text.width gap) l⟩ :: xs) last where
  whole := by simp [TokenStream.tokenAt, h.whole]
  gaps := by
    intro x hx
    rcases List.mem_cons.1 hx with rfl | hx
    · exact hgap
    · exact h.gaps x hx
  lastGap := h.lastGap
  tokens_eq := by
    rw [h.tokens_eq]
    simp [Nat.add_assoc]
  proper := by
    intro x hx
    rcases List.mem_cons.1 hx with rfl | hx
    · exact ⟨hkind, by simpa [TokenStream.tokenAt] using htext⟩
    · exact h.proper x hx
  placed := by
    intro front x behind hxs
    cases front with
    | nil =>
        obtain ⟨rfl, -⟩ := List.cons.inj hxs
        simp [TokenStream.tokenAt]
    | cons y front =>
        obtain ⟨rfl, hrest⟩ := List.cons.inj hxs
        rw [h.placed front x behind hrest]
        simp [TokenStream.tokenAt, Nat.add_assoc]

end Partition

namespace TokenStream

/-- A text without lexical fault is divided into gaps and tokens. -/
theorem partition_readFrom (d : Dialect) (fuel offset : Nat) (previous : Option Lexeme)
    (cs : List Char) (h : (readFrom d fuel offset previous cs).failure = none) :
    ∃ xs last, Partition d offset cs (readFrom d fuel offset previous cs).tokens xs last := by
  induction fuel generalizing offset previous cs with
  | zero => cases h
  | succ fuel ih =>
      rw [readFrom] at h ⊢
      split at h
      · rename_i stop hstep
        obtain ⟨rfl, hfinal⟩ := step_finished hstep
        exact ⟨[], cs, .nil hfinal⟩
      · cases h
      · rename_i start l hstep
        obtain ⟨gap, rfl, rfl, htext, hkind, hgap⟩ := step_token hstep
        obtain ⟨xs, last, hrest⟩ := ih _ _ _ h
        exact ⟨_, last, hrest.cons hgap hkind htext⟩

end TokenStream

/-- A text that has tokens is made of them and of gaps, and the text at the span of a
token is the text of the token. -/
theorem partition_of_tokenize {d : Dialect} {source : String} {tokens : List Token}
    (h : tokenize d source = .ok tokens) :
    (∃ xs last, Partition d 0 source.toList tokens xs last) ∧
      (∀ t ∈ tokens, t.span.slice? source.toList = some t.text.toList) ∧
      tokens.Pairwise fun a b => a.span.stop ≤ b.span.start := by
  have hlaid := TokenStream.laid_ofText d source.toList
  unfold tokenize at h
  dsimp only at h
  split at h
  · rename_i hfailure
    cases h
    refine ⟨?_, fun t ht => ?_, hlaid.pairwise⟩
    · rw [TokenStream.ofText] at hfailure ⊢
      split
      · rename_i hfits
        rw [if_pos hfits] at hfailure
        exact TokenStream.partition_readFrom d _ 0 none source.toList hfailure
      · rename_i hfits
        rw [if_neg hfits] at hfailure
        cases hfailure
    · obtain ⟨before, after, hsource, hspan, -⟩ := hlaid.mem ht
      rw [Span.slice?, hspan, Nat.zero_add, ← hsource]
      exact Text.slice?_width_append before t.text.toList after
  · cases h

/-- A name, a hint, both kinds of comment, and a comment that the text ends in. -/
theorem partition_mysql : ∃ tokens,
    tokenize .mysql "né/*!h*/ -- c\n'ü'/* d */# e" = .ok tokens ∧
      tokens.map Token.text = ["né", "'ü'", ""] ∧
      (∃ xs last, Partition .mysql 0 "né/*!h*/ -- c\n'ü'/* d */# e".toList tokens xs last) ∧
      (∀ t ∈ tokens,
        t.span.slice? "né/*!h*/ -- c\n'ü'/* d */# e".toList = some t.text.toList) ∧
      tokens.Pairwise fun a b => a.span.stop ≤ b.span.start := by
  obtain ⟨tokens, h, htexts⟩ : ∃ tokens,
      tokenize .mysql "né/*!h*/ -- c\n'ü'/* d */# e" = .ok tokens ∧
        tokens.map Token.text = ["né", "'ü'", ""] :=
    exists_of_any (by decide +kernel)
  exact ⟨tokens, h, htexts, partition_of_tokenize h⟩

end SqlMarkers
