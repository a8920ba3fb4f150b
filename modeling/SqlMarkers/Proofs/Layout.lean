/-
SqlMarkers.Proofs.Layout — where the tokens of a statement stand in its text.

Every reader of `SqlMarkers.Lexeme` splits its text: what it takes for the
token, followed by what it leaves over, is the text it was given, and it
takes at least one character (`Lexeme.read_splits`). `Gap.skip` splits in the
same way (`Gap.skip_gap`). Stepping through a statement therefore lays its
tokens out one behind the other:

* `Laid offset cs ts` says that the tokens `ts` stand in the text `cs`, whose
  first byte has the number `offset`, in this order and without overlap;
* `TokenStream.laid_ofText` says that the tokens of a statement are laid out
  in it;
* `TokenStream.ends_ofText` says that the stream of a statement without
  lexical fault ends with the end-of-input token and has no other one.

What the gaps between the tokens hold is said by `TokenStream.step_token` and
`TokenStream.step_finished`; `Laid` leaves it out.
-/
import SqlMarkers.Proofs.Gaps
import SqlMarkers.TokenStream

namespace SqlMarkers

/-! ## Cuts of a text -/

namespace Text

/-- A slice that stands between two parts of a text. -/
theorem slice?_width_append (as bs cs : List Char) :
    slice? (width as) (width as + width bs) (as ++ (bs ++ cs)) = some bs := by
  rw [slice?, if_pos (Nat.le_add_right _ _), dropWidth?_width_append, Nat.add_sub_cancel_left]
  exact takeWidth?_width_append bs cs

theorem foldl_utf8Size (cs : List Char) (n : Nat) :
    cs.foldl (fun n c => n + c.utf8Size) n = n + width cs := by
  induction cs generalizing n with
  | nil => rfl
  | cons c cs ih => rw [List.foldl_cons, ih, width_cons, Nat.add_assoc]

theorem width_pos {cs : List Char} (h : cs ≠ []) : 0 < width cs := by
  cases cs with
  | nil => exact absurd rfl h
  | cons c cs =>
      have := c.utf8Size_pos
      rw [width_cons]
      omega

end Text

theorem Span.fits_iff (source : List Char) :
    Span.fits source = true ↔ Text.width source ≤ Span.limit := by
  rw [Span.fits, decide_eq_true_iff, Text.foldl_utf8Size, Nat.zero_add]

/-! ## Lexemes -/

namespace Lexeme

open CharClass

/-- The lexeme takes a part of `cs` that is not empty and leaves the rest. -/
structure Splits (cs : List Char) (l : Lexeme) : Prop where
  whole : l.text ++ l.rest = cs
  nonempty : l.text ≠ []
  kind_ne : l.kind ≠ .endOfInput

/-- A reader of lexemes that splits every text it reads a token from. -/
def Splitting (read : List Char → Except Slip Lexeme) : Prop :=
  ∀ {cs l}, read cs = .ok l → Splits cs l

theorem append_of_close? {quote : Char} {escapes : Bool} {cs body rest : List Char}
    (h : close? quote escapes cs = some (body, rest)) : body ++ rest = cs := by
  fun_induction close? quote escapes cs generalizing body rest with
  | case1 => simp at h
  | case2 c hc => simp_all
  | case3 c hc => simp_all
  | case4 c d cs hc ih =>
      simp only [Option.map_eq_some_iff, Prod.mk.injEq, Prod.exists] at h
      obtain ⟨body', rest', h', rfl, rfl⟩ := h
      rw [List.cons_append, List.cons_append, ih h']
  | case5 c d cs hc hq hd ih =>
      simp only [Option.map_eq_some_iff, Prod.mk.injEq, Prod.exists] at h
      obtain ⟨body', rest', h', rfl, rfl⟩ := h
      rw [List.cons_append, List.cons_append, ih h']
  | case6 c d cs hc hq hd =>
      simp only [Option.some.injEq, Prod.mk.injEq] at h
      obtain ⟨rfl, rfl⟩ := h
      rfl
  | case7 c d cs hc hq ih =>
      simp only [Option.map_eq_some_iff, Prod.mk.injEq, Prod.exists] at h
      obtain ⟨body', rest', h', rfl, rfl⟩ := h
      rw [List.cons_append, ih h']

theorem string_splits (d : Dialect) : Splitting (string d) := by
  intro cs l h
  unfold string at h
  split at h
  · simp [refuse] at h
  · rename_i quote cs
    split at h
    · rename_i body rest hclose
      cases h
      exact ⟨congrArg (quote :: ·) (append_of_close? hclose), by simp, by simp⟩
    · simp [refuse] at h

theorem nationalString_splits (d : Dialect) : Splitting (nationalString d) := by
  intro cs l h
  unfold nationalString at h
  split at h
  · simp at h
  · rename_i mark cs
    split at h
    · rename_i l' hstring
      cases h
      have hsplit := string_splits d hstring
      exact ⟨congrArg (mark :: ·) hsplit.whole, by simp, hsplit.kind_ne⟩
    · simp at h

theorem wordKind_ne (d : Dialect) (word rest : List Char) :
    wordKind d word rest ≠ .endOfInput := by
  unfold wordKind
  split
  · split <;> simp
  · split <;> simp
  · simp
  · simp

/-- A word is not empty where a word starts. -/
theorem word_splits (d : Dialect) {cs : List Char} (h : isWordStart (peek cs) = true) :
    Splits cs (word d cs) := by
  refine ⟨List.takeWhile_append_dropWhile, ?_, wordKind_ne d _ _⟩
  cases cs with
  | nil => exact absurd h (by decide)
  | cons c cs =>
      have hc : isWordChar c = true := by
        simp only [peek, List.headD_cons, isWordStart, isWordChar, Char.isAlphanum,
          Bool.or_eq_true] at h ⊢
        grind
      simp [word, hc]

theorem name_splits (d : Dialect) {cs : List Char} {l : Lexeme}
    (hstart : (isWordStart (peek cs) || peek cs == '\x60' ||
      (peek cs == '[' && d.features.bracketNames)) = true)
    (h : name d cs = .ok l) : Splits cs l := by
  unfold name at h
  split at h
  · have : (peek [] == '[') = false := by decide
    have : (isWordStart (peek []) || peek [] == '\x60') = false := by decide
    simp_all
  · rename_i c cs
    split at h
    · split at h
      · rename_i body rest hclose
        cases h
        exact ⟨congrArg (c :: ·) (append_of_close? hclose), by simp, by simp⟩
      · simp [refuse] at h
    · rename_i hquoted
      cases h
      refine word_splits d ?_
      simp only [peek, List.headD_cons, Bool.or_eq_true] at hstart hquoted ⊢
      grind

/-- Taking the character in front away and putting it back. -/
theorem cons_drop_of_peek {c : Char} {cs : List Char} (hc : c ≠ endMark) (h : peek cs = c) :
    c :: cs.drop 1 = cs := by
  cases cs with
  | nil => exact absurd h.symm hc
  | cons a cs => exact congrArg (· :: cs) h.symm

theorem cons_of_peek {c : Char} {cs : List Char} (hc : c ≠ endMark) (h : peek cs = c) :
    ∃ tail, cs = c :: tail :=
  ⟨cs.drop 1, (cons_drop_of_peek hc h).symm⟩

theorem optional_append {p : Bool} {c : Char} {cs : List Char} (hc : c ≠ endMark)
    (h : p = true → peek cs = c) :
    (if p then [c] else []) ++ cs.drop (if p then [c] else []).length = cs := by
  cases p with
  | false => rfl
  | true => exact cons_drop_of_peek hc (h rfl)

theorem sqlVariable_splits : Splitting sqlVariable := by
  intro cs l h
  unfold sqlVariable at h
  split at h
  · simp [refuse] at h
  · rename_i c cs
    extract_lets marks tail named body at h
    split at h
    · simp [refuse] at h
    · cases h
      have hmarks : marks ++ tail = cs := optional_append (by decide) (by simp)
      have hbody : body ++ tail.dropWhile named = tail := List.takeWhile_append_dropWhile
      refine ⟨?_, by simp, by simp⟩
      rw [List.append_assoc, hbody, List.cons_append, hmarks]

theorem hexadecimal_splits : Splitting hexadecimal := by
  intro cs l h
  unfold hexadecimal at h
  extract_lets tail sign digitsOn digits at h
  split at h
  · simp [refuse] at h
  · rename_i hdigits
    split at h
    · simp [refuse] at h
    · cases h
      have hsign : sign ++ digitsOn = tail := optional_append (by decide) (by simp)
      have hdigitsOn : digits ++ digitsOn.dropWhile isHexDigit = digitsOn :=
        List.takeWhile_append_dropWhile
      refine ⟨?_, by simp_all, by simp⟩
      rw [List.append_assoc, hdigitsOn, List.append_assoc, hsign, List.take_append_drop]

/-! ### Numbers -/

theorem fraction_leads (cs : List Char) : fraction cs <+: cs := by
  unfold fraction
  split
  · split
    · exact List.nil_prefix
    · exact (List.prefix_cons_inj _).2 (List.takeWhile_prefix _)
  · exact List.nil_prefix

theorem exponent_leads (cs : List Char) : exponent cs <+: cs := by
  unfold exponent
  split
  · exact List.nil_prefix
  · rename_i e cs
    split
    · extract_lets sign digits
      have hsign : sign ++ cs.drop sign.length = cs := by
        cases cs with
        | nil => rfl
        | cons s cs =>
            simp only [sign]
            split <;> rfl
      split
      · exact List.nil_prefix
      · refine (List.prefix_cons_inj _).2 ?_
        have hdigits : sign ++ digits <+: sign ++ cs.drop sign.length :=
          (List.prefix_append_right_inj sign).2 (List.takeWhile_prefix _)
        rwa [hsign] at hdigits
    · exact List.nil_prefix

theorem suffix_leads (cs : List Char) : suffix cs <+: cs := by
  unfold suffix
  split
  · exact List.nil_prefix
  · split
    · exact (List.prefix_cons_inj _).2 List.nil_prefix
    · exact List.nil_prefix

/-- A leading part and what is left after dropping its length. -/
theorem append_drop_of_leads {as cs : List Char} (h : as <+: cs) :
    as ++ cs.drop as.length = cs := by
  obtain ⟨bs, rfl⟩ := h
  rw [List.drop_left]

theorem number_splits : Splitting number := by
  intro cs l h
  unfold number at h
  extract_lets sign cs₁ whole cs₂ frac cs₃ expo cs₄ suff cs₅ text at h
  have htext : text ++ cs₅ = cs := by
    have hsuff : suff ++ cs₅ = cs₄ := append_drop_of_leads (suffix_leads cs₄)
    have hexpo : expo ++ cs₄ = cs₃ := append_drop_of_leads (exponent_leads cs₃)
    have hfrac : frac ++ cs₃ = cs₂ := append_drop_of_leads (fraction_leads cs₂)
    have hwhole : whole ++ cs₂ = cs₁ := List.takeWhile_append_dropWhile
    have hsign : sign ++ cs₁ = cs := optional_append (by decide) (by simp)
    simp only [text, List.append_assoc, hsuff, hexpo, hfrac, hwhole, hsign]
  split at h
  · split at h
    · simp [refuse] at h
    · rename_i hdecimal
      cases h
      refine ⟨htext, fun hnil => ?_, by simp⟩
      have htext' : text = [] := hnil
      rw [htext'] at hdecimal
      exact hdecimal (by decide)
  · rename_i hfloat
    cases h
    refine ⟨htext, fun hnil => hfloat ?_, by simp⟩
    simp only [text, List.append_eq_nil_iff] at hnil
    simp [hnil]

/-! ### Operators -/

theorem operatorWithin_splits (cs : List Char) (n : Nat) {l : Lexeme}
    (h : operatorWithin cs n = .ok l) : Splits cs l := by
  induction n with
  | zero => simp [operatorWithin, refuse] at h
  | succ n ih =>
      unfold operatorWithin at h
      split at h
      · rename_i s hs
        cases h
        refine ⟨List.take_append_drop _ _, fun hnil => ?_, by simp⟩
        have htake : cs.take (n + 1) = [] := hnil
        have hnone : Symbol.find? [] = none := by decide
        rw [htake, hnone] at hs
        cases hs
      · exact ih h

theorem operator_splits : Splitting operator := fun h => operatorWithin_splits _ _ h

/-- The text of a token, followed by what is left over, is the text it was
read from; and a token has a text. -/
theorem read_splits (d : Dialect) (b : Before) : Splitting (read d b) := by
  intro cs l h
  unfold read at h
  dsimp only at h
  split at h
  · exact sqlVariable_splits h
  · split at h
    · exact nationalString_splits d h
    · split at h
      · rename_i hname
        exact name_splits d hname h
      · split at h
        · exact hexadecimal_splits h
        · split at h
          · exact number_splits h
          · split at h
            · exact operator_splits h
            · split at h
              · exact string_splits d h
              · simp [refuse] at h

end Lexeme

/-! ## Tokens in a text -/

/-- The tokens `ts` stand in the text `cs` in this order, each behind the one
before. The first byte of `cs` has the number `offset`. -/
inductive Laid : Nat → List Char → List Token → Prop
  /-- Nothing is said about the text behind the last token. -/
  | done (offset : Nat) (cs : List Char) : Laid offset cs []
  | token {offset : Nat} {ts : List Token} (gap : List Char) (l : Lexeme) :
      (l.kind = .endOfInput ↔ l.text = []) →
      Laid (offset + Text.width gap + Text.width l.text) l.rest ts →
      Laid offset (gap ++ (l.text ++ l.rest))
        (TokenStream.tokenAt (offset + Text.width gap) l :: ts)

namespace Laid

variable {offset : Nat} {cs : List Char} {ts : List Token}

/-- A token stands at its span, which lies in the text, and only the end of the
input has no text. -/
theorem mem (h : Laid offset cs ts) {t : Token} (ht : t ∈ ts) :
    ∃ before after, before ++ (t.text.toList ++ after) = cs ∧
      t.span = ⟨offset + Text.width before,
        offset + Text.width before + Text.width t.text.toList⟩ ∧
      (t.kind = .endOfInput ↔ t.text.toList = []) := by
  induction h with
  | done => cases ht
  | @token offset ts gap l hkind _ ih =>
      rcases List.mem_cons.1 ht with rfl | ht
      · exact ⟨gap, l.rest, by simp [TokenStream.tokenAt], by simp [TokenStream.tokenAt],
          by simpa [TokenStream.tokenAt] using hkind⟩
      · obtain ⟨before, after, hcs, hspan, hk⟩ := ih ht
        refine ⟨gap ++ (l.text ++ before), after, by simp [← hcs], ?_, hk⟩
        rw [hspan, Text.width_append, Text.width_append]
        simp only [Nat.add_assoc]

theorem le_start (h : Laid offset cs ts) {t : Token} (ht : t ∈ ts) : offset ≤ t.span.start := by
  obtain ⟨before, after, -, hspan, -⟩ := h.mem ht
  rw [hspan]
  exact Nat.le_add_right _ _

/-- A token ends before the next one starts. -/
theorem pairwise (h : Laid offset cs ts) : ts.Pairwise fun a b => a.span.stop ≤ b.span.start := by
  induction h with
  | done => exact .nil
  | token gap l _ hrest ih =>
      refine List.pairwise_cons.2 ⟨fun b hb => ?_, ih⟩
      exact hrest.le_start hb

/-- Of two tokens, the one that starts first ends before the other one starts. -/
theorem stop_le_start (h : Laid offset cs ts) {t u : Token} (ht : t ∈ ts) (hu : u ∈ ts)
    (hlt : t.span.start < u.span.start) : t.span.stop ≤ u.span.start := by
  obtain ⟨before, after, -, hspan, -⟩ := h.mem hu
  have hupright : u.span.start ≤ u.span.stop := by
    rw [hspan]
    exact Nat.le_add_right _ _
  obtain ⟨i, hi, rfl⟩ := List.mem_iff_getElem.1 ht
  obtain ⟨j, hj, rfl⟩ := List.mem_iff_getElem.1 hu
  have hpair := List.pairwise_iff_getElem.1 h.pairwise
  rcases Nat.lt_trichotomy i j with hij | rfl | hji
  · exact hpair i j hi hj hij
  · omega
  · have := hpair j i hj hi hji
    omega

end Laid

namespace TokenStream

/-- One step of reading takes a gap and a token off the front of the text. -/
theorem step_token {d : Dialect} {offset start : Nat} {previous : Option Lexeme} {cs : List Char}
    {l : Lexeme} (h : step d offset previous cs = .token start l) :
    ∃ gap, gap ++ (l.text ++ l.rest) = cs ∧ start = offset + Text.width gap ∧ l.text ≠ [] ∧
      l.kind ≠ .endOfInput ∧ Gap.Closed d gap := by
  unfold step at h
  split at h
  · cases h
  · cases h
  · rename_i skipped rest hrest hskip
    obtain ⟨gap, hgap, rfl, -, hclosed⟩ := Gap.skip_gap hskip
    split at h
    · rename_i l' hread
      cases h
      have hsplit := Lexeme.read_splits d _ hread
      exact ⟨gap, by rw [hsplit.whole, hgap], rfl, hsplit.nonempty, hsplit.kind_ne,
        hclosed hrest⟩
    · cases h

/-- The last step of reading takes the gap that is left. -/
theorem step_finished {d : Dialect} {offset stop : Nat} {previous : Option Lexeme}
    {cs : List Char} (h : step d offset previous cs = .finished stop) :
    stop = offset + Text.width cs ∧ Gap.Final d cs := by
  unfold step at h
  split at h
  · cases h
  · rename_i skipped hskip
    obtain ⟨gap, hgap, rfl, hfinal, -⟩ := Gap.skip_gap hskip
    rw [List.append_nil] at hgap
    cases h
    rw [← hgap]
    exact ⟨rfl, hfinal⟩
  · split at h <;> cases h

theorem laid_readFrom (d : Dialect) (fuel offset : Nat) (previous : Option Lexeme)
    (cs : List Char) : Laid offset cs (readFrom d fuel offset previous cs).tokens := by
  induction fuel generalizing offset previous cs with
  | zero => exact .done offset cs
  | succ fuel ih =>
      rw [readFrom]
      split
      · rename_i stop hstep
        have hend := (step_finished hstep).1
        have hlaid : Laid offset (cs ++ ([] ++ []))
            [tokenAt (offset + Text.width cs) ⟨.endOfInput, [], []⟩] :=
          .token cs ⟨.endOfInput, [], []⟩ (by simp) (.done _ _)
        simpa [tokenAt, ← hend] using hlaid
      · exact .done offset cs
      · rename_i start l hstep
        obtain ⟨gap, hgap, rfl, htext, hkind, -⟩ := step_token hstep
        rw [← hgap]
        exact .token gap l (by simp [htext, hkind]) (ih _ _ _)

/-- The tokens of a statement stand in it, one behind the other. -/
theorem laid_ofText (d : Dialect) (source : List Char) : Laid 0 source (ofText d source).tokens := by
  rw [ofText]
  split
  · exact laid_readFrom d _ 0 none source
  · exact .done 0 source

/-- A stream without lexical fault ends with the end of the input, and no token
before the last one is an end of the input. -/
def Ends (s : TokenStream) : Prop :=
  ∃ ts, (∀ t ∈ ts, t.isEnd = false) ∧
    ((s.failure ≠ none ∧ s.tokens = ts) ∨
      (s.failure = none ∧ ∃ e : Token, e.isEnd = true ∧ s.tokens = ts ++ [e]))

theorem ends_readFrom (d : Dialect) (fuel offset : Nat) (previous : Option Lexeme)
    (cs : List Char) : (readFrom d fuel offset previous cs).Ends := by
  induction fuel generalizing offset previous cs with
  | zero => exact ⟨[], by simp, .inl ⟨by simp [readFrom], rfl⟩⟩
  | succ fuel ih =>
      rw [readFrom]
      split
      · exact ⟨[], by simp, .inr ⟨rfl, _, rfl, rfl⟩⟩
      · exact ⟨[], by simp, .inl ⟨by simp, rfl⟩⟩
      · rename_i start l hstep
        obtain ⟨-, -, -, -, hkind, -⟩ := step_token hstep
        obtain ⟨ts, hts, hends⟩ := ih (start + Text.width l.text) (some l) l.rest
        refine ⟨tokenAt start l :: ts, ?_, ?_⟩
        · intro t ht
          rcases List.mem_cons.1 ht with rfl | ht
          · simpa [Token.isEnd, tokenAt] using hkind
          · exact hts t ht
        · rcases hends with ⟨hfail, htokens⟩ | ⟨hfail, e, he, htokens⟩
          · exact .inl ⟨hfail, congrArg (_ :: ·) htokens⟩
          · exact .inr ⟨hfail, e, he, congrArg (_ :: ·) htokens⟩

theorem ends_ofText (d : Dialect) (source : List Char) : (ofText d source).Ends := by
  rw [ofText]
  split
  · exact ends_readFrom d _ 0 none source
  · exact ⟨[], by simp, .inl ⟨by simp, rfl⟩⟩

/-- The offsets of a statement with a token fit into spans. -/
theorem fits_of_mem {d : Dialect} {source : List Char} {t : Token}
    (h : t ∈ (ofText d source).tokens) : Text.width source ≤ Span.limit := by
  rw [ofText] at h
  split at h
  · rename_i hfits
    exact (Span.fits_iff source).1 hfits
  · cases h

end TokenStream

end SqlMarkers
