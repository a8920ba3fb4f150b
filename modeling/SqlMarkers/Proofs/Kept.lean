/-
SqlMarkers.Proofs.Kept — the source text that a tree keeps.

A piece of source text that goes from the start of one token to the end of
another is kept trimmed. Between tokens only ASCII characters count as blank,
but trimming also takes away blanks outside ASCII, which may be part of a name.
So trimming can change the piece, but never one that is all ASCII: the first
and the last character of a token are ink (`TokenStream.inked_ofText`).

`Setting.page` is the page of the statement that is read, `Page.frames_of` and
`Page.keeps_of` say what two tokens of it span.
-/
import SqlMarkers.Proofs.Placement
import SqlMarkers.Proofs.Replacement

namespace SqlMarkers

/-! ## Ink -/

namespace Text

/-- Characters that trimming leaves alone, and all characters outside ASCII. -/
def isInk (c : Char) : Bool := CharClass.isWide c || !isBlank c

/-- The blank characters of ASCII. -/
def asciiBlanks : List Char := ['\t', '\n', '\x0b', '\x0c', '\r', ' ']

theorem mem_asciiBlanks {c : Char} (h : isInk c = false) : c ∈ asciiBlanks := by
  have hof : ∀ n, c.toNat = n → c = Char.ofNat n := fun n hn => by rw [← hn, Char.ofNat_toNat]
  simp only [isInk, CharClass.isWide, isBlank, Bool.or_eq_false_iff, decide_eq_false_iff_not,
    Bool.not_eq_false', Bool.or_eq_true, Bool.and_eq_true, decide_eq_true_eq, beq_iff_eq] at h
  have hn : c.toNat = 9 ∨ c.toNat = 10 ∨ c.toNat = 11 ∨ c.toNat = 12 ∨ c.toNat = 13 ∨
      c.toNat = 32 := by omega
  rcases hn with hn | hn | hn | hn | hn | hn
  all_goals
    rw [hof _ hn]
    decide

/-- A class of characters without the blanks of ASCII holds ink only. -/
theorem isInk_of {p : Char → Bool} (hp : asciiBlanks.any p = false) {c : Char}
    (h : p c = true) : isInk c = true := by
  rw [← Bool.not_eq_false]
  intro hink
  exact List.any_eq_false.1 hp c (mem_asciiBlanks hink) h

/-- The text starts and ends with ink. -/
structure Inked (cs : List Char) : Prop where
  first : ∀ c ∈ cs.head?, isInk c = true
  last : ∀ c ∈ cs.getLast?, isInk c = true

theorem dropWhile_eq_self {p : Char → Bool} {cs : List Char} (h : ∀ c ∈ cs.head?, p c = false) :
    cs.dropWhile p = cs := by
  cases cs with
  | nil => rfl
  | cons c cs => rw [List.dropWhile_cons_of_neg (by simpa using h c rfl)]

/-- An ASCII text between ink has nothing to trim. -/
theorem Inked.trim_eq {cs : List Char} (h : Inked cs) (hascii : ∀ c ∈ cs, c.toNat < 0x80) :
    trim cs = cs := by
  have hblank : ∀ c ∈ cs, isInk c = true → isBlank c = false := by
    intro c hc hink
    have hnarrow : ¬0x80 ≤ c.toNat := Nat.not_le.2 (hascii c hc)
    simpa [isInk, CharClass.isWide, hnarrow] using hink
  rw [trim, dropWhile_eq_self (fun c hc => hblank c (List.mem_of_head? hc) (h.first c hc)),
    dropWhile_eq_self, List.reverse_reverse]
  intro c hc
  rw [List.head?_reverse] at hc
  exact hblank c (List.mem_of_getLast? hc) (h.last c hc)

end Text

/-! ## Tokens start and end with ink -/

namespace Lexeme

open CharClass Text

/-- The text ends with ink. -/
def Ending (cs : List Char) : Prop := ∀ c ∈ cs.getLast?, isInk c = true

theorem Ending.of_all {cs : List Char} (h : ∀ c ∈ cs, isInk c = true) : Ending cs :=
  fun c hc => h c (List.mem_of_getLast? hc)

theorem Ending.append {as bs : List Char} (h : Ending bs) (hne : bs ≠ []) : Ending (as ++ bs) := by
  intro c hc
  rw [List.getLast?_append_of_ne_nil _ hne] at hc
  exact h c hc

theorem isInk_of_takeWhile {p : Char → Bool} (hp : asciiBlanks.any p = false) {cs : List Char} :
    ∀ c ∈ cs.takeWhile p, isInk c = true :=
  fun c hc => isInk_of hp (List.all_eq_true.1 List.all_takeWhile c hc)

/-- What a quote closes ends with the quote. -/
theorem getLast?_of_close? {quote : Char} {escapes : Bool} {cs body rest : List Char}
    (h : close? quote escapes cs = some (body, rest)) : body.getLast? = some quote := by
  fun_induction close? quote escapes cs generalizing body rest with
  | case1 => cases h
  | case2 c hc =>
      cases h
      simp_all
  | case3 c hc => cases h
  | case4 c d cs hc ih | case5 c d cs hc hq hd ih | case7 c d cs hc hq ih =>
      simp only [Option.map_eq_some_iff, Prod.mk.injEq, Prod.exists] at h
      obtain ⟨body', rest', h', rfl, rfl⟩ := h
      simp [List.getLast?_cons, ih h']
  | case6 c d cs hc hq hd =>
      cases h
      simp_all

theorem ending_of_close? {quote : Char} {escapes : Bool} {cs body rest : List Char}
    (h : close? quote escapes cs = some (body, rest)) (hquote : isInk quote = true)
    (front : List Char) : Ending (front ++ body) := by
  have hlast := getLast?_of_close? h
  intro c hc
  rw [List.getLast?_append, hlast] at hc
  obtain rfl : quote = c := by simpa using hc
  exact hquote

theorem string_ending {d : Dialect} {cs : List Char} {l : Lexeme} (h : string d cs = .ok l)
    (hquote : isInk (peek cs) = true) : Ending l.text := by
  unfold string at h
  split at h
  · simp [refuse] at h
  · rename_i quote cs
    split at h
    · rename_i body rest hclose
      cases h
      exact ending_of_close? hclose hquote [quote]
    · simp [refuse] at h

theorem nationalString_ending {d : Dialect} {cs : List Char} {l : Lexeme}
    (h : nationalString d cs = .ok l) (hquote : isInk (peek (cs.drop 1)) = true) :
    Ending l.text := by
  unfold nationalString at h
  split at h
  · simp at h
  · rename_i mark cs
    split at h
    · rename_i l' hstring
      cases h
      show Ending ([mark] ++ l'.text)
      exact (string_ending hstring hquote).append (string_splits d hstring).nonempty
    · simp at h

theorem name_ending {d : Dialect} {cs : List Char} {l : Lexeme} (h : name d cs = .ok l) :
    Ending l.text := by
  have hword : ∀ cs, Ending (word d cs).text :=
    fun cs => .of_all (isInk_of_takeWhile (by decide))
  unfold name at h
  split at h
  · cases h
    exact hword []
  · rename_i c cs
    split at h
    · rename_i hquoted
      split at h
      · rename_i body rest hclose
        cases h
        refine ending_of_close? hclose ?_ [c]
        split
        · decide
        · have : c = '\x60' := by simp_all
          rw [this]
          decide
      · simp [refuse] at h
    · cases h
      exact hword _

theorem sqlVariable_ending {cs : List Char} {l : Lexeme} (h : sqlVariable cs = .ok l) :
    Ending l.text := by
  unfold sqlVariable at h
  split at h
  · simp [refuse] at h
  · extract_lets marks tail named body at h
    split at h
    · simp [refuse] at h
    · rename_i hbody
      cases h
      have hinked : Ending body := .of_all (isInk_of_takeWhile (by decide))
      exact hinked.append (by simpa using hbody)

theorem hexadecimal_ending {cs : List Char} {l : Lexeme} (h : hexadecimal cs = .ok l) :
    Ending l.text := by
  unfold hexadecimal at h
  extract_lets tail sign digitsOn digits at h
  split at h
  · simp [refuse] at h
  · rename_i hdigits
    split at h
    · simp [refuse] at h
    · cases h
      have hinked : Ending digits := .of_all (isInk_of_takeWhile (by decide))
      exact hinked.append (by simpa using hdigits)

/-! ### Numbers -/

theorem isInk_of_fraction {cs : List Char} : ∀ c ∈ fraction cs, isInk c = true := by
  intro c hc
  unfold fraction at hc
  split at hc
  · split at hc
    · cases hc
    · rcases List.mem_cons.1 hc with rfl | hc
      · decide
      · exact isInk_of_takeWhile (p := isDigit) (by decide) c hc
  · cases hc

theorem isInk_of_exponent {cs : List Char} : ∀ c ∈ exponent cs, isInk c = true := by
  intro c hc
  unfold exponent at hc
  split at hc
  · cases hc
  · rename_i e cs
    split at hc
    · rename_i he
      extract_lets sign digits at hc
      split at hc
      · cases hc
      · rcases List.mem_cons.1 hc with rfl | hc
        · exact isInk_of (p := fun c => c == 'e' || c == 'E') (by decide) he
        · rcases List.mem_append.1 hc with hc | hc
          · have hsign : (c == '+' || c == '-') = true := by
              simp only [sign] at hc
              split at hc <;> simp_all
            exact isInk_of (p := fun c => c == '+' || c == '-') (by decide) hsign
          · exact isInk_of_takeWhile (p := isDigit) (by decide) c hc
    · cases hc

theorem isInk_of_suffix {cs : List Char} : ∀ c ∈ suffix cs, isInk c = true := by
  intro c hc
  unfold suffix at hc
  split at hc
  · cases hc
  · split at hc
    · rename_i hsuffix
      obtain rfl := List.mem_singleton.1 hc
      exact isInk_of (p := Token.isFloatSuffix) (by decide) (Bool.and_eq_true_iff.1 hsuffix).1
    · cases hc

theorem number_ending {cs : List Char} {l : Lexeme} (h : number cs = .ok l) : Ending l.text := by
  unfold number at h
  extract_lets sign cs₁ whole cs₂ frac cs₃ expo cs₄ suff cs₅ text at h
  have htext : ∀ c ∈ text, isInk c = true := by
    intro c hc
    simp only [text, List.mem_append] at hc
    rcases hc with (((hc | hc) | hc) | hc) | hc
    · have hsign : (c == '-') = true := by
        simp only [sign] at hc
        split at hc <;> simp_all
      exact isInk_of (p := fun c => c == '-') (by decide) hsign
    · exact isInk_of_takeWhile (p := isDigit) (by decide) c hc
    · exact isInk_of_fraction c hc
    · exact isInk_of_exponent c hc
    · exact isInk_of_suffix c hc
  split at h
  · split at h
    · simp [refuse] at h
    · cases h
      exact .of_all htext
  · cases h
    exact .of_all htext

/-! ### Operators, and any token -/

theorem operator_ending {cs : List Char} {l : Lexeme} (h : operator cs = .ok l) :
    Ending l.text := by
  have hall : (Symbol.all.all fun s => s.spelling.toList.all isInk) = true := by decide
  have hwithin : ∀ n, operatorWithin cs n = .ok l → Ending l.text := by
    intro n h
    induction n with
    | zero => simp [operatorWithin, refuse] at h
    | succ n ih =>
        unfold operatorWithin at h
        split at h
        · rename_i s hs
          cases h
          rw [Symbol.find?] at hs
          have hspelling := List.find?_some hs
          refine .of_all ?_
          rw [← eq_of_beq hspelling]
          exact List.all_eq_true.1 (List.all_eq_true.1 hall s (List.mem_of_find?_eq_some hs))
        · exact ih h
  exact hwithin _ h

/-- A token starts and ends with ink. -/
theorem read_inked {d : Dialect} {b : Before} {cs : List Char} {l : Lexeme}
    (h : read d b cs = .ok l) : Inked l.text := by
  have hsplit := read_splits d b h
  refine ⟨fun c hc => ?_, ?_⟩
  · -- At a blank none of the forms of token starts.
    have hpeek : peek cs = c := by
      rw [peek, ← hsplit.whole, List.headD_eq_head?_getD, List.head?_append, Option.mem_def.1 hc]
      rfl
    rw [← Bool.not_eq_false]
    intro hink
    have hc : c ≠ '@' ∧ c ≠ 'N' ∧ c ≠ 'n' ∧ c ≠ '\x60' ∧ c ≠ '[' ∧ c ≠ '0' ∧ c ≠ '.' ∧ c ≠ '-' ∧
        c ≠ '\x27' ∧ c ≠ '\x22' ∧ isWordStart c = false ∧ isSymbolStart c = false ∧
        isDigit c = false := by
      have hmem := mem_asciiBlanks hink
      simp only [asciiBlanks, List.mem_cons, List.not_mem_nil, or_false] at hmem
      rcases hmem with rfl | rfl | rfl | rfl | rfl | rfl <;> decide
    simp [read, startsNumber, hpeek, hc, refuse] at h
  · unfold read at h
    dsimp only at h
    split at h
    · exact sqlVariable_ending h
    · split at h
      · rename_i hmark
        refine nationalString_ending h ?_
        rw [eq_of_beq (Bool.and_eq_true_iff.1 hmark).2]
        decide
      · split at h
        · exact name_ending h
        · split at h
          · exact hexadecimal_ending h
          · split at h
            · exact number_ending h
            · split at h
              · exact operator_ending h
              · split at h
                · rename_i hquote
                  refine string_ending h ?_
                  exact isInk_of (p := fun c => c == '\x27' || c == '\x22') (by decide) hquote
                · simp [refuse] at h

end Lexeme

namespace TokenStream

theorem inked_readFrom (d : Dialect) (fuel offset : Nat) (previous : Option Lexeme)
    (cs : List Char) : ∀ t ∈ (readFrom d fuel offset previous cs).tokens, t.isEnd = false →
      Text.Inked t.text.toList := by
  induction fuel generalizing offset previous cs with
  | zero => simp [readFrom]
  | succ fuel ih =>
      intro t ht hend
      rw [readFrom] at ht
      split at ht
      · obtain rfl := List.mem_singleton.1 ht
        cases hend
      · cases ht
      · rename_i start l hstep
        rcases List.mem_cons.1 ht with rfl | ht
        · unfold step at hstep
          split at hstep
          · cases hstep
          · cases hstep
          · split at hstep
            · rename_i hread
              cases hstep
              simpa [tokenAt] using Lexeme.read_inked hread
            · cases hstep
        · exact ih _ _ _ t ht hend

/-- The tokens of a statement start and end with ink. -/
theorem inked_ofText {d : Dialect} {source : List Char} {t : Token}
    (ht : t ∈ (ofText d source).tokens) (hend : t.isEnd = false) : Text.Inked t.text.toList := by
  rw [ofText] at ht
  split at ht
  · exact inked_readFrom d _ 0 none source t ht hend
  · cases ht

/-- Behind the end of the input there is only itself. -/
theorem Ends.eq_of_isEnd {s : TokenStream} (h : s.Ends) {i j : Nat} {a b : Token} (hij : i ≤ j)
    (ha : s.tokens[i]? = some a) (hb : s.tokens[j]? = some b) (hend : a.isEnd = true) : b = a := by
  obtain ⟨ts, hts, ⟨-, htokens⟩ | ⟨-, e, -, htokens⟩⟩ := h
  · rw [htokens] at ha
    rw [hts a (List.mem_of_getElem? ha)] at hend
    cases hend
  · rw [htokens] at ha hb
    have hi : ts.length ≤ i := by
      rw [← Nat.not_lt]
      intro hlt
      rw [List.getElem?_append_left hlt] at ha
      rw [hts a (List.mem_of_getElem? ha)] at hend
      cases hend
    have hj := (List.getElem?_eq_some_iff.1 hb).1
    rw [List.length_append, List.length_singleton] at hj
    rw [show j = i by omega, ha] at hb
    exact (Option.some.inj hb).symm

end TokenStream

/-! ## The page of a statement -/

/-- The page of the statement that is read. -/
def Setting.page (env : Setting) : Page :=
  ⟨env.source, (TokenStream.ofText env.dialect env.source).tokens,
    env.dialect.features.backslashEscapes⟩

namespace Setting

variable {env : Setting} {a b t : Token}

/-- Two tokens, the first of which starts before the second one ends, frame a
span. -/
theorem exists_le (ha : a ∈ env.page.tokens) (hb : b ∈ env.page.tokens)
    (hlt : a.span.start < b.span.stop) :
    ∃ i j : Nat, i ≤ j ∧ env.page.tokens[i]? = some a ∧ env.page.tokens[j]? = some b := by
  obtain ⟨i, hi, rfl⟩ := List.mem_iff_getElem.1 ha
  obtain ⟨j, hj, rfl⟩ := List.mem_iff_getElem.1 hb
  refine ⟨i, j, ?_, List.getElem?_eq_getElem hi, List.getElem?_eq_getElem hj⟩
  rw [← Nat.not_lt]
  intro hji
  have hlaid := TokenStream.laid_ofText env.dialect env.source
  have := List.pairwise_iff_getElem.1 hlaid.pairwise j i hj hi hji
  exact absurd hlt (Nat.not_lt.2 this)

theorem frames_of (ha : a ∈ env.page.tokens) (hb : b ∈ env.page.tokens)
    (hlt : a.span.start < b.span.stop) : env.page.Frames ⟨a.span.start, b.span.stop⟩ := by
  obtain ⟨i, j, hij, hi, hj⟩ := exists_le ha hb hlt
  exact ⟨i, j, a, b, hij, hi, hj, rfl⟩

/-- A token stands at its span. -/
theorem shows_of {p : Token → Prop} (ht : t ∈ env.page.tokens) (hp : p t) :
    env.page.Shows t.span p := by
  obtain ⟨before, after, hsource, hspan, -⟩ :=
    (TokenStream.laid_ofText env.dialect env.source).mem ht
  refine ⟨t, ht, rfl, ?_, hp⟩
  rw [hspan, Nat.zero_add, Span.slice?]
  show Text.slice? _ _ env.source = _
  rw [← hsource]
  exact Text.slice?_width_append before t.text.toList after

theorem text_ne_nil (ht : t ∈ env.page.tokens) (hend : t.isEnd = false) : t.text.toList ≠ [] := by
  obtain ⟨-, -, -, -, hkind⟩ := (TokenStream.laid_ofText env.dialect env.source).mem ht
  exact fun hnil => Token.isEnd_eq_false.1 hend (hkind.2 hnil)

/-- The text from the start of one token to the end of another is kept. -/
theorem keeps_of (ha : a ∈ env.page.tokens) (hb : b ∈ env.page.tokens)
    (hlt : a.span.start < b.span.stop) (hend : b.isEnd = false) :
    env.page.Keeps ⟨a.span.start, b.span.stop⟩
      (Reader.sourceText env a.span.start b.span.stop).toList := by
  have hlaid := TokenStream.laid_ofText env.dialect env.source
  obtain ⟨before, after, hsource, hspan, -⟩ := hlaid.mem ha
  obtain ⟨before', after', hsource', hspan', -⟩ := hlaid.mem hb
  have hend' : a.isEnd = false := by
    rw [← Bool.not_eq_true]
    intro htrue
    obtain ⟨i, j, hij, hi, hj⟩ := exists_le ha hb hlt
    have := (TokenStream.ends_ofText env.dialect env.source).eq_of_isEnd hij hi hj htrue
    rw [this, htrue] at hend
    cases hend
  rw [Nat.zero_add] at hspan hspan'
  have hstart : a.span.start = Text.width before := by rw [hspan]
  have hstop : b.span.stop = Text.width (before' ++ b.text.toList) := by
    rw [hspan', Text.width_append]
  rw [hstart, hstop] at hlt ⊢
  obtain ⟨slice, hfront, hbehind⟩ : ∃ slice, before ++ slice = before' ++ b.text.toList ∧
      a.text.toList ++ after = slice ++ after' := by
    refine Text.append_of_width_le ?_ (Nat.le_of_lt hlt)
    rw [hsource, ← hsource', List.append_assoc]
  have hslice : Text.slice? (Text.width before) (Text.width (before' ++ b.text.toList))
      env.source = some slice := by
    rw [← hfront, Text.width_append, ← hsource, hbehind]
    exact Text.slice?_width_append before slice after'
  have hne : slice ≠ [] := by
    rintro rfl
    rw [← hfront, List.append_nil] at hlt
    exact Nat.lt_irrefl _ hlt
  have hinked : Text.Inked slice := by
    constructor
    · intro c hc
      refine (TokenStream.inked_ofText ha hend').first c ?_
      have hhead := congrArg List.head? hbehind
      rw [List.head?_append_of_ne_nil _ (text_ne_nil ha hend'),
        List.head?_append_of_ne_nil _ hne] at hhead
      rwa [hhead]
    · intro c hc
      refine (TokenStream.inked_ofText hb hend).last c ?_
      have hlast := congrArg List.getLast? hfront
      rw [List.getLast?_append_of_ne_nil _ hne,
        List.getLast?_append_of_ne_nil _ (text_ne_nil hb hend)] at hlast
      rwa [← hlast]
  rw [Reader.sourceText, hslice, Option.getD_some, String.toList_ofList]
  exact ⟨slice, hslice, rfl, hinked.trim_eq⟩

end Setting

end SqlMarkers
