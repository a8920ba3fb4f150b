/-
SqlMarkers.Proofs.Spelling — what tokens stand for, in lower case.

The value of a number does not depend on the case of its letters, and what a quoted
name or a string is decoded to in lower case is what it is decoded to, in lower
case. For strings this takes two conditions: their quote is no letter, which holds
of every string that is read (`Lexeme.quoted_of_read`), and they have no backslash,
since `\n` and `\N` stand for different characters.

So two texts without backslash that differ in the case of letters only have streams
that are alike (`TokenStream.ofText_alike`).
-/
import SqlMarkers.Proofs.Agreement.Statement
import SqlMarkers.Proofs.Letters
import SqlMarkers.Proofs.Replacement

namespace SqlMarkers

open CharClass

/-! ## Cuts -/

namespace Text

theorem dropWidth?_lower (n : Nat) (cs : List Char) :
    dropWidth? n (cs.map Char.toLower) = (dropWidth? n cs).map (List.map Char.toLower) := by
  induction cs generalizing n with
  | nil => cases n <;> rfl
  | cons c cs ih =>
      cases n with
      | zero => rfl
      | succ n =>
          simp only [List.map_cons, dropWidth?, utf8Size_toLower, ih]
          split <;> rfl

theorem takeWidth?_lower (n : Nat) (cs : List Char) :
    takeWidth? n (cs.map Char.toLower) = (takeWidth? n cs).map (List.map Char.toLower) := by
  induction cs generalizing n with
  | nil => cases n <;> rfl
  | cons c cs ih =>
      cases n with
      | zero => rfl
      | succ n =>
          simp only [List.map_cons, takeWidth?, utf8Size_toLower, ih, Option.map_map]
          split
          · rw [Option.map_map]
            rfl
          · rfl

theorem slice?_lower (start stop : Nat) (cs : List Char) :
    slice? start stop (cs.map Char.toLower) = (slice? start stop cs).map (List.map Char.toLower) := by
  simp only [slice?, dropWidth?_lower]
  split
  · cases dropWidth? start cs with
    | none => rfl
    | some rest => exact takeWidth?_lower _ rest
  · rfl

theorem trim_lower (cs : List Char) : trim (cs.map Char.toLower) = (trim cs).map Char.toLower := by
  have hblank : ∀ c : Char, isBlank c.toLower = isBlank c := apply_toLower (by decide)
  simp only [trim, dropWhile_lower hblank, ← List.map_reverse]

theorem undoubling_lower {q : Char} (hq : q.isAlpha = false) (cs : List Char) :
    undoubling q (cs.map Char.toLower) = (undoubling q cs).map Char.toLower := by
  have hsame : ∀ c : Char, c.toLower = q ↔ c = q := by
    intro c
    rw [← beq_iff_eq, beq_toLower hq, beq_iff_eq]
  fun_induction undoubling q cs with
  | case1 | case2 => rfl
  | case3 a b cs hquotes ih =>
      simp only [List.map_cons, undoubling, hsame, if_pos hquotes, ih, toLower_of_isAlpha hq]
  | case4 a b cs hquotes ih =>
      rw [List.map_cons] at ih
      simp only [List.map_cons, undoubling, hsame, if_neg hquotes, ih]

end Text

namespace Token

/-! ## Names -/

theorem decode?_lower (text : List Char) :
    decode? (text.map Char.toLower) = (decode? text).map (List.map Char.toLower) := by
  have hsome : ∀ {q : Char}, q.isAlpha = false → ∀ x : Option Char,
      x.map Char.toLower = some q ↔ x = some q := by
    intro q hq x
    cases x with
    | none => simp
    | some c =>
        rw [Option.map_some, Option.some.injEq, Option.some.injEq, ← beq_iff_eq, beq_toLower hq,
          beq_iff_eq]
  simp only [decode?, inner?, Text.width_lower, Text.slice?_lower, List.head?_map,
    List.getLast?_map, hsome (q := '\x60') rfl, hsome (q := '[') rfl, hsome (q := ']') rfl,
    Option.map_map]
  split
  · rfl
  · rw [Option.map_map]
    congr 1
    funext body
    simp only [Function.comp_apply, Text.undoubling_lower (q := '\x60') rfl,
      Text.undoubling_lower (q := ']') rfl]
    split
    · rfl
    · split <;> rfl

/-! ## Numbers -/

theorem hexadecimal?_lower (text : List Char) :
    hexadecimal? (text.map Char.toLower) = hexadecimal? text := by
  rw [hexadecimal?, Text.dropWidth?_lower, hexadecimal?]
  cases Text.dropWidth? 2 text with
  | none => rfl
  | some ds => exact hexDigits?_lower ds

theorem exponent?_lower (cs : List Char) : exponent? (cs.map Char.toLower) = exponent? cs := by
  cases cs with
  | nil => rfl
  | cons e cs =>
      have hmark : ∀ c : Char, (c.toLower == 'e' || c.toLower == 'E') = (c == 'e' || c == 'E') :=
        apply_toLower (f := fun c => c == 'e' || c == 'E') (by decide)
      simp only [List.map_cons, exponent?, hmark, signed?_lower]

theorem unsignedFloat?_lower (negative : Bool) (cs : List Char) :
    unsignedFloat? negative (cs.map Char.toLower) = unsignedFloat? negative cs := by
  have hvalue : ∀ ds : List Char, digitsValue 10 (ds.map Char.toLower) 0 = digitsValue 10 ds 0 := by
    intro ds
    simp only [digitsValue, List.foldl_map, digitValue_toLower]
  simp only [unsignedFloat?, takeWhile_lower isDigit_toLower, dropWhile_lower isDigit_toLower]
  generalize cs.takeWhile isDigit = whole
  generalize cs.dropWhile isDigit = rest
  rcases rest with _ | ⟨c, rest⟩
  · simp only [List.map_nil, List.append_nil, List.map_eq_nil_iff, hvalue]
  · by_cases hc : c = '.'
    · subst hc
      simp only [List.map_cons, show '.'.toLower = '.' from rfl, takeWhile_lower isDigit_toLower,
        dropWhile_lower isDigit_toLower, ← List.map_append, List.map_eq_nil_iff, hvalue,
        List.length_map, exponent?_lower]
    · have hlower : c.toLower ≠ '.' := by
        rwa [ne_eq, ← beq_iff_eq, beq_toLower rfl, beq_iff_eq]
      have hexponent := exponent?_lower (c :: rest)
      rw [List.map_cons] at hexponent
      simp [hc, hlower, hvalue, hexponent]

theorem floatBody?_lower (negative : Bool) (cs : List Char) :
    floatBody? negative (cs.map Char.toLower) = floatBody? negative cs := by
  simp only [floatBody?, List.map_map, Function.comp_def, toLower_toLower, unsignedFloat?_lower]

theorem float?_cons (c : Char) (cs : List Char) :
    float? (c :: cs) =
      if c == '+' then floatBody? false cs
      else if c == '-' then floatBody? true cs
      else floatBody? false (c :: cs) := by
  unfold float?
  split <;> simp_all

theorem float?_lower (cs : List Char) : float? (cs.map Char.toLower) = float? cs := by
  cases cs with
  | nil => rfl
  | cons c cs =>
      have hbody := floatBody?_lower false (c :: cs)
      rw [List.map_cons] at hbody
      simp (disch := decide) only [List.map_cons, float?_cons, beq_toLower, floatBody?_lower, hbody]

/-! ## Strings -/

/-- The text of a string: its quote is no letter, and an `N` may stand in front. -/
def Quoted (text : List Char) : Prop :=
  ∃ quote body, quote.isAlpha = false ∧
    (text = quote :: body ∨ ∃ mark, (mark = 'N' ∨ mark = 'n') ∧ text = mark :: quote :: body)

theorem decodeBody_lower {quote : Char} (hquote : quote.isAlpha = false) (escapes : Bool) : ∀ cs,
    '\\' ∉ cs →
      decodeBody quote escapes (cs.map Char.toLower) =
        (decodeBody quote escapes cs).map Char.toLower
  | [], _ => rfl
  | [_], _ => rfl
  | c :: d :: cs, hplain => by
      have hsame : ∀ {q : Char}, q.isAlpha = false → ∀ c : Char, c.toLower = q ↔ c = q := by
        intro q hq c
        rw [← beq_iff_eq, beq_toLower hq, beq_iff_eq]
      simp only [List.mem_cons, not_or] at hplain
      have hbehind := decodeBody_lower hquote escapes (d :: cs) (by simp [hplain])
      rw [List.map_cons] at hbehind
      have hnone : ¬(c = '\\' ∧ escapes = true) := fun h => hplain.1 h.1.symm
      simp only [List.map_cons, decodeBody, hsame hquote, hsame (q := '\\') rfl, if_neg hnone,
        hbehind, decodeBody_lower hquote escapes cs hplain.2.2]
      split
      · rw [List.map_cons, toLower_of_isAlpha hquote]
      · rfl

theorem decodeChars_lower {text : List Char} (h : Quoted text) (hplain : '\\' ∉ text)
    (escapes : Bool) :
    decodeChars escapes (text.map Char.toLower) =
      (decodeChars escapes text).map Char.toLower := by
  -- Behind the mark the two texts start with the same quote.
  have hdecode : ∀ (quote : Char) (body : List Char), quote.isAlpha = false →
      '\\' ∉ quote :: body →
      decodeBody quote escapes ((Text.slice? 1 (max (Text.width (quote :: body) - 1) 1)
        (quote :: body.map Char.toLower)).getD []) =
      (decodeBody quote escapes ((Text.slice? 1 (max (Text.width (quote :: body) - 1) 1)
        (quote :: body)).getD [])).map Char.toLower := by
    intro quote body hquote hplain
    have hslice := Text.slice?_lower 1 (max (Text.width (quote :: body) - 1) 1) (quote :: body)
    rw [List.map_cons, toLower_of_isAlpha hquote] at hslice
    rw [hslice]
    cases hpart : Text.slice? 1 (max (Text.width (quote :: body) - 1) 1) (quote :: body) with
    | none => rfl
    | some part =>
        refine decodeBody_lower hquote escapes part fun hmem => hplain ?_
        obtain ⟨as, rest, hwhole, -⟩ := Text.append_of_slice? hpart
        rw [← hwhole]
        simp [hmem]
  obtain ⟨quote, body, hquote, rfl | ⟨mark, hmark, rfl⟩⟩ := h
  · have hwidth := Text.width_lower (quote :: body)
    rw [List.map_cons, toLower_of_isAlpha hquote] at hwidth ⊢
    have hhead : quote ≠ 'N' ∧ quote ≠ 'n' := by
      constructor <;> rintro rfl <;> cases hquote
    simp only [decodeChars, List.head?_cons, Option.some.injEq, hhead.1, hhead.2, or_self,
      if_false, hwidth]
    exact hdecode quote body hquote hplain
  · have hwidth := Text.width_lower (quote :: body)
    rw [List.map_cons, toLower_of_isAlpha hquote] at hwidth
    have hplain' : '\\' ∉ quote :: body := fun hmem => hplain (List.mem_cons_of_mem _ hmem)
    rcases hmark with rfl | rfl
    · simp only [decodeChars, List.map_cons, toLower_of_isAlpha hquote, List.head?_cons, true_or,
        show 'N'.toLower = 'n' from rfl, or_true, if_true, List.tail_cons, hwidth]
      exact hdecode quote body hquote hplain'
    · simp only [decodeChars, List.map_cons, toLower_of_isAlpha hquote, List.head?_cons,
        show 'n'.toLower = 'n' from rfl, or_true, if_true, List.tail_cons, hwidth]
      exact hdecode quote body hquote hplain'

end Token

/-! ## Strings that are read -/

namespace Lexeme

variable {d : Dialect} {cs : List Char} {l : Lexeme}

theorem kind_of_sqlVariable (h : sqlVariable cs = .ok l) : l.kind ≠ .chars := by
  unfold sqlVariable at h
  split at h
  · cases h
  · extract_lets marks tail named body at h
    split at h <;> cases h
    simp

theorem wordKind_ne_chars (word rest : List Char) : wordKind d word rest ≠ .chars := by
  unfold wordKind
  split
  · split <;> simp
  · split <;> simp
  · simp
  · simp

theorem kind_of_name (h : name d cs = .ok l) : l.kind ≠ .chars := by
  unfold name at h
  split at h
  · cases h
    exact wordKind_ne_chars _ _
  · split at h
    · split at h <;> cases h
      simp
    · cases h
      exact wordKind_ne_chars _ _

theorem kind_of_hexadecimal (h : hexadecimal cs = .ok l) : l.kind ≠ .chars := by
  unfold hexadecimal at h
  extract_lets tail sign digitsOn digits at h
  split at h
  · cases h
  · split at h <;> cases h
    simp

theorem kind_of_number (h : number cs = .ok l) : l.kind ≠ .chars := by
  unfold number at h
  extract_lets sign cs₁ whole cs₂ frac cs₃ expo cs₄ suff cs₅ text at h
  split at h
  · split at h <;> cases h
    simp
  · cases h
    simp

theorem kind_of_operator (h : operator cs = .ok l) : l.kind ≠ .chars := by
  have hwithin : ∀ n, operatorWithin cs n = .ok l → l.kind ≠ .chars := by
    intro n
    induction n with
    | zero => exact fun h => by cases h
    | succ n ih =>
        intro h
        rw [operatorWithin] at h
        split at h
        · cases h
          simp
        · exact ih h
  exact hwithin _ h

theorem text_of_string {quote : Char} (h : string d (quote :: cs) = .ok l) :
    ∃ body, l.text = quote :: body := by
  rw [string] at h
  split at h <;> cases h
  exact ⟨_, rfl⟩

/-- A string that is read starts with its quote, and the quote is no letter. -/
theorem quoted_of_read {b : Before} (h : read d b cs = .ok l) (hkind : l.kind = .chars) :
    Token.Quoted l.text := by
  unfold read at h
  dsimp only at h
  split at h
  · exact absurd hkind (kind_of_sqlVariable h)
  · split at h
    · rename_i hmarks
      simp only [Bool.and_eq_true, Bool.or_eq_true, beq_iff_eq] at hmarks
      rcases cs with _ | ⟨mark, _ | ⟨quote, cs⟩⟩
      · cases hmarks.2
      · cases hmarks.2
      · obtain rfl : quote = '\x27' := hmarks.2
        rw [nationalString] at h
        split at h
        · rename_i inner hinner
          cases h
          obtain ⟨body, hbody⟩ := text_of_string hinner
          exact ⟨_, body, rfl, .inr ⟨mark, hmarks.1.2, congrArg (List.cons mark) hbody⟩⟩
        · cases h
    · split at h
      · exact absurd hkind (kind_of_name h)
      · split at h
        · exact absurd hkind (kind_of_hexadecimal h)
        · split at h
          · exact absurd hkind (kind_of_number h)
          · split at h
            · exact absurd hkind (kind_of_operator h)
            · split at h
              · rename_i hmark
                rcases cs with _ | ⟨quote, cs⟩
                · cases hmark
                · have hquote : quote.isAlpha = false := by
                    simp only [Bool.or_eq_true, beq_iff_eq] at hmark
                    rcases hmark with rfl | rfl <;> rfl
                  obtain ⟨body, hbody⟩ := text_of_string h
                  exact ⟨quote, body, hquote, .inl hbody⟩
              · cases h

end Lexeme

/-! ## Tokens that are alike -/

/-- The text of a token, if it is a string, is in its quotes and has no backslash. -/
def Token.Legible (t : Token) : Prop :=
  t.kind = .chars → Token.Quoted t.text.toList ∧ '\\' ∉ t.text.toList

/-- What does not depend on case is the same for texts with one lower case. -/
theorem eq_of_lower {α : Type} {f : List Char → α} (hf : ∀ cs, f (cs.map Char.toLower) = f cs)
    {cs cs' : List Char} (h : cs.map Char.toLower = cs'.map Char.toLower) : f cs = f cs' := by
  rw [← hf cs, h, hf cs']

/-- Tokens with one lower case are alike. -/
theorem Token.alike_of_lower {t t' : Token} (h : t.lower = t'.lower) (ht : t.Legible)
    (ht' : t'.Legible) : t.Alike Text.folded t' := by
  obtain ⟨hkind, hfolded, hspan⟩ := Token.mk.inj h
  have htext : t.text.toList.map Char.toLower = t'.text.toList.map Char.toLower :=
    String.ofList_injective hfolded
  refine ⟨hkind, hspan, hfolded, hfolded, fun verb => ?_, ?_, ?_, ?_, fun escapes => ?_, ?_⟩
  · have hraised : Text.raised t.text = Text.raised t'.text := by
      refine congrArg String.ofList (eq_of_lower (f := List.map Char.toUpper) (fun cs => ?_) htext)
      simp only [List.map_map, Function.comp_def, toUpper_toLower]
    rw [hraised]
  · have hname : ∀ cs : List Char, (decode? cs).map (Text.folded ∘ String.ofList) =
        (decode? (cs.map Char.toLower)).map String.ofList := by
      intro cs
      rw [decode?_lower, Option.map_map]
      congr 1
      funext body
      simp only [Function.comp_apply, Text.folded, String.toList_ofList]
    rw [name?, Option.map_map, hname, htext, ← hname, ← Option.map_map, ← name?]
  · rw [integer?, integer?, hkind, eq_of_lower decimal?_lower htext,
      eq_of_lower hexadecimal?_lower htext]
  · have hfloat : ∀ cs : List Char,
        float? ((cs.map Char.toLower).reverse.dropWhile isFloatSuffix).reverse =
          float? (cs.reverse.dropWhile isFloatSuffix).reverse := by
      intro cs
      rw [← List.map_reverse, dropWhile_lower isFloatSuffix_toLower, ← List.map_reverse,
        float?_lower]
    rw [real?, real?, hkind]
    split
    · exact eq_of_lower (f := fun cs => float? (cs.reverse.dropWhile isFloatSuffix).reverse) hfloat
        htext
    · rfl
  · rw [chars?, chars?]
    by_cases hchars : t.kind = .chars
    · obtain ⟨hquoted, hplain⟩ := ht hchars
      rw [hkind] at hchars
      obtain ⟨hquoted', hplain'⟩ := ht' hchars
      rw [hkind, if_pos hchars, if_pos hchars, Option.map_some, Option.map_some, Text.folded,
        Text.folded, String.toList_ofList, String.toList_ofList,
        ← decodeChars_lower hquoted hplain, ← decodeChars_lower hquoted' hplain', htext]
    · rw [if_neg hchars, if_neg (hkind ▸ hchars)]
  · have hhead : ∀ cs : List Char,
        ((cs.map Char.toLower).head? == some 'N' || (cs.map Char.toLower).head? == some 'n') =
          (cs.head? == some 'N' || cs.head? == some 'n') := by
      intro cs
      cases cs with
      | nil => rfl
      | cons c cs =>
          exact apply_toLower (f := fun c => some c == some 'N' || some c == some 'n') (by decide) c
    rw [isNational, isNational, hkind]
    exact congrArg (_ && ·)
      (eq_of_lower (f := fun cs => cs.head? == some 'N' || cs.head? == some 'n') hhead htext)

/-! ## Streams that are alike -/

namespace TokenStream

/-- A token of a stream ends it, or was read as a lexeme. -/
theorem exists_read {d : Dialect} {fuel offset : Nat} {previous : Option Lexeme} {cs : List Char}
    {t : Token} (h : t ∈ (readFrom d fuel offset previous cs).tokens) :
    (t.kind = .endOfInput ∧ t.text = "") ∨
      ∃ b rest l, Lexeme.read d b rest = .ok l ∧ t.kind = l.kind ∧ t.text.toList = l.text := by
  induction fuel generalizing offset previous cs with
  | zero => cases h
  | succ fuel ih =>
      rw [readFrom] at h
      split at h
      · obtain rfl := List.mem_singleton.1 h
        exact .inl ⟨rfl, rfl⟩
      · cases h
      · rename_i start l hstep
        rcases List.mem_cons.1 h with rfl | h
        · rw [step] at hstep
          split at hstep
          · cases hstep
          · cases hstep
          · split at hstep
            · rename_i hread
              cases hstep
              exact .inr ⟨_, _, l, hread, rfl, String.toList_ofList⟩
            · cases hstep
        · exact ih h

/-- Every token of a text without backslash is legible. -/
theorem legible_ofText {d : Dialect} {source : List Char} (hplain : '\\' ∉ source) {t : Token}
    (ht : t ∈ (ofText d source).tokens) : t.Legible := by
  intro hkind
  obtain ⟨before, after, hsource, -, -⟩ := (laid_ofText d source).mem ht
  refine ⟨?_, fun hmem => hplain ?_⟩
  · rw [ofText] at ht
    split at ht
    · rcases exists_read ht with ⟨hend, -⟩ | ⟨b, rest, l, hread, hlkind, htext⟩
      · cases hkind.symm.trans hend
      · rw [htext]
        exact Lexeme.quoted_of_read hread (hlkind ▸ hkind)
    · cases ht
  · rw [← hsource]
    simp [hmem]

/-- Two texts without backslash that differ in the case of letters only have streams
that are alike. -/
theorem ofText_alike (d : Dialect) {source source' : List Char}
    (h : source.map Char.toLower = source'.map Char.toLower) (hplain : '\\' ∉ source)
    (hplain' : '\\' ∉ source') : (ofText d source).Alike Text.folded (ofText d source') := by
  have hlower : (ofText d source).lower = (ofText d source').lower := by
    rw [← ofText_lower, h, ofText_lower]
  obtain ⟨htokens, hfailure⟩ := TokenStream.mk.inj hlower
  refine ⟨forall₂_of_map_eq htokens fun t ht t' ht' hsame => ?_, hfailure⟩
  exact Token.alike_of_lower hsame (legible_ofText hplain ht) (legible_ofText hplain' ht')

end TokenStream

end SqlMarkers
