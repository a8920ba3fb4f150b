/-
SqlMarkers.Proofs.Letters — tokens do not depend on the case of letters.

A character that is told apart from others when a text is taken apart is either no
ASCII letter, or told apart together with its other case. So what is read off a text
in lower case is, piece by piece, what is read off the text, put in lower case:
the gaps (`Gap.skip_lower`), the lexemes (`Lexeme.read_lower`) and the whole stream
(`TokenStream.ofText_lower`).

Each function here is compared with itself on the text in lower case. Two texts
that differ in the case of letters only have one text in lower case, so their
streams have the same kinds, spans and faults.
-/
import Mathlib.Data.List.Find
import SqlMarkers.TokenStream

namespace SqlMarkers

open CharClass

/-! ## Characters -/

/-- A character is in lower case already, or it is a capital letter. -/
theorem toLower_cases (c : Char) : c.toLower = c ∨
    ∃ i : Fin 26, c = Char.ofNat (65 + i) ∧ c.toLower = Char.ofNat (97 + i) := by
  by_cases h : 65 ≤ c.toNat ∧ c.toNat ≤ 90
  · have hall : ∀ i : Fin 26, (Char.ofNat (65 + i)).toLower = Char.ofNat (97 + i) := by decide
    obtain ⟨i, hi⟩ : ∃ i : Fin 26, c.toNat = 65 + i :=
      ⟨⟨c.toNat - 65, by omega⟩, (Nat.add_sub_cancel' h.1).symm⟩
    have hc : c = Char.ofNat (65 + i) := by rw [← hi, Char.ofNat_toNat]
    exact .inr ⟨i, hc, by rw [hc, hall i]⟩
  · refine .inl (dif_neg fun hval => h ?_)
    exact ⟨UInt32.le_iff_toNat_le.1 hval.1, UInt32.le_iff_toNat_le.1 hval.2⟩

/-- What is the same for the two cases of each letter does not depend on the case of a
character. -/
theorem apply_toLower {α : Type} {f : Char → α}
    (h : ∀ i : Fin 26, f (Char.ofNat (97 + i)) = f (Char.ofNat (65 + i))) (c : Char) :
    f c.toLower = f c := by
  rcases toLower_cases c with heq | ⟨i, hc, heq⟩
  · rw [heq]
  · rw [heq, h i, ← hc]

/-- A character that is no letter is no letter in another case. -/
theorem beq_toLower {q : Char} (hq : q.isAlpha = false) (c : Char) :
    (c.toLower == q) = (c == q) := by
  have hletters : ∀ i : Fin 26, (Char.ofNat (97 + i)).isAlpha = true ∧
      (Char.ofNat (65 + i)).isAlpha = true := by decide
  refine apply_toLower (f := (· == q)) (fun i => ?_) c
  rw [beq_false_of_ne, beq_false_of_ne]
  · rintro rfl
    cases (hletters i).2.symm.trans hq
  · rintro rfl
    cases (hletters i).1.symm.trans hq

theorem toLower_of_isAlpha {q : Char} (hq : q.isAlpha = false) : q.toLower = q := by
  simpa using beq_toLower hq q

@[simp] theorem isSpace_toLower : ∀ c : Char, isSpace c.toLower = isSpace c :=
  apply_toLower (by decide)

@[simp] theorem isDigit_toLower : ∀ c : Char, isDigit c.toLower = isDigit c :=
  apply_toLower (by decide)

@[simp] theorem isHexDigit_toLower : ∀ c : Char, isHexDigit c.toLower = isHexDigit c :=
  apply_toLower (by decide)

@[simp] theorem isWordChar_toLower : ∀ c : Char, isWordChar c.toLower = isWordChar c :=
  apply_toLower (by decide)

@[simp] theorem isWordStart_toLower : ∀ c : Char, isWordStart c.toLower = isWordStart c :=
  apply_toLower (by decide)

@[simp] theorem isSymbolStart_toLower : ∀ c : Char, isSymbolStart c.toLower = isSymbolStart c :=
  apply_toLower (by decide)

@[simp] theorem isFloatSuffix_toLower :
    ∀ c : Char, Token.isFloatSuffix c.toLower = Token.isFloatSuffix c :=
  apply_toLower (by decide)

@[simp] theorem digitValue_toLower : ∀ c : Char, Token.digitValue c.toLower = Token.digitValue c :=
  apply_toLower (by decide)

@[simp] theorem utf8Size_toLower : ∀ c : Char, c.toLower.utf8Size = c.utf8Size :=
  apply_toLower (by decide)

@[simp] theorem toUpper_toLower : ∀ c : Char, c.toLower.toUpper = c.toUpper :=
  apply_toLower (by decide)

@[simp] theorem toLower_toLower : ∀ c : Char, c.toLower.toLower = c.toLower :=
  apply_toLower (by decide)

@[simp] theorem toLower_toUpper (c : Char) : c.toUpper.toLower = c.toLower := by
  by_cases h : 97 ≤ c.toNat ∧ c.toNat ≤ 122
  · have hall : ∀ i : Fin 26, (Char.ofNat (97 + i)).toUpper.toLower =
        (Char.ofNat (97 + i)).toLower := by decide
    have hc := hall ⟨c.toNat - 97, by omega⟩
    rwa [show 97 + (c.toNat - 97) = c.toNat from Nat.add_sub_cancel' h.1, Char.ofNat_toNat] at hc
  · have hsame : c.toUpper = c := by
      refine dif_neg fun hval => h ?_
      exact ⟨UInt32.le_iff_toNat_le.1 hval.1, UInt32.le_iff_toNat_le.1 hval.2⟩
    rw [hsame]

/-! ## Lists of characters -/

section Lists

variable {p : Char → Bool}

theorem peek_lower (cs : List Char) : peek (cs.map Char.toLower) = (peek cs).toLower := by
  cases cs <;> rfl

theorem takeWhile_lower (hp : ∀ c : Char, p c.toLower = p c) (cs : List Char) :
    (cs.map Char.toLower).takeWhile p = (cs.takeWhile p).map Char.toLower := by
  rw [List.takeWhile_map, funext (f := p ∘ Char.toLower) hp]

theorem dropWhile_lower (hp : ∀ c : Char, p c.toLower = p c) (cs : List Char) :
    (cs.map Char.toLower).dropWhile p = (cs.dropWhile p).map Char.toLower := by
  rw [List.dropWhile_map, funext (f := p ∘ Char.toLower) hp]

/-- A mark that may be missing. -/
theorem optional_lower {c : Char} (hc : c.isAlpha = false) (b : Bool) :
    (if b then [c] else []).map Char.toLower = if b then [c] else [] := by
  cases b
  · rfl
  · exact congrArg (fun x => [x]) (toLower_of_isAlpha hc)

/-- A text without letters is compared with a text as with its lower case. -/
theorem beq_map_toLower {as : List Char} (has : ∀ c ∈ as, c.isAlpha = false) (cs : List Char) :
    (as == cs.map Char.toLower) = (as == cs) := by
  induction as generalizing cs with
  | nil => cases cs <;> rfl
  | cons a as ih =>
      rw [List.forall_mem_cons] at has
      cases cs with
      | nil => rfl
      | cons c cs =>
          rw [List.map_cons, List.cons_beq_cons, List.cons_beq_cons, ih has.2 cs, Bool.beq_comm,
            beq_toLower has.1, Bool.beq_comm]

@[simp] theorem Text.width_lower (cs : List Char) : width (cs.map Char.toLower) = width cs := by
  induction cs with
  | nil => rfl
  | cons c cs ih => rw [List.map_cons, width_cons, width_cons, utf8Size_toLower, ih]

end Lists

/-! ## Gaps -/

namespace Gap

/-- An outcome with what follows the gap in lower case. -/
def Outcome.lower : Outcome → Outcome
  | .passed skipped rest => .passed skipped (rest.map Char.toLower)
  | o => o

mutual

theorem between_lower (d : Dialect) (commented : Bool) (n : Nat) : ∀ cs,
    between d commented n (cs.map Char.toLower) = (between d commented n cs).lower
  | [] => by
      simp only [List.map_nil, between]
      rfl
  | [c] => by
      simp (disch := decide) only [List.map_cons, List.map_nil, between, isSpace_toLower,
        beq_toLower]
      split <;> rfl
  | a :: b :: cs => by
      have hspace := between_lower d commented (n + 1) (b :: cs)
      have hhash := inLine_lower d (n + 1) (b :: cs)
      have hline := inLine_lower d (n + 2) cs
      have hblock := fun hint => inBlock_lower d hint commented n (n + 2) cs
      rw [List.map_cons] at hspace hhash
      simp (disch := decide) only [List.map_cons, between, isSpace_toLower, beq_toLower, peek_lower,
        hspace, hhash, hline, hblock]
      split
      · rfl
      · split
        · rfl
        · split
          · rfl
          · split <;> rfl

theorem inLine_lower (d : Dialect) (n : Nat) : ∀ cs,
    inLine d n (cs.map Char.toLower) = (inLine d n cs).lower
  | [] => by
      simp only [List.map_nil, inLine]
      rfl
  | c :: cs => by
      simp (disch := decide) only [List.map_cons, inLine, beq_toLower, utf8Size_toLower,
        between_lower d true (n + 1) cs, inLine_lower d (n + c.utf8Size) cs]
      split <;> rfl

theorem inBlock_lower (d : Dialect) (hint commented : Bool) (start n : Nat) : ∀ cs,
    inBlock d hint commented start n (cs.map Char.toLower) =
      (inBlock d hint commented start n cs).lower
  | [] => by
      simp only [List.map_nil, inBlock]
      rfl
  | [_] => by
      simp only [List.map_cons, List.map_nil, inBlock]
      rfl
  | a :: b :: cs => by
      have hmore := inBlock_lower d hint commented start (n + a.utf8Size) (b :: cs)
      rw [List.map_cons] at hmore
      simp (disch := decide) only [List.map_cons, inBlock, beq_toLower, utf8Size_toLower,
        between_lower d (commented || !hint) (n + 2) cs, hmore]
      split <;> rfl

end

/-- A gap is skipped alike in lower case. -/
theorem skip_lower (d : Dialect) (cs : List Char) :
    skip d (cs.map Char.toLower) = (skip d cs).lower :=
  between_lower d false 0 cs

end Gap

/-! ## Values of digits -/

namespace Token

theorem digits?_lower (base : Nat) (ds : List Char) :
    digits? base (ds.map Char.toLower) = digits? base ds := by
  have hclass : (if base = 16 then isHexDigit else isDigit) ∘ Char.toLower =
      if base = 16 then isHexDigit else isDigit := by
    funext c
    rw [Function.comp_apply]
    split
    · exact isHexDigit_toLower c
    · exact isDigit_toLower c
  simp only [digits?, digitsValue, List.all_map, List.foldl_map, digitValue_toLower, ne_eq,
    List.map_eq_nil_iff, hclass]

theorem signed?_cons (base : Nat) (c : Char) (ds : List Char) :
    signed? base (c :: ds) =
      if c == '+' then (digits? base ds).map (fun n => (n : Int))
      else if c == '-' then (digits? base ds).map (fun n => -(n : Int))
      else (digits? base (c :: ds)).map (fun n => (n : Int)) := by
  unfold signed?
  split <;> simp_all

theorem signed?_lower (base : Nat) (ds : List Char) :
    signed? base (ds.map Char.toLower) = signed? base ds := by
  cases ds with
  | nil => rfl
  | cons c ds =>
      have hall := digits?_lower base (c :: ds)
      rw [List.map_cons] at hall
      simp (disch := decide) only [List.map_cons, signed?_cons, beq_toLower, digits?_lower, hall]

theorem decimal?_lower (text : List Char) : decimal? (text.map Char.toLower) = decimal? text := by
  rw [decimal?, signed?_lower, decimal?]

theorem hexDigits?_cons (c : Char) (ds : List Char) :
    hexDigits? (c :: ds) =
      if c == '-' then ((signed? 16 ds).bind within64?).map negate64
      else (signed? 16 (c :: ds)).bind within64? := by
  unfold hexDigits?
  split <;> simp_all

theorem hexDigits?_lower (ds : List Char) : hexDigits? (ds.map Char.toLower) = hexDigits? ds := by
  cases ds with
  | nil => rfl
  | cons c ds =>
      have hall := signed?_lower 16 (c :: ds)
      rw [List.map_cons] at hall
      simp (disch := decide) only [List.map_cons, hexDigits?_cons, beq_toLower, signed?_lower, hall]

end Token

/-! ## Lexemes -/

namespace Lexeme

/-- A lexeme in lower case. -/
def lower (l : Lexeme) : Lexeme := ⟨l.kind, l.text.map Char.toLower, l.rest.map Char.toLower⟩

theorem close?_lower {quote : Char} (hquote : quote.isAlpha = false) (escapes : Bool) : ∀ cs,
    close? quote escapes (cs.map Char.toLower) =
      (close? quote escapes cs).map fun x => (x.1.map Char.toLower, x.2.map Char.toLower)
  | [] => rfl
  | [c] => by
      simp (disch := decide) only [List.map_cons, List.map_nil, close?, beq_toLower hquote, bne,
        beq_toLower]
      split
      · simp
      · rfl
  | c :: d :: cs => by
      have hmore := close?_lower hquote escapes (d :: cs)
      rw [List.map_cons] at hmore
      simp (disch := decide) only [List.map_cons, close?, beq_toLower hquote, beq_toLower, hmore,
        close?_lower hquote escapes cs, Option.map_map, apply_ite (Option.map _), Option.map_some,
        Function.comp_def, List.map_nil]

theorem string_lower (d : Dialect) {quote : Char} (hquote : quote.isAlpha = false)
    (cs : List Char) :
    string d (quote :: cs.map Char.toLower) = (string d (quote :: cs)).map lower := by
  simp only [string, close?_lower hquote]
  cases close? quote (d.features.backslashEscapes && quote != '\x60') cs with
  | none => rfl
  | some x => simp [Except.map, lower, toLower_of_isAlpha hquote]

theorem nationalString_lower (d : Dialect) {quote : Char} (hquote : quote.isAlpha = false)
    (mark : Char) (cs : List Char) :
    nationalString d (mark.toLower :: quote :: cs.map Char.toLower) =
      (nationalString d (mark :: quote :: cs)).map lower := by
  simp only [nationalString, string_lower d hquote]
  cases string d (quote :: cs) <;> rfl

theorem beforeBy_lower (cs : List Char) : beforeBy (cs.map Char.toLower) = beforeBy cs := by
  rw [beforeBy, dropWhile_lower isSpace_toLower, beforeBy]
  cases cs.dropWhile isSpace with
  | nil => rfl
  | cons b cs =>
      cases cs with
      | nil => rfl
      | cons y rest =>
          simp only [List.map_cons, toLower_toLower, peek_lower, isWordChar_toLower]

theorem wordKind_lower (d : Dialect) (word rest : List Char) :
    wordKind d (word.map Char.toLower) (rest.map Char.toLower) = wordKind d word rest := by
  have hword : d.keyword? (word.map Char.toLower) = d.keyword? word := by
    simp only [Dialect.keyword?, Keyword.find?, List.map_map, Function.comp_def, toUpper_toLower]
  rw [wordKind, hword, beforeBy_lower, wordKind]

theorem word_lower (d : Dialect) (cs : List Char) :
    word d (cs.map Char.toLower) = (word d cs).lower := by
  simp only [word, takeWhile_lower isWordChar_toLower, dropWhile_lower isWordChar_toLower,
    wordKind_lower, lower]

theorem name_lower (d : Dialect) (cs : List Char) :
    name d (cs.map Char.toLower) = (name d cs).map lower := by
  cases cs with
  | nil => exact congrArg Except.ok (word_lower d [])
  | cons c cs =>
      have hword := word_lower d (c :: cs)
      rw [List.map_cons] at hword
      simp (disch := decide) only [List.map_cons, name, beq_toLower, hword]
      split
      · rename_i hc
        have hcaseless : c.isAlpha = false := by
          simp only [Bool.or_eq_true, Bool.and_eq_true, beq_iff_eq] at hc
          rcases hc with rfl | ⟨rfl, -⟩ <;> decide
        have hquote : (if (c == '[') = true then ']' else c).isAlpha = false := by
          split
          · decide
          · exact hcaseless
        rw [toLower_of_isAlpha hcaseless, close?_lower hquote]
        cases close? (if (c == '[') = true then ']' else c) false cs with
        | none => rfl
        | some x => simp [Except.map, lower, toLower_of_isAlpha hcaseless]
      · rfl

theorem sqlVariable_lower (cs : List Char) :
    sqlVariable (cs.map Char.toLower) = (sqlVariable cs).map lower := by
  cases cs with
  | nil => rfl
  | cons c cs =>
      have hnamed : ∀ x : Char, (isWordChar x.toLower || x.toLower == '.') =
          (isWordChar x || x == '.') := by
        intro x
        rw [isWordChar_toLower, beq_toLower (by decide)]
      have htake := takeWhile_lower (p := fun x => isWordChar x || x == '.') hnamed
      have hdrop := dropWhile_lower (p := fun x => isWordChar x || x == '.') hnamed
      have hmarks := optional_lower (c := '@') rfl (peek cs == '@')
      simp (disch := decide) only [List.map_cons, sqlVariable, peek_lower, beq_toLower,
        ← List.map_drop, htake, hdrop, List.isEmpty_map]
      generalize (if (peek cs == '@') = true then ['@'] else []) = marks at hmarks ⊢
      split
      · rfl
      · simp only [Except.map, lower, List.map_cons, List.map_append, hmarks]

theorem hexadecimal_lower (cs : List Char) :
    hexadecimal (cs.map Char.toLower) = (hexadecimal cs).map lower := by
  have hsign := optional_lower (c := '-') rfl (peek (cs.drop 2) == '-')
  simp (disch := decide) only [hexadecimal, ← List.map_drop, ← List.map_take, peek_lower,
    beq_toLower, takeWhile_lower isHexDigit_toLower, dropWhile_lower isHexDigit_toLower,
    List.isEmpty_map]
  generalize (if (peek (cs.drop 2) == '-') = true then ['-'] else []) = sign at hsign ⊢
  have hdigits : ∀ digits : List Char,
      Token.hexDigits? (sign ++ digits.map Char.toLower) = Token.hexDigits? (sign ++ digits) := by
    intro digits
    rw [← Token.hexDigits?_lower (sign ++ digits), List.map_append, hsign]
  rw [hdigits]
  split
  · rfl
  · split
    · rfl
    · simp only [Except.map, lower, List.map_append, hsign]

theorem fraction_cons (c : Char) (cs : List Char) :
    fraction (c :: cs) =
      if c == '.' then if peek cs == '.' then [] else '.' :: cs.takeWhile isDigit else [] := by
  unfold fraction
  split <;> simp_all

theorem fraction_lower (cs : List Char) :
    fraction (cs.map Char.toLower) = (fraction cs).map Char.toLower := by
  cases cs with
  | nil => rfl
  | cons c cs =>
      simp (disch := decide) only [List.map_cons, fraction_cons, beq_toLower, peek_lower,
        takeWhile_lower isDigit_toLower]
      split
      · split <;> rfl
      · rfl

theorem exponent_lower (cs : List Char) :
    exponent (cs.map Char.toLower) = (exponent cs).map Char.toLower := by
  cases cs with
  | nil => rfl
  | cons e cs =>
      have hmark : ∀ c : Char, (c.toLower == 'e' || c.toLower == 'E') = (c == 'e' || c == 'E') :=
        apply_toLower (f := fun c => c == 'e' || c == 'E') (by decide)
      have hsign : (if (peek cs == '+' || peek cs == '-') = true then [(peek cs).toLower] else []) =
          (if (peek cs == '+' || peek cs == '-') = true then [peek cs] else []).map Char.toLower := by
        split <;> rfl
      simp (disch := decide) only [List.map_cons, exponent, hmark, peek_lower, beq_toLower, hsign,
        List.length_map, ← List.map_drop, takeWhile_lower isDigit_toLower, List.isEmpty_map]
      generalize (if (peek cs == '+' || peek cs == '-') = true then [peek cs] else []) = sign
      split
      · split
        · rfl
        · rw [List.map_append, List.map_cons]
      · rfl

theorem suffix_lower (cs : List Char) :
    suffix (cs.map Char.toLower) = (suffix cs).map Char.toLower := by
  cases cs with
  | nil => rfl
  | cons c cs =>
      simp only [List.map_cons, suffix, isFloatSuffix_toLower, peek_lower, isWordChar_toLower]
      split <;> rfl

theorem number_lower (cs : List Char) :
    number (cs.map Char.toLower) = (number cs).map lower := by
  have hsign := optional_lower (c := '-') rfl (peek cs == '-')
  simp (disch := decide) only [number, peek_lower, beq_toLower, ← List.map_drop,
    takeWhile_lower isDigit_toLower, dropWhile_lower isDigit_toLower, fraction_lower,
    List.length_map, exponent_lower, suffix_lower, List.isEmpty_map]
  generalize (if (peek cs == '-') = true then ['-'] else []) = sign at hsign ⊢
  have htext : ∀ whole frac expo suff : List Char,
      sign ++ whole.map Char.toLower ++ frac.map Char.toLower ++ expo.map Char.toLower ++
        suff.map Char.toLower = (sign ++ whole ++ frac ++ expo ++ suff).map Char.toLower := by
    intro whole frac expo suff
    simp only [List.map_append, hsign]
  rw [htext, Token.decimal?_lower]
  split
  · split <;> rfl
  · rfl

theorem operator_lower (cs : List Char) :
    operator (cs.map Char.toLower) = (operator cs).map lower := by
  have hmarks : (Symbol.all.all fun s => s.spelling.toList.all fun c => !c.isAlpha) = true := by
    decide
  have hfind : ∀ text : List Char, Symbol.find? (text.map Char.toLower) = Symbol.find? text := by
    intro text
    refine List.find?_congr fun s hs => beq_map_toLower (fun c hc => ?_) text
    simpa using List.all_eq_true.1 (List.all_eq_true.1 hmarks s hs) c hc
  have hwithin : ∀ n, operatorWithin (cs.map Char.toLower) n = (operatorWithin cs n).map lower := by
    intro n
    induction n with
    | zero => rfl
    | succ n ih =>
        simp only [operatorWithin, ← List.map_take, ← List.map_drop, hfind, ih]
        cases Symbol.find? (cs.take (n + 1)) <;> rfl
  exact hwithin _

theorem startsNumber_lower (b : Before) (cs : List Char) :
    startsNumber b (cs.map Char.toLower) = startsNumber b cs := by
  simp (disch := decide) only [startsNumber, ← List.map_drop, peek_lower, isDigit_toLower,
    beq_toLower]

/-- The next token of a text in lower case is that of the text. -/
theorem read_lower (d : Dialect) (b : Before) (cs : List Char) :
    read d b (cs.map Char.toLower) = (read d b cs).map lower := by
  have hnational : ∀ c : Char, (c.toLower == 'N' || c.toLower == 'n') = (c == 'N' || c == 'n') :=
    apply_toLower (f := fun c => c == 'N' || c == 'n') (by decide)
  have hhex : ∀ c : Char, (c.toLower == 'x' || c.toLower == 'X') = (c == 'x' || c == 'X') :=
    apply_toLower (f := fun c => c == 'x' || c == 'X') (by decide)
  simp (disch := decide) only [read, ← List.map_drop, peek_lower, beq_toLower, hnational, hhex,
    isWordStart_toLower, isSymbolStart_toLower, startsNumber_lower]
  split
  · exact sqlVariable_lower cs
  · split
    · rename_i h
      simp only [Bool.and_eq_true, beq_iff_eq] at h
      -- The mark is followed by a quote, which is the same in lower case.
      rcases cs with _ | ⟨mark, _ | ⟨quote, cs⟩⟩
      · cases h.2
      · cases h.2
      · obtain rfl : quote = '\x27' := h.2
        exact nationalString_lower d rfl mark cs
    · split
      · exact name_lower d cs
      · split
        · exact hexadecimal_lower cs
        · split
          · exact number_lower cs
          · split
            · exact operator_lower cs
            · split
              · rename_i h
                rcases cs with _ | ⟨quote, cs⟩
                · cases h
                · have hquote : quote.isAlpha = false := by
                    simp only [Bool.or_eq_true, beq_iff_eq] at h
                    rcases h with rfl | rfl <;> rfl
                  rw [List.map_cons, toLower_of_isAlpha hquote]
                  exact string_lower d hquote cs
              · rfl

end Lexeme

/-! ## Streams -/

/-- A token with its text in lower case. -/
def Token.lower (t : Token) : Token := { t with text := Text.folded t.text }

namespace TokenStream

/-- A stream with the texts of its tokens in lower case. -/
def lower (s : TokenStream) : TokenStream := { s with tokens := s.tokens.map Token.lower }

/-- A step with the text of its token in lower case. -/
def Step.lower : Step → Step
  | .token start l => .token start l.lower
  | s => s

theorem after_lower (previous : Option Lexeme) (gap : Nat) :
    after (previous.map Lexeme.lower) gap = after previous gap := by
  cases previous with
  | none => rfl
  | some l =>
      simp only [Option.map_some, after, Lexeme.lower, List.getLast?_map, Option.map_map,
        Function.comp_def, isWordChar_toLower]

theorem step_lower (d : Dialect) (offset : Nat) (previous : Option Lexeme) (cs : List Char) :
    step d offset (previous.map Lexeme.lower) (cs.map Char.toLower) =
      (step d offset previous cs).lower := by
  simp only [step, Gap.skip_lower]
  cases Gap.skip d cs with
  | unclosed skipped cause again => rfl
  | passed skipped rest =>
      cases rest with
      | nil => rfl
      | cons c rest =>
          have hread := Lexeme.read_lower d (after previous skipped) (c :: rest)
          rw [List.map_cons] at hread
          simp only [Gap.Outcome.lower, List.map_cons, after_lower, hread]
          cases Lexeme.read d (after previous skipped) (c :: rest) <;> rfl

theorem tokenAt_lower (start : Nat) (l : Lexeme) :
    tokenAt start l.lower = (tokenAt start l).lower := by
  simp only [tokenAt, Lexeme.lower, Token.lower, Text.folded, Text.width_lower, String.toList_ofList]

theorem readFrom_lower (d : Dialect) (fuel offset : Nat) (previous : Option Lexeme)
    (cs : List Char) :
    readFrom d fuel offset (previous.map Lexeme.lower) (cs.map Char.toLower) =
      (readFrom d fuel offset previous cs).lower := by
  induction fuel generalizing offset previous cs with
  | zero => rfl
  | succ fuel ih =>
      rw [readFrom, step_lower, readFrom]
      cases step d offset previous cs with
      | finished stop => rfl
      | failed fault => rfl
      | token start l =>
          have hmore := ih (start + Text.width l.text) (some l) l.rest
          simp only [Step.lower, tokenAt_lower, lower, List.map_cons]
          rw [Option.map_some] at hmore
          rw [show Text.width l.lower.text = Text.width l.text from Text.width_lower _,
            show l.lower.rest = l.rest.map Char.toLower from rfl, hmore]
          rfl

/-- The tokens of a text in lower case are those of the text, in lower case. -/
theorem ofText_lower (d : Dialect) (source : List Char) :
    ofText d (source.map Char.toLower) = (ofText d source).lower := by
  have hfits : Span.fits (source.map Char.toLower) = Span.fits source := by
    simp only [Span.fits, List.foldl_map, utf8Size_toLower]
  rw [ofText, hfits, List.length_map, ofText]
  split
  · exact readFrom_lower d _ 0 none source
  · rfl

end TokenStream

end SqlMarkers
