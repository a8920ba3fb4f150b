/-
SqlMarkers.Proofs.Bytewise — reading tokens at byte offsets.

`Bytewise.tokenize` reads the tokens of a text at offsets into its bytes and cuts their texts
out afterwards. It may stop at any byte, also inside a character, and a cut there fails.
It never does: what a reader of tokens finds in the bytes of a text are the bytes of what it
finds in the text (`Lexeme.split_bytes`), so every offset it reaches stands between
characters, and `Bytewise.tokenize_eq` says that the outcome is that of `tokenize`.
-/
import Mathlib.Data.List.Basic
import SqlMarkers.Proofs.Bytes
import SqlMarkers.Proofs.Rereading

namespace SqlMarkers

open CharClass

theorem blind_isSpace : Blind isSpace := Blind.of_eq isSpace_of_isWide

theorem blind_isWordChar : Blind isWordChar := Blind.of_eq isWordChar_of_isWide

/-- All keywords are ASCII. -/
theorem Keyword.ascii_spelling (k : Keyword) : Text.Ascii k.spelling.toList := by
  cases k <;> decide

/-! ## Lexemes -/

namespace Lexeme

open Text

/-- A lexeme with bytes for characters. -/
def bytes (l : Lexeme) : Lexeme := ⟨l.kind, Text.bytes l.text, Text.bytes l.rest⟩

/-! ### Quoted text -/

theorem close?_charBytes {quote c : Char} (hquote : isWide quote = false) (hc : isWide c = true)
    (escapes : Bool) (tail : List Char) :
    close? quote escapes (charBytes c ++ tail) =
      (close? quote escapes tail).map fun x => (charBytes c ++ x.1, x.2) :=
  close?_run (fun _ hb => ⟨ne_of_isWide (isWide_of_mem_charBytes hc _ hb) rfl,
    ne_of_isWide (isWide_of_mem_charBytes hc _ hb) hquote⟩) escapes tail

theorem close?_bytes {quote : Char} (hquote : isWide quote = false) (escapes : Bool)
    (cs : List Char) :
    close? quote escapes (Text.bytes cs) =
      (close? quote escapes cs).map fun x => (Text.bytes x.1, Text.bytes x.2) := by
  fun_induction close? quote escapes cs with
  | case1 => rfl
  | case2 c hc =>
      have hascii : isWide c = false := by
        simp only [Bool.and_eq_true, beq_iff_eq] at hc
        rw [hc.1.1, hquote]
      rw [bytes_cons_ascii hascii, bytes_nil, close?, if_pos hc]
      simp [charBytes_ascii hascii]
  | case3 c hc =>
      cases hascii : isWide c with
      | false =>
          rw [bytes_cons_ascii hascii, bytes_nil, close?, if_neg hc]
          rfl
      | true =>
          rw [bytes_cons, close?_charBytes hquote hascii]
          rfl
  | case4 c d cs hc ih =>
      obtain rfl : c = '\\' := by
        simp only [Bool.and_eq_true, beq_iff_eq] at hc
        exact hc.1
      -- The backslash escapes the first byte only; no other byte of the character can close.
      obtain ⟨b, run, hd, hrun⟩ := charBytes_eq_cons d
      have hplain : ∀ x ∈ run, x ≠ '\\' ∧ x ≠ quote := fun x hx =>
        ⟨ne_of_isWide (hrun x hx) rfl, ne_of_isWide (hrun x hx) hquote⟩
      have hpass := close?_run hplain escapes (Text.bytes cs)
      rw [bytes_cons_ascii rfl, bytes_cons, hd, List.cons_append, close?, if_pos hc, hpass, ih,
        Option.map_map, Option.map_map, Option.map_map]
      congr 1
      funext x
      simp [charBytes_ascii (c := '\\') rfl, hd]
  | case5 c d cs hc hq hd ih =>
      have hcascii : isWide c = false := by rw [beq_iff_eq.1 hq, hquote]
      have hdascii : isWide d = false := by rw [beq_iff_eq.1 hd, hquote]
      rw [bytes_cons_ascii hcascii, bytes_cons_ascii hdascii, close?, if_neg hc, if_pos hq,
        if_pos hd, ih, Option.map_map, Option.map_map]
      congr 1
      funext x
      simp [charBytes_ascii hcascii, charBytes_ascii hdascii]
  | case6 c d cs hc hq hd =>
      have hcascii : isWide c = false := by rw [beq_iff_eq.1 hq, hquote]
      obtain ⟨b, run, hb, -⟩ := charBytes_eq_cons d
      have hbquote : (b == quote) = (d == quote) :=
        apply_of_mem_charBytes (blind_beq hquote) (hb ▸ List.mem_cons_self)
      rw [bytes_cons_ascii hcascii, bytes_cons, hb, List.cons_append, close?, if_neg hc, if_pos hq,
        if_neg (by rwa [hbquote])]
      simp [charBytes_ascii hcascii, hb]
  | case7 c d cs hc hq ih =>
      cases hascii : isWide c with
      | false =>
          rw [bytes_cons_ascii hascii, close?_plain (by simpa using hc) (by simpa using hq), ih,
            Option.map_map, Option.map_map]
          congr 1
          funext x
          simp [charBytes_ascii hascii]
      | true =>
          rw [bytes_cons, close?_charBytes hquote hascii, ih, Option.map_map, Option.map_map]
          congr 1
          funext x
          simp

theorem string_bytes (d : Dialect) {quote : Char} (hquote : isWide quote = false)
    (cs : List Char) :
    string d (quote :: Text.bytes cs) = (string d (quote :: cs)).map bytes := by
  simp only [string, close?_bytes hquote]
  cases close? quote (d.features.backslashEscapes && quote != '\x60') cs with
  | none => rfl
  | some x => simp [Except.map, bytes, charBytes_ascii hquote]

theorem nationalString_bytes (d : Dialect) {mark quote : Char} (hmark : isWide mark = false)
    (hquote : isWide quote = false) (cs : List Char) :
    nationalString d (mark :: quote :: Text.bytes cs) =
      (nationalString d (mark :: quote :: cs)).map bytes := by
  simp only [nationalString, string_bytes d hquote]
  cases string d (quote :: cs) with
  | error slip => rfl
  | ok l => simp [Except.map, bytes, charBytes_ascii hmark]

/-! ### Names and variables -/

/-- The word `BY`, looked for character by character. -/
theorem beforeBy_eq (cs : List Char) :
    beforeBy cs = ((peek (cs.dropWhile isSpace)).toLower == 'b' &&
      ((peek ((cs.dropWhile isSpace).drop 1)).toLower == 'y' &&
        !isWordChar (peek (((cs.dropWhile isSpace).drop 1).drop 1)))) := by
  rw [beforeBy]
  rcases cs.dropWhile isSpace with _ | ⟨b, _ | ⟨y, rest⟩⟩
  · rfl
  · exact (Bool.and_false _).symm
  · exact Bool.and_assoc _ _ _

/-- A condition on the first character that none outside ASCII meets, and one on what follows. -/
theorem and_bytes {p : Char → Bool} (hp : ∀ {c}, isWide c = true → p c = false)
    {m : List Char → Bool} {cs : List Char} (hm : m (Text.bytes (cs.drop 1)) = m (cs.drop 1)) :
    (p (peek (Text.bytes cs)) && m ((Text.bytes cs).drop 1)) =
      (p (peek cs) && m (cs.drop 1)) := by
  rw [peek_bytes (Blind.of_eq hp)]
  cases hfirst : isWide (peek cs) with
  | false => rw [drop_one_bytes hfirst, hm]
  | true => rw [hp hfirst, Bool.false_and, Bool.false_and]

theorem beforeBy_bytes (cs : List Char) : beforeBy (Text.bytes cs) = beforeBy cs := by
  have hletter : ∀ q : Char, isWide q = false →
      ∀ {c : Char}, isWide c = true → (c.toLower == q) = false := by
    intro q hq c hc
    rw [toLower_of_isWide hc, beq_of_isWide hc hq]
  rw [beforeBy_eq, beforeBy_eq, dropWhile_bytes blind_isSpace]
  refine and_bytes (p := fun c => c.toLower == 'b') (hletter 'b' rfl) (m := fun cs =>
    (peek cs).toLower == 'y' && !isWordChar (peek (cs.drop 1))) ?_
  refine and_bytes (p := fun c => c.toLower == 'y') (hletter 'y' rfl) (m := fun cs =>
    !isWordChar (peek cs)) ?_
  rw [peek_bytes blind_isWordChar]

theorem keyword?_bytes (d : Dialect) (word : List Char) :
    d.keyword? (Text.bytes word) = d.keyword? word :=
  List.find?_congr fun k _ => beq_map_bytes (Keyword.ascii_spelling k) isWide_toUpper word

theorem word_bytes (d : Dialect) (cs : List Char) : word d (Text.bytes cs) = (word d cs).bytes := by
  simp only [word, takeWhile_bytes blind_isWordChar, dropWhile_bytes blind_isWordChar, wordKind,
    keyword?_bytes, beforeBy_bytes, bytes]

theorem name_bytes (d : Dialect) (cs : List Char) :
    name d (Text.bytes cs) = (name d cs).map bytes := by
  cases cs with
  | nil => exact congrArg Except.ok (word_bytes d [])
  | cons c cs =>
      cases hc : isWide c with
      | true =>
          obtain ⟨b, run, hb, hbwide, -⟩ := charBytes_wide hc
          have hword := word_bytes d (c :: cs)
          rw [bytes_cons, hb, List.cons_append] at hword ⊢
          simp only [name, beq_of_isWide hc (show isWide '\x60' = false from rfl),
            beq_of_isWide hc (show isWide '[' = false from rfl),
            beq_of_isWide hbwide (show isWide '\x60' = false from rfl),
            beq_of_isWide hbwide (show isWide '[' = false from rfl), hword]
          rfl
      | false =>
          have hword := word_bytes d (c :: cs)
          rw [bytes_cons_ascii hc] at hword ⊢
          have hquote : isWide (if c == '[' then ']' else c) = false := by
            split
            · rfl
            · exact hc
          simp only [name, close?_bytes hquote, hword]
          split
          · cases close? (if c == '[' then ']' else c) false cs with
            | none => rfl
            | some x => simp [Except.map, bytes, charBytes_ascii hc]
          · rfl

/-- A mark that may be missing stands in front of the bytes as it does in front of the text. -/
theorem drop_optional_bytes {q : Char} (hq : isWide q = false) (hend : q ≠ endMark)
    (cs : List Char) :
    (Text.bytes cs).drop (if peek cs == q then [q] else []).length =
      Text.bytes (cs.drop (if peek cs == q then [q] else []).length) := by
  refine drop_bytes ⟨_, optional_append hend (by simp)⟩ ?_
  split <;> simp [Ascii, hq]

theorem optional_bytes {q : Char} (hq : isWide q = false) (b : Bool) :
    Text.bytes (if b then [q] else []) = if b then [q] else [] := by
  cases b
  · rfl
  · exact bytes_ascii (by simpa [Ascii] using hq)

theorem sqlVariable_bytes {c : Char} (hc : isWide c = false) (cs : List Char) :
    sqlVariable (c :: Text.bytes cs) = (sqlVariable (c :: cs)).map bytes := by
  have hnamed : Blind fun x => isWordChar x || x == '.' :=
    Blind.of_eq (x := true) fun hx => by simp only [isWordChar_of_isWide hx, Bool.true_or]
  have hdrop := drop_optional_bytes (q := '@') rfl (by decide) cs
  have hmarks := optional_bytes (q := '@') rfl (peek cs == '@')
  simp only [sqlVariable, beq_peek_bytes (q := '@') rfl]
  generalize (if (peek cs == '@') = true then ['@'] else []) = marks at hdrop hmarks ⊢
  rw [hdrop, takeWhile_bytes hnamed, dropWhile_bytes hnamed, isEmpty_bytes]
  split
  · rfl
  · simp [Except.map, bytes, hmarks, charBytes_ascii hc]

theorem hexadecimal_bytes {a b : Char} (ha : isWide a = false) (hb : isWide b = false)
    (cs : List Char) :
    hexadecimal (a :: b :: Text.bytes cs) = (hexadecimal (a :: b :: cs)).map bytes := by
  have hdrop := drop_optional_bytes (q := '-') rfl (by decide) cs
  have hsign := optional_bytes (q := '-') rfl (peek cs == '-')
  simp only [hexadecimal, List.drop_succ_cons, List.drop_zero, beq_peek_bytes (q := '-') rfl]
  generalize (if (peek cs == '-') = true then ['-'] else []) = sign at hdrop hsign ⊢
  rw [hdrop, takeWhile_bytes_narrow isHexDigit_of_isWide,
    dropWhile_bytes (Blind.of_eq isHexDigit_of_isWide)]
  split
  · rfl
  · split
    · rfl
    · have hdigits : Text.bytes ((cs.drop sign.length).takeWhile isHexDigit) =
          (cs.drop sign.length).takeWhile isHexDigit := by
        rw [← takeWhile_bytes (Blind.of_eq isHexDigit_of_isWide),
          takeWhile_bytes_narrow isHexDigit_of_isWide]
      simp [Except.map, bytes, hsign, hdigits, charBytes_ascii ha, charBytes_ascii hb]

/-! ### Numbers -/

theorem takeWhile_digits_bytes (cs : List Char) :
    (Text.bytes cs).takeWhile isDigit = cs.takeWhile isDigit :=
  takeWhile_bytes_narrow isDigit_of_isWide cs

theorem fraction_bytes (cs : List Char) : fraction (Text.bytes cs) = fraction cs := by
  cases cs with
  | nil => rfl
  | cons c cs =>
      cases hc : isWide c with
      | true =>
          obtain ⟨b, run, hb, hbwide, -⟩ := charBytes_wide hc
          rw [bytes_cons, hb, List.cons_append, fraction_cons, fraction_cons,
            beq_of_isWide hc rfl, beq_of_isWide hbwide rfl]
          rfl
      | false =>
          rw [bytes_cons_ascii hc, fraction_cons, fraction_cons, beq_peek_bytes rfl,
            takeWhile_digits_bytes]

/-- The sign and the digits behind the mark of an exponent. -/
theorem exponent_cons (e : Char) (cs : List Char) :
    exponent (e :: cs) =
      if e == 'e' || e == 'E' then
        if peek cs == '+' || peek cs == '-' then
          if ((cs.drop 1).takeWhile isDigit).isEmpty then []
          else e :: peek cs :: (cs.drop 1).takeWhile isDigit
        else if (cs.takeWhile isDigit).isEmpty then [] else e :: cs.takeWhile isDigit
      else [] := by
  rw [exponent]
  cases hsign : peek cs == '+' || peek cs == '-' <;> rfl

theorem exponent_bytes (cs : List Char) : exponent (Text.bytes cs) = exponent cs := by
  cases cs with
  | nil => rfl
  | cons e cs =>
      cases he : isWide e with
      | true =>
          obtain ⟨b, run, hb, hbwide, -⟩ := charBytes_wide he
          rw [bytes_cons, hb, List.cons_append]
          simp only [exponent, beq_of_isWide he (show isWide 'e' = false from rfl),
            beq_of_isWide he (show isWide 'E' = false from rfl),
            beq_of_isWide hbwide (show isWide 'e' = false from rfl),
            beq_of_isWide hbwide (show isWide 'E' = false from rfl)]
          rfl
      | false =>
          rw [bytes_cons_ascii he, exponent_cons, exponent_cons, beq_peek_bytes rfl,
            beq_peek_bytes rfl, takeWhile_digits_bytes]
          split
          · split
            · rename_i hsign
              have hfirst : isWide (peek cs) = false := by
                simp only [Bool.or_eq_true, beq_iff_eq] at hsign
                rcases hsign with hsign | hsign <;> rw [hsign] <;> rfl
              rw [drop_one_bytes hfirst, takeWhile_digits_bytes, peek_bytes_ascii hfirst]
            · rfl
          · rfl

theorem suffix_bytes (cs : List Char) : suffix (Text.bytes cs) = suffix cs := by
  cases cs with
  | nil => rfl
  | cons c cs =>
      cases hc : isWide c with
      | true =>
          obtain ⟨b, run, hb, hbwide, -⟩ := charBytes_wide hc
          rw [bytes_cons, hb, List.cons_append, suffix, suffix, isFloatSuffix_of_isWide hc,
            isFloatSuffix_of_isWide hbwide]
          rfl
      | false => rw [bytes_cons_ascii hc, suffix, suffix, peek_bytes blind_isWordChar]

theorem not_isWide {p : Char → Bool} (hp : ∀ {c}, isWide c = true → p c = false) {c : Char}
    (hc : p c = true) : isWide c = false := by
  rw [Bool.eq_false_iff]
  intro hwide
  cases (hp hwide).symm.trans hc

theorem ascii_digits (cs : List Char) : Ascii (cs.takeWhile isDigit) :=
  fun _ hc => not_isWide isDigit_of_isWide (List.mem_takeWhile_imp hc)

theorem ascii_fraction (cs : List Char) : Ascii (fraction cs) := by
  cases cs with
  | nil => exact ascii_nil
  | cons c cs =>
      rw [fraction_cons]
      split
      · split
        · exact ascii_nil
        · exact ascii_cons.2 ⟨rfl, ascii_digits cs⟩
      · exact ascii_nil

theorem ascii_exponent (cs : List Char) : Ascii (exponent cs) := by
  cases cs with
  | nil => exact ascii_nil
  | cons e cs =>
      rw [exponent_cons]
      split
      · rename_i hmark
        have he : isWide e = false := by
          simp only [Bool.or_eq_true, beq_iff_eq] at hmark
          rcases hmark with rfl | rfl <;> rfl
        split
        · rename_i hsign
          have hfirst : isWide (peek cs) = false := by
            simp only [Bool.or_eq_true, beq_iff_eq] at hsign
            rcases hsign with hsign | hsign <;> rw [hsign] <;> rfl
          split
          · exact ascii_nil
          · exact ascii_cons.2 ⟨he, ascii_cons.2 ⟨hfirst, ascii_digits _⟩⟩
        · split
          · exact ascii_nil
          · exact ascii_cons.2 ⟨he, ascii_digits cs⟩
      · exact ascii_nil

theorem ascii_suffix (cs : List Char) : Ascii (suffix cs) := by
  cases cs with
  | nil => exact ascii_nil
  | cons c cs =>
      rw [suffix]
      split
      · rename_i hc
        have hsuffix := (Bool.and_eq_true_iff.1 hc).1
        exact ascii_cons.2 ⟨not_isWide isFloatSuffix_of_isWide hsuffix,
          ascii_nil⟩
      · exact ascii_nil

namespace Numeral

variable {sign whole frac expo suff rest : List Char}

theorem ascii (h : Numeral sign whole frac expo suff rest) :
    Ascii sign ∧ Ascii whole ∧ Ascii frac ∧ Ascii expo ∧ Ascii suff := by
  refine ⟨?_, h.digits ▸ ascii_digits _, h.fractional ▸ ascii_fraction _,
    h.exponential ▸ ascii_exponent _, h.suffixed ▸ ascii_suffix _⟩
  rw [← h.signed]
  split
  · exact ascii_cons.2 ⟨rfl, ascii_nil⟩
  · exact ascii_nil

/-- The parts of a number are those in front of the bytes of what follows it. -/
theorem bytes (h : Numeral sign whole frac expo suff rest) :
    Numeral sign whole frac expo suff (Text.bytes rest) := by
  obtain ⟨hsign, hwhole, hfrac, hexpo, hsuff⟩ := h.ascii
  have h₄ : Text.bytes (suff ++ rest) = suff ++ Text.bytes rest := by
    rw [bytes_append, bytes_ascii hsuff]
  have h₃ : Text.bytes (expo ++ (suff ++ rest)) = expo ++ (suff ++ Text.bytes rest) := by
    rw [bytes_append, bytes_ascii hexpo, h₄]
  have h₂ : Text.bytes (frac ++ (expo ++ (suff ++ rest))) =
      frac ++ (expo ++ (suff ++ Text.bytes rest)) := by
    rw [bytes_append, bytes_ascii hfrac, h₃]
  have h₁ : Text.bytes (whole ++ (frac ++ (expo ++ (suff ++ rest)))) =
      whole ++ (frac ++ (expo ++ (suff ++ Text.bytes rest))) := by
    rw [bytes_append, bytes_ascii hwhole, h₂]
  refine ⟨?_, ?_, ?_, ?_, ?_⟩
  · rw [← h₁, ← bytes_ascii hsign, ← bytes_append, beq_peek_bytes rfl, bytes_ascii hsign]
    exact h.signed
  · rw [← h₁, takeWhile_digits_bytes]
    exact h.digits
  · rw [← h₂, fraction_bytes]
    exact h.fractional
  · rw [← h₃, exponent_bytes]
    exact h.exponential
  · rw [← h₄, suffix_bytes]
    exact h.suffixed

end Numeral

theorem number_bytes (cs : List Char) : number (Text.bytes cs) = (number cs).map bytes := by
  obtain ⟨sign, whole, frac, expo, suff, rest, rfl, h⟩ := exists_numeral cs
  obtain ⟨hsign, hwhole, hfrac, hexpo, hsuff⟩ := h.ascii
  have htext : Text.bytes (sign ++ whole ++ frac ++ expo ++ suff) =
      sign ++ whole ++ frac ++ expo ++ suff := by
    simp only [bytes_append, bytes_ascii, hsign, hwhole, hfrac, hexpo, hsuff]
  have hall : Text.bytes (sign ++ (whole ++ (frac ++ (expo ++ (suff ++ rest))))) =
      sign ++ (whole ++ (frac ++ (expo ++ (suff ++ Text.bytes rest)))) := by
    simp only [bytes_append, bytes_ascii, hsign, hwhole, hfrac, hexpo, hsuff]
  rw [hall, h.bytes.number_eq, h.number_eq]
  split
  · split
    · rfl
    · simp only [Except.map, bytes, htext]
  · simp only [Except.map, bytes, htext]

theorem startsNumber_bytes (b : Before) (cs : List Char) :
    startsNumber b (Text.bytes cs) = startsNumber b cs := by
  have hdigit : ∀ cs, isDigit (peek (Text.bytes cs)) = isDigit (peek cs) :=
    peek_bytes (Blind.of_eq isDigit_of_isWide)
  have hpoint : ∀ cs (x : Bool), (peek (Text.bytes cs) == '.' &&
      (isDigit (peek ((Text.bytes cs).drop 1)) && x)) =
        (peek cs == '.' && (isDigit (peek (cs.drop 1)) && x)) := fun cs x =>
    and_bytes (p := (· == '.')) (fun hc => beq_of_isWide hc rfl)
      (m := fun cs => isDigit (peek cs) && x) (by rw [hdigit])
  have hsign : (peek (Text.bytes cs) == '-' && (!b.endsOperand &&
      (isDigit (peek ((Text.bytes cs).drop 1)) || peek ((Text.bytes cs).drop 1) == '.' &&
        (isDigit (peek (((Text.bytes cs).drop 1).drop 1)) && true)))) =
        (peek cs == '-' && (!b.endsOperand && (isDigit (peek (cs.drop 1)) ||
          peek (cs.drop 1) == '.' && (isDigit (peek ((cs.drop 1).drop 1)) && true)))) :=
    and_bytes (p := (· == '-')) (fun hc => beq_of_isWide hc rfl)
      (m := fun cs => !b.endsOperand && (isDigit (peek cs) ||
        peek cs == '.' && (isDigit (peek (cs.drop 1)) && true)))
      (by rw [hpoint, hdigit])
  simp only [Bool.and_true, List.drop_drop, Nat.reduceAdd] at hsign
  simp only [startsNumber, Bool.and_assoc, List.drop_zero, hdigit, hpoint, hsign]

/-! ### Symbols -/

theorem ascii_of_symbol {cs : List Char} {s : Symbol} (h : Symbol.find? cs = some s) :
    Ascii cs := by
  have hmarks : ∀ s ∈ Symbol.all, Ascii s.spelling.toList := by decide
  have hspelled : s.spelling.toList = cs := by simpa using List.find?_some h
  exact hspelled ▸ hmarks s (List.mem_of_find?_eq_some h)

theorem find?_symbol_wide {cs : List Char} (h : ∃ c ∈ cs, isWide c = true) :
    Symbol.find? cs = none := by
  obtain ⟨c, hc, hwide⟩ := h
  rw [Option.eq_none_iff_forall_ne_some]
  intro s hs
  cases hwide.symm.trans (ascii_of_symbol hs c hc)

theorem operator_bytes (cs : List Char) : operator (Text.bytes cs) = (operator cs).map bytes := by
  have hwithin : ∀ n, operatorWithin (Text.bytes cs) n = (operatorWithin cs n).map bytes := by
    intro n
    induction n with
    | zero => rfl
    | succ n ih =>
        rw [operatorWithin, operatorWithin]
        rcases take_bytes_cases (n + 1) cs with ⟨htake, htext, hdrop⟩ | ⟨hbytes, hcs⟩
        · rw [htake]
          cases Symbol.find? (cs.take (n + 1)) with
          | none => exact ih
          | some s => simp only [Except.map, bytes, htext, hdrop]
        · rw [find?_symbol_wide hbytes, find?_symbol_wide hcs]
          exact ih
  exact hwithin _

/-! ### Which form comes next -/

theorem formOf_wide (d : Dialect) {first : Char} (h : isWide first = true) (second : Char)
    (number : Bool) : formOf d first second number = some .name := by
  simp only [formOf, startsName, beq_of_isWide h (show isWide '@' = false from rfl),
    beq_of_isWide h (show isWide 'N' = false from rfl),
    beq_of_isWide h (show isWide 'n' = false from rfl), isWordStart_of_isWide h, Bool.and_false,
    Bool.false_and, Bool.or_false, Bool.true_or, if_true, Bool.false_eq_true, if_false]

theorem blind_second (d : Dialect) (first : Char) (number : Bool) :
    Blind fun second => formOf d first second number :=
  fun a b ha hb => by
    have hquote : (a == '\x27') = (b == '\x27') := blind_beq rfl a b ha hb
    have hx : (a == 'x') = (b == 'x') := blind_beq rfl a b ha hb
    have hX : (a == 'X') = (b == 'X') := blind_beq rfl a b ha hb
    simp only [formOf, hquote, hx, hX]

theorem formOf_bytes (d : Dialect) (cs : List Char) (number : Bool) :
    formOf d (peek (Text.bytes cs)) (peek ((Text.bytes cs).drop 1)) number =
      formOf d (peek cs) (peek (cs.drop 1)) number := by
  cases hfirst : isWide (peek cs) with
  | true =>
      have hwide : isWide (peek (Text.bytes cs)) = true := by
        rw [← hfirst]
        exact peek_bytes (f := isWide) (Blind.of_eq fun hc => hc) cs
      rw [formOf_wide d hfirst, formOf_wide d hwide]
  | false =>
      rw [peek_bytes_ascii hfirst, drop_one_bytes hfirst]
      exact peek_bytes (blind_second d (peek cs) number) (cs.drop 1)

theorem mark_of_peek {p q : Char} {cs : List Char} (hp : p ≠ endMark) (hq : q ≠ endMark)
    (hpascii : isWide p = false) (hqascii : isWide q = false) (h : peek cs = p ∨ peek cs = q) :
    ∃ c tail, cs = c :: tail ∧ isWide c = false := by
  rcases h with h | h
  · obtain ⟨tail, rfl⟩ := cons_of_peek hp h
    exact ⟨p, tail, rfl, hpascii⟩
  · obtain ⟨tail, rfl⟩ := cons_of_peek hq h
    exact ⟨q, tail, rfl, hqascii⟩

/-- What a form steps over before it reads on is ASCII where the form is chosen. -/
theorem ascii_lead {d : Dialect} {cs : List Char} {number : Bool} {f : Form}
    (h : formOf d (peek cs) (peek (cs.drop 1)) number = some f) :
    ∃ mark tail, cs = mark ++ tail ∧ mark.length = f.lead ∧ Ascii mark := by
  unfold formOf at h
  split_ifs at h with hvariable hnational hname hhex hnumber hsymbol hstring <;> cases h
  · simp only [Bool.and_eq_true, beq_iff_eq] at hvariable
    obtain ⟨tail, rfl⟩ := cons_of_peek (by decide) hvariable.2
    exact ⟨['@'], tail, rfl, rfl, ascii_cons.2 ⟨rfl, ascii_nil⟩⟩
  · simp only [Bool.and_eq_true, Bool.or_eq_true, beq_iff_eq] at hnational
    obtain ⟨⟨-, hmark⟩, hquote⟩ := hnational
    obtain ⟨mark, tail, rfl, hascii⟩ := mark_of_peek (by decide) (by decide) rfl rfl hmark
    obtain ⟨tail, rfl⟩ : ∃ rest, tail = '\x27' :: rest := cons_of_peek (by decide) hquote
    exact ⟨[mark, '\x27'], tail, rfl, rfl, ascii_cons.2 ⟨hascii, ascii_cons.2 ⟨rfl, ascii_nil⟩⟩⟩
  · exact ⟨[], cs, rfl, rfl, ascii_nil⟩
  · simp only [Bool.and_eq_true, Bool.or_eq_true, beq_iff_eq] at hhex
    obtain ⟨tail, rfl⟩ := cons_of_peek (by decide) hhex.1
    obtain ⟨mark, tail, rfl, hascii⟩ := mark_of_peek (by decide) (by decide) rfl rfl hhex.2
    exact ⟨['0', mark], tail, rfl, rfl,
      ascii_cons.2 ⟨rfl, ascii_cons.2 ⟨hascii, ascii_nil⟩⟩⟩
  · exact ⟨[], cs, rfl, rfl, ascii_nil⟩
  · exact ⟨[], cs, rfl, rfl, ascii_nil⟩
  · simp only [Bool.or_eq_true, beq_iff_eq] at hstring
    obtain ⟨quote, tail, rfl, hascii⟩ := mark_of_peek (by decide) (by decide) rfl rfl hstring
    exact ⟨[quote], tail, rfl, rfl, ascii_cons.2 ⟨hascii, ascii_nil⟩⟩

/-- A token is split off the bytes of a text as it is split off the text. -/
theorem split_bytes {d : Dialect} {cs : List Char} {number : Bool} {f : Form}
    (h : formOf d (peek cs) (peek (cs.drop 1)) number = some f) :
    f.split d (Text.bytes cs) = (f.split d cs).map bytes := by
  obtain ⟨mark, tail, rfl, hlead, hascii⟩ := ascii_lead h
  rw [bytes_append, bytes_ascii hascii]
  cases f with
  | sqlVariable =>
      obtain ⟨c, rfl⟩ := List.length_eq_one_iff.1 hlead
      exact sqlVariable_bytes (ascii_cons.1 hascii).1 tail
  | string =>
      obtain ⟨quote, rfl⟩ := List.length_eq_one_iff.1 hlead
      exact string_bytes d (ascii_cons.1 hascii).1 tail
  | nationalString =>
      obtain ⟨mark, quote, rfl⟩ := List.length_eq_two.1 hlead
      obtain ⟨hmark, hquote⟩ := ascii_cons.1 hascii
      exact nationalString_bytes d hmark (ascii_cons.1 hquote).1 tail
  | hexadecimal =>
      obtain ⟨a, b, rfl⟩ := List.length_eq_two.1 hlead
      obtain ⟨ha, hb⟩ := ascii_cons.1 hascii
      exact hexadecimal_bytes ha (ascii_cons.1 hb).1 tail
  | name =>
      obtain rfl := List.length_eq_zero_iff.1 hlead
      exact name_bytes d tail
  | number =>
      obtain rfl := List.length_eq_zero_iff.1 hlead
      exact number_bytes tail
  | operator =>
      obtain rfl := List.length_eq_zero_iff.1 hlead
      exact operator_bytes tail

end Lexeme

/-! ## What stands in front of a token -/

theorem getLast?_bytes {α : Type} {f : Char → α} (hf : Blind f) (cs : List Char) :
    (Text.bytes cs).getLast?.map f = cs.getLast?.map f := by
  rcases List.eq_nil_or_concat cs with rfl | ⟨init, c, rfl⟩
  · rfl
  · obtain ⟨front, b, hb⟩ := (List.eq_nil_or_concat (Text.charBytes c)).resolve_left
      (Text.charBytes_ne_nil c)
    have hmem : b ∈ Text.charBytes c := by simp [hb]
    have hbytes : Text.bytes (init ++ [c]) = Text.bytes init ++ front ++ [b] := by
      rw [Text.bytes_append, Text.bytes_cons, Text.bytes_nil, List.append_nil, hb,
        List.concat_eq_append, List.append_assoc]
    rw [List.concat_eq_append, hbytes, List.getLast?_concat, List.getLast?_concat, Option.map_some,
      Option.map_some, Text.apply_of_mem_charBytes hf hmem]

theorem Gap.Piece.last {d : Dialect} {piece : List Char} (h : Piece d piece) :
    ∃ front c, piece = front ++ [c] ∧ isWordChar c = false := by
  cases h with
  | space hc => exact ⟨[], _, rfl, Lexeme.isWordChar_of_isSpace hc⟩
  | line => exact ⟨_, '\n', rfl, rfl⟩
  | @comment body => exact ⟨['/', '*'] ++ body ++ ['*'], '/', by simp, rfl⟩
  | @hint body => exact ⟨['/', '*'] ++ body ++ ['*'], '/', by simp, rfl⟩

/-- No gap ends in a character of a word. -/
theorem Gap.Closed.last {d : Dialect} {gap : List Char} (h : Closed d gap) :
    ∀ c ∈ gap.getLast?, isWordChar c = false := by
  induction h with
  | nil =>
      intro c hc
      cases hc
  | @cons piece gap hpiece _ ih =>
      intro c hc
      by_cases hgap : gap = []
      · obtain ⟨front, x, rfl, hx⟩ := hpiece.last
        rw [hgap, List.append_nil, List.getLast?_concat] at hc
        obtain rfl : x = c := by simpa using hc
        exact hx
      · rw [List.getLast?_append_of_ne_nil _ hgap] at hc
        exact ih c hc

/-! ## Tokens at byte offsets -/

namespace Bytewise

/-- The bytes of a text from an offset on. -/
def bytesFrom (source : List Char) (offset : Nat) : List Char := (Text.bytes source).drop offset

/-- A lexical fault as it is reported. -/
def fault (source : List Char) (offset : Nat) (cause : LexicalCause) : Failure :=
  .error (Error.locate .lexical source offset cause.detail)

/-- What the token before, by its kind, and the byte in front of an offset tell about a token
there. -/
def before (source : List Char) (offset : Nat) (previous : Kind) : Lexeme.Before where
  endsOperand := previous.endsOperand
  touchesWord := (((Text.bytes source).take offset).getLast?.map isWordChar).getD false

/-- The offset behind the gap at an offset. The bytes are counted one by one here, because
stepping over a gap takes them for characters. -/
def skipAt (d : Dialect) (source : List Char) (offset : Nat) : Except Failure Nat :=
  let ahead := bytesFrom source offset
  match Gap.skip d ahead with
  | .passed _ behind => .ok (offset + (ahead.length - behind.length))
  | .unclosed skipped cause _ =>
      match Text.takeWidth? skipped ahead with
      | some gap => .error (fault source (offset + gap.length) cause)
      | none => .error .undecodable

/-- The token at an offset, cut out of the text. -/
def tokenAt (d : Dialect) (source : List Char) (previous : Kind) (offset : Nat) :
    Except Failure Token :=
  match bytesFrom source offset with
  | [] => .ok (.endAt offset)
  | b :: bs =>
      match Lexeme.formOf d b (peek bs)
          (Lexeme.startsNumber (before source offset previous) (b :: bs)) with
      | some f => f.readAt d source offset
      | none => .error (fault source offset .unrecognized)

/-- The tokens from an offset on, at most `fuel` of them. -/
def tokensFrom (d : Dialect) (source : List Char) : Nat → Nat → Kind → Except Failure (List Token)
  | 0, offset, _ => .error (fault source offset .unrecognized)
  | fuel + 1, offset, previous => do
      let start ← skipAt d source offset
      let t ← tokenAt d source previous start
      if t.isEnd then return [t]
      return t :: (← tokensFrom d source fuel t.span.stop t.kind)

/-- The tokens of a text. -/
def tokenize (d : Dialect) (source : List Char) : Except Failure (List Token) :=
  if Text.width source ≤ Span.limit then tokensFrom d source (source.length + 1) 0 .endOfInput
  else .error (fault source 0 .oversized)

/-! ### Offsets between characters -/

variable {d : Dialect} {front gap cs rest : List Char}

theorem bytesFrom_width (front cs : List Char) :
    bytesFrom (front ++ cs) (Text.width front) = Text.bytes cs := by
  rw [bytesFrom, Text.bytes_append, ← Text.length_bytes, List.drop_left]

theorem skipAt_passed (h : Gap.skip d (gap ++ rest) = .passed (Text.width gap) rest) :
    skipAt d (front ++ (gap ++ rest)) (Text.width front) =
      .ok (Text.width front + Text.width gap) := by
  have hbytes := Gap.skip_bytes d (gap ++ rest)
  rw [h] at hbytes
  generalize hskip : Gap.skip d (Text.bytes (gap ++ rest)) = o at hbytes
  cases hbytes with
  | passed =>
      simp only [skipAt, bytesFrom_width, hskip, Text.length_bytes, Text.width_append,
        Nat.add_sub_cancel]

theorem skipAt_unclosed {skipped : Nat} {cause again : LexicalCause}
    (h : Gap.skip d cs = .unclosed skipped cause again) :
    skipAt d (front ++ cs) (Text.width front) =
      .error (fault (front ++ cs) (Text.width front + skipped) cause) := by
  have hbytes := Gap.skip_bytes d cs
  rw [h] at hbytes
  generalize hskip : Gap.skip d (Text.bytes cs) = o at hbytes
  cases hbytes with
  | unclosed cause again hat =>
      obtain ⟨gap, rfl, rfl, rfl⟩ := hat
      rw [Text.bytes_append] at hskip
      simp only [skipAt, bytesFrom_width, Text.bytes_append, hskip, Text.takeWidth?_width_append,
        Text.length_bytes]

/-- The token in front of an offset, if there is one, ends the text in front of it. -/
inductive Follows : List Char → Option Lexeme → Kind → Prop
  | start : Follows [] none .endOfInput
  | token (front : List Char) {l : Lexeme} :
      l.text ≠ [] → Follows (front ++ l.text) (some l) l.kind

theorem before_eq {previous : Option Lexeme} {kind : Kind} (h : Follows front previous kind)
    (hgap : Gap.Closed d gap) (cs : List Char) :
    before (front ++ (gap ++ cs)) (Text.width front + Text.width gap) kind =
      TokenStream.after previous (Text.width gap) := by
  have htake : (Text.bytes (front ++ (gap ++ cs))).take (Text.width front + Text.width gap) =
      Text.bytes (front ++ gap) := by
    rw [← List.append_assoc, Text.bytes_append, ← Text.width_append, ← Text.length_bytes,
      List.take_left]
  have hlast := getLast?_bytes blind_isWordChar (front ++ gap)
  rw [before, htake, hlast]
  by_cases hempty : gap = []
  · subst hempty
    rw [List.append_nil]
    cases h with
    | start => rfl
    | @token front l hne =>
        rw [List.getLast?_append_of_ne_nil _ hne]
        rfl
  · have hwidth : (Text.width gap == 0) = false := by
      obtain ⟨c, tail, rfl⟩ := List.exists_cons_of_ne_nil hempty
      have hsize := c.utf8Size_pos
      rw [Text.width_cons, beq_eq_false_iff_ne]
      omega
    have hword : ((gap.getLast?).map isWordChar).getD false = false := by
      cases hc : gap.getLast? with
      | none => rfl
      | some c => exact hgap.last c hc
    rw [List.getLast?_append_of_ne_nil _ hempty, hword]
    cases h with
    | start => rfl
    | token front hne =>
        simp only [TokenStream.after, hwidth, Bool.false_and]

/-- What is read at an offset is the token that starts there, or its fault. -/
theorem readAt_eq {b : Lexeme.Before} {f : Form}
    (hform : Lexeme.formOf d (peek cs) (peek (cs.drop 1)) (Lexeme.startsNumber b cs) = some f)
    (hfits : Text.width (front ++ cs) ≤ Span.limit) :
    f.readAt d (front ++ cs) (Text.width front) =
      match Lexeme.read d b cs with
      | .ok l => .ok (TokenStream.tokenAt (Text.width front) l)
      | .error slip => .error (fault (front ++ cs) (Text.width front + slip.skip) slip.cause) := by
  have hread : Lexeme.read d b cs = f.split d cs := Lexeme.read_of_formOf hform
  have hoffset : Text.width front ≤ Span.limit := by
    rw [Text.width_append] at hfits
    omega
  have hlead : f.lead ≤ 2 := by cases f <;> decide
  have hbytes : f.bytesFrom (front ++ cs) (Text.width front) = Text.bytes cs := by
    rw [Form.bytesFrom, if_neg]
    · exact bytesFrom_width front cs
    · simp only [Form.offsetCount, Span.limit] at hoffset ⊢
      omega
  rw [Form.readAt, hbytes, Lexeme.split_bytes hform, hread]
  cases hsplit : f.split d cs with
  | ok l =>
      have hwhole : l.text ++ l.rest = cs := (Lexeme.read_splits d b (hread.trans hsplit)).whole
      simp only [Except.map, Lexeme.bytes, Text.length_bytes]
      rw [← hwhole, Span.slice?, Text.slice?_width_append]
      rfl
  | error slip =>
      have hskip : slip.skip ≤ 1 := by
        rw [(Lexeme.slip_of_split hsplit).2]
        split <;> omega
      have hmod : (Text.width front + slip.skip) % Form.offsetCount =
          Text.width front + slip.skip := by
        refine Nat.mod_eq_of_lt ?_
        simp only [Form.offsetCount, Span.limit] at hoffset ⊢
        omega
      simp only [Except.map, Text.dropWidth?_width_append, Option.isNone_some, Bool.and_false,
        Bool.false_eq_true, if_false, hmod]
      rfl

/-- The outcome of reading a stream. -/
def outcome (source : List Char) (s : TokenStream) : Except Failure (List Token) :=
  match s.failure with
  | none => .ok s.tokens
  | some f => .error (fault source f.offset f.cause)

theorem outcome_cons (source : List Char) (t : Token) (s : TokenStream) :
    outcome source { s with tokens := t :: s.tokens } = (do return t :: (← outcome source s)) := by
  obtain ⟨tokens, failure⟩ := s
  cases failure <;> rfl

/-- The token behind a gap is the one that is read in the text. -/
theorem tokenAt_eq {previous : Option Lexeme} {kind : Kind} (h : Follows front previous kind)
    (hgap : Gap.Closed d gap) (hfits : Text.width (front ++ (gap ++ cs)) ≤ Span.limit)
    (hcs : cs ≠ []) :
    tokenAt d (front ++ (gap ++ cs)) kind (Text.width front + Text.width gap) =
      match Lexeme.read d (TokenStream.after previous (Text.width gap)) cs with
      | .ok l => .ok (TokenStream.tokenAt (Text.width front + Text.width gap) l)
      | .error slip => .error (fault (front ++ (gap ++ cs))
          (Text.width front + Text.width gap + slip.skip) slip.cause) := by
  obtain ⟨b, bs, hbs⟩ : ∃ b bs, Text.bytes cs = b :: bs := by
    refine List.exists_cons_of_ne_nil ?_
    rw [← List.isEmpty_eq_false_iff, Text.isEmpty_bytes, List.isEmpty_eq_false_iff]
    exact hcs
  have hahead : bytesFrom (front ++ (gap ++ cs)) (Text.width front + Text.width gap) =
      b :: bs := by
    rw [← List.append_assoc, ← Text.width_append, bytesFrom_width, hbs]
  have hnumber := Lexeme.startsNumber_bytes (TokenStream.after previous (Text.width gap)) cs
  have hform := Lexeme.formOf_bytes d cs
    (Lexeme.startsNumber (TokenStream.after previous (Text.width gap)) cs)
  rw [hbs] at hnumber hform
  rw [tokenAt, hahead, before_eq h hgap]
  simp only [hnumber]
  change (match Lexeme.formOf d (peek (b :: bs)) (peek ((b :: bs).drop 1)) _ with
    | some f => _ | none => _) = _
  rw [hform]
  cases hf : Lexeme.formOf d (peek cs) (peek (cs.drop 1))
      (Lexeme.startsNumber (TokenStream.after previous (Text.width gap)) cs) with
  | none =>
      rw [Lexeme.read_eq, hf]
      rfl
  | some f =>
      have hwidth : Text.width ((front ++ gap) ++ cs) ≤ Span.limit := by rwa [List.append_assoc]
      have hread := readAt_eq hf hwidth
      rwa [Text.width_append, List.append_assoc] at hread

/-- The tokens that are read at byte offsets are those of the stream, and so is the fault that
ends it. -/
theorem tokensFrom_eq {source : List Char} {previous : Option Lexeme} {kind : Kind}
    (h : Follows front previous kind) (hsource : front ++ cs = source)
    (hfits : Text.width source ≤ Span.limit) (fuel : Nat) :
    tokensFrom d source fuel (Text.width front) kind =
      outcome source (TokenStream.readFrom d fuel (Text.width front) previous cs) := by
  induction fuel generalizing front previous kind cs with
  | zero => rfl
  | succ fuel ih =>
      subst hsource
      rw [tokensFrom, TokenStream.readFrom, TokenStream.step]
      cases hskip : Gap.skip d cs with
      | unclosed skipped cause again =>
          rw [skipAt_unclosed hskip]
          rfl
      | passed skipped rest =>
          obtain ⟨gap, rfl, rfl, -, hclosed⟩ := Gap.skip_gap hskip
          rw [skipAt_passed hskip]
          cases rest with
          | nil =>
              have hend : bytesFrom (front ++ (gap ++ [])) (Text.width front + Text.width gap) = [] := by
                rw [← List.append_assoc, ← Text.width_append, bytesFrom_width, Text.bytes_nil]
              simp only [bind, Except.bind, tokenAt, hend]
              rfl
          | cons c rest =>
              have hread := tokenAt_eq h (hclosed (List.cons_ne_nil c rest)) hfits
                (List.cons_ne_nil c rest)
              simp only [bind, Except.bind, hread]
              cases hl : Lexeme.read d (TokenStream.after previous (Text.width gap)) (c :: rest) with
              | error slip => rfl
              | ok l =>
                  have hsplit := Lexeme.read_splits d _ hl
                  have hwhole : (front ++ gap) ++ l.text ++ l.rest = front ++ (gap ++ c :: rest) := by
                    rw [List.append_assoc, List.append_assoc, hsplit.whole]
                  have hmore := ih (.token (front ++ gap) hsplit.nonempty) hwhole
                  have hend : (TokenStream.tokenAt (Text.width front + Text.width gap) l).isEnd =
                      false := beq_false_of_ne hsplit.kind_ne
                  rw [Text.width_append, Text.width_append] at hmore
                  simp only [outcome_cons, hend, Bool.false_eq_true, if_false, ← hmore]
                  rfl

/-- Reading tokens at byte offsets never cuts a text inside a character, and gives the tokens of
the text or its fault. -/
theorem tokenize_eq (d : Dialect) (source : String) :
    Bytewise.tokenize d source.toList = (SqlMarkers.tokenize d source).mapError Failure.error := by
  rw [Bytewise.tokenize, SqlMarkers.tokenize, TokenStream.ofText]
  by_cases hfits : Text.width source.toList ≤ Span.limit
  · rw [if_pos hfits, if_pos ((Span.fits_iff _).2 hfits)]
    have hread := tokensFrom_eq (d := d) .start (List.nil_append source.toList) hfits
      (source.toList.length + 1)
    rw [Text.width_nil] at hread
    rw [hread, outcome]
    cases (TokenStream.readFrom d (source.toList.length + 1) 0 none source.toList).failure <;> rfl
  · rw [if_neg hfits, if_neg (by rwa [Span.fits_iff])]
    rfl

end Bytewise

end SqlMarkers
