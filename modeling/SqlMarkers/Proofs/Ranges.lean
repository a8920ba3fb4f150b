/-
SqlMarkers.Proofs.Ranges — which numbers are refused.

The range of an integer is checked when it is read. A decimal numeral that nothing makes longer
(`Continues`) is refused exactly if the integer it spells does not fit 64 bits
(`Lexeme.refuses_integer_iff`), and a hexadecimal one exactly if the number behind its sign does not
(`Lexeme.refuses_hex_iff`). All others are tokens that stand for what they spell, so no
reader of expressions or row counts meets a number without a value (`values_exact`).
-/
import SqlMarkers.Proofs.Bytes
import SqlMarkers.Proofs.Landing.Statement

namespace SqlMarkers

open CharClass

/-! ## Where a number ends -/

/-- The text goes on with the number in front of it: with a digit, a fraction, an exponent or
a suffix. A point in front of another point begins no fraction, and a suffix in front of a
word character is none. -/
inductive Continues : List Char → Prop
  | digit {c : Char} {cs : List Char} : isDigit c = true → Continues (c :: cs)
  | fraction {cs : List Char} : cs.head? ≠ some '.' → Continues ('.' :: cs)
  | exponent {e c : Char} {sign cs : List Char} : e = 'e' ∨ e = 'E' →
      sign = [] ∨ sign = ['+'] ∨ sign = ['-'] → isDigit c = true →
      Continues (e :: (sign ++ c :: cs))
  | suffix {c : Char} {cs : List Char} : Token.isFloatSuffix c = true →
      (∀ c' ∈ cs.head?, isWordChar c' = false) → Continues (c :: cs)

namespace Lexeme

variable {d : Dialect} {b : Before} {sign ds rest cs : List Char}

theorem peek_eq_point : peek cs = '.' ↔ cs.head? = some '.' := by
  cases cs with
  | nil => decide
  | cons c cs => simp [peek]

theorem continues_of_fraction (h : fraction rest ≠ []) : Continues rest := by
  obtain ⟨c, cs, rfl⟩ : ∃ c cs, rest = c :: cs :=
    List.exists_cons_of_ne_nil fun hnil => h (by rw [hnil]; rfl)
  rw [fraction_cons] at h
  split at h
  · rename_i hpoint
    obtain rfl := beq_iff_eq.1 hpoint
    refine .fraction fun hsecond => h (if_pos ?_)
    rw [beq_iff_eq]
    exact peek_eq_point.2 hsecond
  · exact absurd rfl h

theorem continues_of_exponent (h : exponent rest ≠ []) : Continues rest := by
  obtain ⟨e, sign, digits, hexpo, he, hsign, hne, hall⟩ := (exponent_shape rfl).resolve_left h
  obtain ⟨c, digits, rfl⟩ := List.exists_cons_of_ne_nil hne
  obtain ⟨behind, hbehind⟩ := exponent_leads rest
  rw [← hbehind, hexpo, List.cons_append, List.append_assoc]
  exact .exponent he hsign (hall c List.mem_cons_self)

theorem continues_of_suffix (h : suffix rest ≠ []) : Continues rest := by
  obtain ⟨c, cs, rfl⟩ : ∃ c cs, rest = c :: cs :=
    List.exists_cons_of_ne_nil fun hnil => h (by rw [hnil]; rfl)
  rw [suffix] at h
  split at h
  · rename_i hc
    simp only [Bool.and_eq_true, Bool.not_eq_true'] at hc
    exact .suffix hc.1 (head?_of_peek hc.2)
  · exact absurd rfl h

/-- A sign and digits with nothing that makes them longer are all parts of a number. -/
theorem Numeral.of_digits (hsign : sign = [] ∨ sign = ['-']) (hne : ds ≠ [])
    (hall : Token.AllDigits 10 ds) (hends : ¬Continues rest) : Numeral sign ds [] [] [] rest where
  signed := by
    rcases hsign with rfl | rfl
    · obtain ⟨c, ds, rfl⟩ := List.exists_cons_of_ne_nil hne
      refine if_neg ?_
      rw [beq_iff_eq]
      rintro (rfl : c = '-')
      cases hall '-' List.mem_cons_self
    · rfl
  digits := by
    refine (takeWhile_exact hall fun c hc => ?_).1
    by_contra hdigit
    obtain ⟨cs, rfl⟩ : ∃ cs, rest = c :: cs := List.head?_eq_some_iff.1 hc
    exact hends (.digit (by simpa using hdigit))
  fractional := not_not.1 fun h => hends (continues_of_fraction h)
  exponential := not_not.1 fun h => hends (continues_of_exponent h)
  suffixed := not_not.1 fun h => hends (continues_of_suffix h)

/-- Nothing makes the parts of a number longer. -/
theorem Numeral.not_continues (h : Numeral sign ds [] [] [] rest) : ¬Continues rest := by
  have hdigits := h.digits
  have hfraction := h.fractional
  have hexponent := h.exponential
  have hsuffix := h.suffixed
  simp only [List.nil_append] at hdigits hfraction hexponent hsuffix
  intro hcontinues
  cases hcontinues with
  | @digit c cs hc =>
      have hall : ∀ c ∈ ds, isDigit c = true := h.allDigits
      rw [List.takeWhile_append_of_pos hall, List.takeWhile_cons_of_pos hc] at hdigits
      simp at hdigits
  | @fraction cs hsecond =>
      have hpeek : ¬(peek cs == '.') = true := by
        rw [beq_iff_eq, peek_eq_point]
        exact hsecond
      rw [fraction_cons, if_pos (beq_self_eq_true '.'), if_neg hpeek] at hfraction
      cases hfraction
  | @exponent e c sign cs he hsign hc =>
      have hmark : (e == 'e' || e == 'E') = true := by simpa using he
      have hplain : ¬(c == '+' || c == '-') = true := by
        simp only [Bool.or_eq_true, beq_iff_eq]
        rintro (rfl | rfl) <;> cases hc
      rcases hsign with rfl | rfl | rfl
      all_goals simp [Lexeme.exponent, hmark, peek, hplain, hc] at hexponent
  | @suffix c cs hc hword =>
      have hpeek : isWordChar (peek cs) = false := by
        cases cs with
        | nil => rfl
        | cons c' cs => exact hword c' rfl
      rw [Lexeme.suffix, hc, hpeek] at hsuffix
      cases hsuffix

/-! ## Refused numbers -/

/-- Reading fails here for this cause. -/
def Refuses (d : Dialect) (b : Before) (cs : List Char) (cause : LexicalCause) : Prop :=
  ∃ slip, read d b cs = .error slip ∧ slip.cause = cause

/-- The text starts with a decimal numeral, longest as it is, that spells an integer outside
of 64 bits. A `-` belongs to it only where no operand ends. -/
def StartsBeyond (b : Before) (cs : List Char) : Prop :=
  ∃ text rest v, text ++ rest = cs ∧ Token.Decimal text v ∧ ¬Continues rest ∧
    (text.head? = some '-' → b.endsOperand = false) ∧
      ¬(-9223372036854775808 ≤ v ∧ v ≤ 9223372036854775807)

/-- The text starts with a hexadecimal numeral, longest as it is, whose digits spell a number
beyond the greatest of 64 bits. -/
def StartsHexBeyond (cs : List Char) : Prop :=
  ∃ text rest v, text ++ rest = cs ∧ Token.Hexadecimal text v ∧
    (∀ c ∈ rest.head?, isHexDigit c = false) ∧ 9223372036854775807 < |v|

/-- A refused text is of the form that has the cause. -/
theorem Refuses.form {cause : LexicalCause} {f : Form} (h : Refuses d b cs cause)
    (hunrecognized : cause ≠ .unrecognized) (hform : ∀ f', cause ∈ causesOf f' → f' = f) :
    formOf d (peek cs) (peek (cs.drop 1)) (startsNumber b cs) = some f ∧
      ∃ slip, f.split d cs = .error slip ∧ slip.cause = cause := by
  obtain ⟨slip, hread, rfl⟩ := h
  rcases slip_of_read hread with rfl | ⟨f', hf', hsplit⟩
  · exact absurd rfl hunrecognized
  · obtain rfl := hform f' (slip_of_split hsplit).1
    exact ⟨hf', slip, hsplit, rfl⟩

theorem startsBeyond_of_refuses (h : Refuses d b cs .integerOutOfRange) : StartsBeyond b cs := by
  obtain ⟨hform, slip, hsplit, hcause⟩ := h.form (f := .number) (by decide) fun f' hf' => by
    cases f' <;> simp [causesOf] at hf' ⊢
  have hstarts : startsNumber b cs = true := (formOf_spec hform).1 rfl
  change number cs = .error slip at hsplit
  rcases number_cases hstarts with ⟨sign, ds, rest, v, rfl, hnumeral, hv, hnumber⟩ |
    ⟨body, suff, rest, -, -, hnumber⟩
  · rw [hnumber] at hsplit
    split at hsplit
    · rename_i hnone
      refine ⟨sign ++ ds, rest, v, by simp, hv, hnumeral.not_continues, fun hminus => ?_, ?_⟩
      · have hfirst : peek (sign ++ (ds ++ rest)) = '-' := by
          obtain ⟨tail, htail⟩ := List.head?_eq_some_iff.1 hminus
          rw [← List.append_assoc, htail]
          rfl
        simp only [startsNumber, hfirst] at hstarts
        simp_all [isDigit]
      · intro hfits
        simp [Token.within64?, Token.least64, Token.greatest64, hfits] at hnone
    · cases hsplit
  · cases hnumber.symm.trans hsplit

theorem startsHexBeyond_of_refuses (h : Refuses d b cs .hexOutOfRange) : StartsHexBeyond cs := by
  obtain ⟨hform, slip, hsplit, hcause⟩ := h.form (f := .hexadecimal) (by decide) fun f' hf' => by
    cases f' <;> simp [causesOf] at hf' ⊢
  obtain ⟨x, tail, rfl, hx⟩ := exists_mark hform
  obtain ⟨sign, digits, rest, rfl, hnumeral⟩ := exists_hexNumeral tail
  change hexadecimal _ = .error slip at hsplit
  rw [hnumeral.hexadecimal_eq] at hsplit
  split at hsplit
  · cases hsplit
    cases hcause
  · rename_i hne
    obtain ⟨v, hv⟩ := Token.Hexadecimal.of_sign hx hnumeral.sign_shape (by simpa using hne)
      hnumeral.allDigits
    rw [← Token.hexadecimal?_mark hx, hv.value_eq] at hsplit
    by_cases hfits : |v| ≤ Token.greatest64
    · rw [if_pos hfits] at hsplit
      cases hsplit
    · exact ⟨_, rest, v, by simp, hv, hnumeral.ends, not_le.1 hfits⟩

theorem isWordStart_of_isDigit {c : Char} (h : isDigit c = true) : isWordStart c = false := by
  have hdigit : '0'.val.toNat ≤ c.val.toNat ∧ c.val.toNat ≤ '9'.val.toNat := by
    simpa [isDigit, Char.isDigit, UInt32.le_iff_toNat_le] using h
  have hnine : '9'.val.toNat = 57 := rfl
  have halpha : c.isAlpha = false := by
    rw [Bool.eq_false_iff]
    intro halpha
    have hletter : (decide (c.val ≥ 'A'.val ∧ c.val ≤ 'Z'.val) ||
        decide (c.val ≥ 'a'.val) && decide (c.val ≤ 'z'.val)) = true := halpha
    simp only [Bool.or_eq_true, Bool.and_eq_true, decide_eq_true_eq, ge_iff_le,
      UInt32.le_iff_toNat_le] at hletter
    have hupper : 'A'.val.toNat = 65 := rfl
    have hlower : 'a'.val.toNat = 97 := rfl
    omega
  have hwide : isWide c = false := by
    rw [Bool.eq_false_iff]
    intro hwide
    have hhigh := le_val_of_isWide hwide
    omega
  have hplain : ∀ {mark : Char}, isDigit mark = false → c ≠ mark := by
    rintro mark hmark rfl
    cases h.symm.trans hmark
  simp [isWordStart, halpha, hwide, hplain (show isDigit '_' = false from rfl),
    hplain (show isDigit '$' = false from rfl)]

/-- A digit or a `-` starts a number where a number starts, unless the mark of a hexadecimal
number comes first. -/
theorem formOf_number {first second : Char} (hfirst : isDigit first = true ∨ first = '-')
    (hmark : ¬(first = '0' ∧ (second = 'x' ∨ second = 'X'))) :
    formOf d first second true = some .number := by
  have hplain : ∀ {c}, isDigit c = false → c ≠ '-' → first ≠ c := by
    rintro c hc hminus rfl
    rcases hfirst with hdigit | hfirst
    · rw [hc] at hdigit
      cases hdigit
    · exact hminus hfirst
  have hname : startsName d first = false := by
    have hword : isWordStart first = false := by
      rcases hfirst with hdigit | rfl
      · exact isWordStart_of_isDigit hdigit
      · rfl
    simp [startsName, hword, hplain (c := '\x60') rfl (by decide), hplain (c := '[') rfl (by decide)]
  have hhex : (first == '0' && (second == 'x' || second == 'X')) = false := by
    rw [Bool.eq_false_iff]
    simpa using hmark
  simp [formOf, hname, hhex, hplain (c := '@') rfl (by decide), hplain (c := 'N') rfl (by decide),
    hplain (c := 'n') rfl (by decide)]

/-- Where a decimal numeral starts, a number does, unless it is a single zero. -/
theorem formOf_decimal {text : List Char} (rest : List Char) {v : Int}
    (h : Token.Decimal text v) (hv : v ≠ 0)
    (hminus : text.head? = some '-' → b.endsOperand = false) :
    formOf d (peek (text ++ rest)) (peek ((text ++ rest).drop 1))
      (startsNumber b (text ++ rest)) = some .number := by
  cases h with
  | @plain ds hne hall =>
      obtain ⟨c, ds, rfl⟩ := List.exists_cons_of_ne_nil hne
      have hc : isDigit c = true := hall c List.mem_cons_self
      have hstarts : startsNumber b (c :: ds ++ rest) = true := by
        simp [startsNumber, peek, hc]
      rw [hstarts]
      refine formOf_number (.inl hc) ?_
      rintro ⟨hzero, hmark⟩
      obtain rfl : c = '0' := hzero
      cases ds with
      | nil => exact hv (by simp [Token.spelled, Token.digitValue])
      | cons c' ds =>
          have hdigit : isDigit c' = true := hall c' (by simp)
          have hsecond : c' = 'x' ∨ c' = 'X' := hmark
          rcases hsecond with rfl | rfl <;> cases hdigit
  | @negated ds hne hall =>
      obtain ⟨c, ds, rfl⟩ := List.exists_cons_of_ne_nil hne
      have hc : isDigit c = true := hall c List.mem_cons_self
      have hstarts : startsNumber b ('-' :: c :: ds ++ rest) = true := by
        simp [startsNumber, peek, hc, hminus rfl]
      rw [hstarts]
      refine formOf_number (.inr rfl) ?_
      rintro ⟨hzero, -⟩
      cases hzero

theorem refuses_of_startsBeyond (h : StartsBeyond b cs) : Refuses d b cs .integerOutOfRange := by
  obtain ⟨text, rest, v, rfl, hdecimal, hends, hminus, hbeyond⟩ := h
  have hform := formOf_decimal (d := d) rest hdecimal (by omega) hminus
  obtain ⟨sign, ds, rfl, hsign, hne, hall⟩ := hdecimal.exists_sign
  have hnumber := (Numeral.of_digits hsign hne hall hends).number_eq
  have hnone : Token.within64? v = none := if_neg hbeyond
  have hvalue : (Token.decimal? (sign ++ ds)).isNone = true := by
    rw [hdecimal.value_eq, hnone]
    rfl
  refine ⟨⟨.integerOutOfRange, 0⟩, ?_, rfl⟩
  rw [read_of_formOf hform]
  change number (sign ++ ds ++ rest) = _
  simp only [List.nil_append, List.append_nil, List.isEmpty_nil, Bool.and_self, hvalue,
    if_true] at hnumber
  rw [List.append_assoc, hnumber]
  rfl

theorem refuses_of_startsHexBeyond (h : StartsHexBeyond cs) : Refuses d b cs .hexOutOfRange := by
  obtain ⟨text, rest, v, rfl, hhexadecimal, hends, hbeyond⟩ := h
  obtain ⟨x, sign, ds, rfl, hx, hsign, hne, hall⟩ := hhexadecimal.exists_sign
  have hnone : ¬|v| ≤ Token.greatest64 := not_le.2 hbeyond
  have hvalue : (Token.hexDigits? (sign ++ ds)).isNone = true := by
    rw [← Token.hexadecimal?_mark hx, hhexadecimal.value_eq, if_neg hnone]
    rfl
  have hform : formOf d '0' x (startsNumber b ('0' :: x :: (sign ++ (ds ++ rest)))) =
      some .hexadecimal := by
    rcases hx with rfl | rfl <;> cases d <;> rfl
  have hnumeral : HexNumeral sign ds rest := ⟨hsign, hall, hends, fun _ hnil => absurd hnil hne⟩
  refine ⟨⟨.hexOutOfRange, 0⟩, ?_, rfl⟩
  rw [List.cons_append, List.cons_append, List.append_assoc, read_of_formOf hform]
  change hexadecimal _ = _
  rw [hnumeral.hexadecimal_eq, if_neg (by simpa using hne), hvalue]
  rfl

/-- A decimal number is refused for its range exactly if it spells an integer out of it. -/
theorem refuses_integer_iff : Refuses d b cs .integerOutOfRange ↔ StartsBeyond b cs :=
  ⟨startsBeyond_of_refuses, refuses_of_startsBeyond⟩

theorem refuses_hex_iff : Refuses d b cs .hexOutOfRange ↔ StartsHexBeyond cs :=
  ⟨startsHexBeyond_of_refuses, refuses_of_startsHexBeyond⟩

-- The least integer of 64 bits can be written in decimal digits only.
example : (read .standard ⟨false, false⟩ "-9223372036854775808".toList).isOk = true ∧
    (read .standard ⟨false, false⟩ "0x-8000000000000000".toList).isOk = false := by
  decide

end Lexeme

/-! ## Statements -/

/-- Every number of a statement is a token that stands for what its text spells, and that has
a value if it is a float, or it is refused because of its range when it is read; no reader
of the statement fails because of a number. -/
theorem values_exact (config : Config) (catalogue : Catalogue) (source : String) :
    (∀ t ∈ (TokenStream.ofText config.dialect source.toList).tokens,
      t.Valued ∧ (t.kind = .float → t.real?.isSome)) ∧
      (∀ b cs, Lexeme.Refuses config.dialect b cs .integerOutOfRange ↔ Lexeme.StartsBeyond b cs) ∧
      (∀ b cs, Lexeme.Refuses config.dialect b cs .hexOutOfRange ↔ Lexeme.StartsHexBeyond cs) ∧
      ∀ offset cause, readStatement config catalogue source.toList = .error (.grammar offset cause) →
        cause ≠ .integerOutOfRange ∧ cause ≠ .malformedNumber := by
  refine ⟨fun t ht => ⟨TokenStream.valued_ofText ht, (TokenStream.valued_ofText ht).real⟩,
    fun b cs => Lexeme.refuses_integer_iff, fun b cs => Lexeme.refuses_hex_iff,
    fun offset cause h => ?_⟩
  have hnumber : cause.concernsNumber = false := by
    cases hrun : (config.setting catalogue source).run with
    | ok result =>
        change Except.map Prod.fst (config.setting catalogue source).run = _ at h
        rw [hrun] at h
        cases h
    | error f =>
        change Except.map Prod.fst (config.setting catalogue source).run = _ at h
        rw [hrun] at h
        cases h
        rcases Setting.halts_of_run hrun with ⟨fault, -, hfault⟩ | ⟨c, hhalts⟩
        · cases hfault
        · exact hhalts.stops.2
  constructor <;> rintro rfl <;> cases hnumber

end SqlMarkers
