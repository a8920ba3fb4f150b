/-
SqlMarkers.Proofs.Literals — every number has the value that its text spells.

Integers are looked at when they are read, and one without a value is a lexical fault.
Floats are not: what is read as one is a sign, digits, a fraction, an exponent and a
suffix, each of them optional, and a text of that shape is a real as soon as there are
digits at all (`Lexeme.Numeral.real`). A number never starts without them
(`Lexeme.Numeral.digits_of_startsNumber`).
-/
import SqlMarkers.Proofs.Numerals

namespace SqlMarkers

/-- A number of any kind. -/
def Kind.isNumber : Kind → Bool
  | .integer | .hex | .float => true
  | _ => false

/-- A token that is a number stands for the value that its text spells. A float stands for
the value of a real, which is its text without its suffix. -/
structure Token.Valued (t : Token) : Prop where
  decimal : t.kind = .integer → ∃ v, Token.Decimal t.text.toList v ∧ t.integer? = some v
  hexadecimal : t.kind = .hex → ∃ v, Token.Hexadecimal t.text.toList v ∧ t.integer? = some v
  float : t.kind = .float → ∃ body suff, body ++ suff = t.text.toList ∧ Token.Real body ∧
    (suff = [] ∨ ∃ c, suff = [c] ∧ Token.isFloatSuffix c = true) ∧ t.real? = Token.float? body

namespace Token

theorem Valued.integer {t : Token} (h : t.Valued) (hkind : t.kind = .integer ∨ t.kind = .hex) :
    t.integer?.isSome := by
  rcases hkind with hkind | hkind
  · obtain ⟨v, -, hv⟩ := h.decimal hkind
    exact Option.isSome_of_eq_some hv
  · obtain ⟨v, -, hv⟩ := h.hexadecimal hkind
    exact Option.isSome_of_eq_some hv

theorem Valued.real {t : Token} (h : t.Valued) (hkind : t.kind = .float) : t.real?.isSome := by
  obtain ⟨body, _, -, hbody, -, hvalue⟩ := h.float hkind
  rw [hvalue]
  exact hbody.isSome_float

theorem valued_of_kind {t : Token} (h : t.kind.isNumber = false) : t.Valued := by
  refine ⟨fun hkind => ?_, fun hkind => ?_, fun hkind => ?_⟩ <;>
    cases (hkind ▸ h : _ = false)

/-- A number that fits 64 bits is itself. -/
theorem eq_of_within64? {v w : Int} (h : within64? v = some w) : w = v := by
  unfold within64? at h
  split at h <;> cases h
  rfl

end Token

/-! ## Parts of a number -/

namespace Lexeme

open CharClass

namespace Numeral

variable {sign whole frac expo suff rest : List Char}

theorem sign_shape (h : Numeral sign whole frac expo suff rest) : sign = [] ∨ sign = ['-'] := by
  rw [← h.signed]
  exact (ite_eq_or_eq _ _ _).symm

theorem allDigits (h : Numeral sign whole frac expo suff rest) : Token.AllDigits 10 whole := by
  intro c hc
  rw [← h.digits] at hc
  exact (List.mem_takeWhile_imp hc : isDigit c = true)

/-- The parts of a number in front of its suffix make up a real, if there are digits. -/
theorem real (h : Numeral sign whole frac expo suff rest)
    (hdigits : whole ≠ [] ∨ ∃ ds, frac = '.' :: ds ∧ ds ≠ []) :
    Token.Real (sign ++ (whole ++ frac ++ expo)) := by
  refine .parts (h.sign_shape.imp_right .inr) ?_ ?_
  · rcases fraction_shape h.fractional with rfl | ⟨ds, rfl, hds⟩
    · rw [List.append_nil]
      exact .whole (hdigits.resolve_right fun ⟨_, hcons, _⟩ => nomatch hcons) h.allDigits
    · refine .pointed ?_ h.allDigits hds
      exact hdigits.imp_right fun ⟨_, hcons, hne⟩ => (List.cons.inj hcons).2 ▸ hne
  · rcases exponent_shape h.exponential with rfl | ⟨e, mark, ds, rfl, he, hmark, hne, hall⟩
    · exact .none
    · exact .marked he hmark hne hall

/-- What starts as a number has digits. -/
theorem digits_of_startsNumber (h : Numeral sign whole frac expo suff rest) {b : Before}
    (hstarts : startsNumber b (sign ++ (whole ++ (frac ++ (expo ++ (suff ++ rest))))) = true) :
    whole ≠ [] ∨ ∃ ds, frac = '.' :: ds ∧ ds ≠ [] := by
  have hfirst :
      isDigit (peek (whole ++ (frac ++ (expo ++ (suff ++ rest))))) = true → whole ≠ [] := by
    rintro hdigit rfl
    have hnone := h.digits
    rw [List.nil_append] at hdigit hnone
    cases htail : frac ++ (expo ++ (suff ++ rest)) with
    | nil =>
        rw [htail] at hdigit
        cases hdigit
    | cons c tail =>
        rw [htail] at hdigit hnone
        have hc : isDigit c = true := hdigit
        rw [List.takeWhile_cons_of_pos hc] at hnone
        cases hnone
  have hpoint : peek (whole ++ (frac ++ (expo ++ (suff ++ rest)))) = '.' →
      isDigit (peek ((whole ++ (frac ++ (expo ++ (suff ++ rest)))).drop 1)) = true →
      whole ≠ [] ∨ ∃ ds, frac = '.' :: ds ∧ ds ≠ [] := by
    intro hdot hdigit
    rw [or_iff_not_imp_left, not_not]
    rintro rfl
    have hfraction := h.fractional
    rw [List.nil_append] at hdot hdigit
    generalize frac ++ (expo ++ (suff ++ rest)) = tail at hdot hdigit hfraction
    obtain ⟨tail, rfl⟩ : ∃ cs, tail = '.' :: cs := by
      cases tail with
      | nil => cases hdot
      | cons c cs => exact ⟨cs, congrArg (· :: cs) hdot⟩
    cases tail with
    | nil => cases hdigit
    | cons c cs =>
        have hc : isDigit c = true := hdigit
        have hplain : ¬(peek (c :: cs) == '.') = true := by
          rw [beq_iff_eq]
          rintro (rfl : c = '.')
          cases hc
        rw [fraction_cons, if_pos (beq_self_eq_true '.'), if_neg hplain,
          List.takeWhile_cons_of_pos hc] at hfraction
        exact ⟨_, hfraction.symm, List.cons_ne_nil _ _⟩
  have hsigned := h.signed
  simp only [startsNumber, List.drop_zero, Bool.or_eq_true, Bool.and_eq_true, beq_iff_eq,
    Bool.not_eq_true'] at hstarts
  split at hsigned
  · rename_i hminus
    subst hsigned
    rcases hstarts with (hdigit | ⟨⟨hdot, -⟩, -⟩) | ⟨-, hdigit | ⟨hdot, hdigit⟩⟩
    · cases hdigit
    · cases hdot
    · exact .inl (hfirst hdigit)
    · exact hpoint hdot hdigit
  · rename_i hminus
    subst hsigned
    rcases hstarts with (hdigit | ⟨⟨hdot, hdigit⟩, -⟩) | ⟨⟨hsign, -⟩, -⟩
    · exact .inl (hfirst hdigit)
    · exact hpoint hdot hdigit
    · exact absurd (beq_iff_eq.2 hsign) hminus

end Numeral

/-! ## Tokens of a text -/

/-- What starts as a number is a decimal numeral, refused if its value does not fit, or a
floating-point numeral and its suffix. -/
theorem number_cases {b : Before} {cs : List Char} (hstarts : startsNumber b cs = true) :
    (∃ sign ds rest v, sign ++ (ds ++ rest) = cs ∧ Numeral sign ds [] [] [] rest ∧
      Token.Decimal (sign ++ ds) v ∧
      number cs = if (Token.within64? v).isNone then refuse .integerOutOfRange
        else .ok ⟨.integer, sign ++ ds, rest⟩) ∨
    ∃ body suff rest, Token.Real body ∧
      (suff = [] ∨ ∃ c, suff = [c] ∧ Token.isFloatSuffix c = true) ∧
      number cs = .ok ⟨.float, body ++ suff, rest⟩ := by
  obtain ⟨sign, whole, frac, expo, suff, rest, rfl, hnumeral⟩ := exists_numeral cs
  have hdigits := hnumeral.digits_of_startsNumber hstarts
  rw [hnumeral.number_eq]
  split
  · rename_i hplain
    simp only [Bool.and_eq_true, List.isEmpty_iff] at hplain
    obtain ⟨⟨rfl, rfl⟩, rfl⟩ := hplain
    have hwhole : whole ≠ [] := hdigits.resolve_right (by rintro ⟨_, hcons, -⟩; cases hcons)
    obtain ⟨v, hv⟩ := Token.Decimal.of_sign hnumeral.sign_shape hwhole hnumeral.allDigits
    simp only [List.append_nil, hv.value_eq]
    exact .inl ⟨sign, whole, rest, v, rfl, hnumeral, hv, rfl⟩
  · refine .inr ⟨sign ++ (whole ++ frac ++ expo), suff, rest, hnumeral.real hdigits,
      suffix_shape hnumeral.suffixed, ?_⟩
    simp only [List.append_assoc]

/-- A number stands for the value it spells, of whichever kind it is. -/
theorem valued_number {b : Before} {cs : List Char} {l : Lexeme} (start : Nat)
    (hstarts : startsNumber b cs = true) (h : number cs = .ok l) :
    (TokenStream.tokenAt start l).Valued := by
  rcases number_cases hstarts with ⟨sign, ds, rest, v, rfl, -, hv, hnumber⟩ |
    ⟨body, suff, rest, hreal, hsuffix, hnumber⟩
  · rw [hnumber] at h
    split at h
    · cases h
    · rename_i hfits
      cases h
      obtain ⟨w, hw⟩ := Option.ne_none_iff_exists'.1 (by simpa using hfits)
      obtain rfl := Token.eq_of_within64? hw
      refine ⟨fun _ => ⟨w, ?_, ?_⟩, fun hkind => ?_, fun hkind => ?_⟩
      · simpa [TokenStream.tokenAt] using hv
      · simpa [TokenStream.tokenAt, Token.integer?, hv.value_eq] using hw
      · cases hkind
      · cases hkind
  · rw [hnumber] at h
    cases h
    refine ⟨fun hkind => ?_, fun hkind => ?_, fun _ => ⟨body, suff, ?_, hreal, hsuffix, ?_⟩⟩
    · cases hkind
    · cases hkind
    · simp [TokenStream.tokenAt]
    · have hmarks : ∀ c ∈ suff, Token.isFloatSuffix c = true := by
        rcases hsuffix with rfl | ⟨c, rfl, hc⟩
        · exact List.forall_mem_nil _
        · exact List.forall_mem_singleton.2 hc
      have hdrop := Token.dropSuffix_append hreal.plain hmarks
      simpa [TokenStream.tokenAt, Token.real?] using congrArg Token.float? hdrop

/-- A hexadecimal number starts with its mark. -/
theorem exists_mark {d : Dialect} {cs : List Char} {number : Bool}
    (h : formOf d (peek cs) (peek (cs.drop 1)) number = some .hexadecimal) :
    ∃ x tail, cs = '0' :: x :: tail ∧ (x = 'x' ∨ x = 'X') := by
  obtain ⟨hzero, hmark⟩ : peek cs = '0' ∧
      (peek (cs.drop 1) = 'x' ∨ peek (cs.drop 1) = 'X') := by
    unfold formOf at h
    split_ifs at h with h₁ h₂ h₃ hmark <;> cases h
    simpa using hmark
  rcases cs with _ | ⟨c, _ | ⟨x, tail⟩⟩
  · cases hzero
  · rcases hmark with hmark | hmark <;> cases hmark
  · obtain rfl : c = '0' := hzero
    exact ⟨x, tail, rfl, hmark⟩

/-- The digits of a hexadecimal number, behind its mark and perhaps a `-`. -/
structure HexNumeral (sign digits rest : List Char) : Prop where
  sign_shape : sign = [] ∨ sign = ['-']
  allDigits : Token.AllDigits 16 digits
  ends : ∀ c ∈ rest.head?, isHexDigit c = false
  unsigned : sign = [] → digits = [] → peek rest ≠ '-'

/-- Every text is a hexadecimal number, if one without digits, and what follows it. -/
theorem exists_hexNumeral (cs : List Char) :
    ∃ sign digits rest, cs = sign ++ (digits ++ rest) ∧ HexNumeral sign digits rest := by
  obtain ⟨sign, tail, rfl, hsign, hunsigned⟩ : ∃ sign tail, cs = sign ++ tail ∧
      (sign = [] ∨ sign = ['-']) ∧ (sign = [] → peek tail ≠ '-') := by
    by_cases hminus : peek cs = '-'
    · obtain ⟨tail, rfl⟩ : ∃ tail, cs = '-' :: tail := by
        cases cs with
        | nil => cases hminus
        | cons c tail => exact ⟨tail, congrArg (· :: tail) hminus⟩
      exact ⟨['-'], tail, rfl, .inr rfl, nofun⟩
    · exact ⟨[], cs, rfl, .inl rfl, fun _ => hminus⟩
  have hrun := (List.takeWhile_append_dropWhile (p := isHexDigit) (l := tail)).symm
  refine ⟨sign, _, _, congrArg (sign ++ ·) hrun, hsign, fun c hc => ?_, fun c hc => ?_,
    fun hnil hnone => ?_⟩
  · exact (List.mem_takeWhile_imp hc : isHexDigit c = true)
  · have hstop := List.head?_dropWhile_not isHexDigit tail
    rwa [Option.mem_def.1 hc] at hstop
  · rw [hnone, List.nil_append] at hrun
    exact hrun ▸ hunsigned hnil

theorem HexNumeral.hexadecimal_eq {x : Char} {sign digits rest : List Char}
    (h : HexNumeral sign digits rest) :
    hexadecimal ('0' :: x :: (sign ++ (digits ++ rest))) =
      if digits.isEmpty then refuse .malformedHex
      else if (Token.hexDigits? (sign ++ digits)).isNone then refuse .hexOutOfRange
      else .ok ⟨.hex, '0' :: x :: (sign ++ digits), rest⟩ := by
  have hsigned : (if peek (sign ++ (digits ++ rest)) == '-' then ['-'] else []) = sign := by
    rcases h.sign_shape with rfl | rfl
    · refine if_neg ?_
      rw [beq_iff_eq, List.nil_append]
      cases digits with
      | nil => exact h.unsigned rfl rfl
      | cons c digits =>
          rintro (rfl : c = '-')
          cases h.allDigits '-' List.mem_cons_self
    · rfl
  obtain ⟨htake, hdrop⟩ := takeWhile_exact (p := isHexDigit) h.allDigits h.ends
  simp only [hexadecimal, List.drop_succ_cons, List.drop_zero, hsigned, List.drop_left, htake, hdrop]
  rfl

/-- A hexadecimal number stands for the value it spells. -/
theorem valued_hexadecimal {x : Char} {tail : List Char} {l : Lexeme} (start : Nat)
    (hx : x = 'x' ∨ x = 'X') (h : hexadecimal ('0' :: x :: tail) = .ok l) :
    (TokenStream.tokenAt start l).Valued := by
  obtain ⟨sign, digits, rest, rfl, hnumeral⟩ := exists_hexNumeral tail
  rw [hnumeral.hexadecimal_eq] at h
  split at h
  · cases h
  · rename_i hne
    obtain ⟨v, hv⟩ := Token.Hexadecimal.of_sign hx hnumeral.sign_shape (by simpa using hne)
      hnumeral.allDigits
    have hvalue := hv.value_eq
    rw [Token.hexadecimal?_mark hx] at hvalue
    split at h
    · cases h
    · rename_i hsome
      cases h
      rw [hvalue] at hsome
      have hfits : |v| ≤ Token.greatest64 := by
        by_contra hbeyond
        exact hsome (by rw [if_neg hbeyond]; rfl)
      refine ⟨nofun, fun _ => ⟨v, ?_, ?_⟩, nofun⟩
      · simpa [TokenStream.tokenAt] using hv
      · simp [TokenStream.tokenAt, Token.integer?, Token.hexadecimal?_mark hx, hvalue, hfits]

theorem kind_of_string {d : Dialect} {cs : List Char} {l : Lexeme} (h : string d cs = .ok l) :
    l.kind = .chars := by
  unfold string at h
  split at h
  · cases h
  · split at h <;> cases h
    rfl

theorem kind_of_nationalString {d : Dialect} {cs : List Char} {l : Lexeme}
    (h : nationalString d cs = .ok l) : l.kind = .chars := by
  unfold nationalString at h
  split at h
  · cases h
  · split at h
    · rename_i hstring
      cases h
      exact (kind_of_string hstring : _)
    · cases h

theorem isNumber_of_wordKind (d : Dialect) (word rest : List Char) :
    (wordKind d word rest).isNumber = false := by
  unfold wordKind
  split
  · split <;> rfl
  · split <;> rfl
  · rfl
  · rfl

theorem isNumber_of_name {d : Dialect} {cs : List Char} {l : Lexeme} (h : name d cs = .ok l) :
    l.kind.isNumber = false := by
  unfold name at h
  split at h
  · cases h
    exact isNumber_of_wordKind d _ _
  · split at h
    · split at h <;> cases h
      rfl
    · cases h
      exact isNumber_of_wordKind d _ _

/-- Whatever is read as a number has a value. -/
theorem valued_read {d : Dialect} {b : Before} {cs : List Char} {l : Lexeme} (start : Nat)
    (h : read d b cs = .ok l) : (TokenStream.tokenAt start l).Valued := by
  have hother : l.kind.isNumber = false → (TokenStream.tokenAt start l).Valued := fun hkind =>
    Token.valued_of_kind hkind
  obtain ⟨f, hform, h⟩ := exists_form_of_read h
  cases f with
  | sqlVariable => exact hother (congrArg Kind.isNumber (sqlVariable_kind h))
  | nationalString => exact hother (congrArg Kind.isNumber (kind_of_nationalString h))
  | name => exact hother (isNumber_of_name h)
  | string => exact hother (congrArg Kind.isNumber (kind_of_string h))
  | operator =>
      obtain ⟨s, -, hkind, -⟩ := find?_of_operatorWithin h
      exact hother (congrArg Kind.isNumber hkind)
  | hexadecimal =>
      obtain ⟨x, tail, rfl, hx⟩ := exists_mark hform
      exact valued_hexadecimal start hx h
  | number => exact valued_number start ((formOf_spec hform).1 rfl) h

end Lexeme

namespace TokenStream

/-- The numbers of a text have values. -/
theorem valued_readFrom (d : Dialect) (fuel offset : Nat) (previous : Option Lexeme)
    (cs : List Char) : ∀ t ∈ (readFrom d fuel offset previous cs).tokens, t.Valued := by
  induction fuel generalizing offset previous cs with
  | zero => simp [readFrom]
  | succ fuel ih =>
      intro t ht
      rw [readFrom] at ht
      split at ht
      · rw [List.mem_singleton.1 ht]
        exact Token.valued_of_kind rfl
      · cases ht
      · rename_i start l hstep
        obtain ⟨_, -, -, -, -, hread⟩ := read_of_step hstep
        rcases List.mem_cons.1 ht with rfl | ht
        · exact Lexeme.valued_read start hread
        · exact ih _ _ _ t ht

theorem valued_ofText {d : Dialect} {source : List Char} {t : Token}
    (ht : t ∈ (ofText d source).tokens) : t.Valued := by
  rw [ofText] at ht
  split at ht
  · exact valued_readFrom d _ 0 none source t ht
  · cases ht

end TokenStream

end SqlMarkers
