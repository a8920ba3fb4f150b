/-
SqlMarkers.Proofs.Numerals — what numerals spell.

The grammars here know nothing of a reader. A decimal or hexadecimal numeral is a sign and
digits, and spells the number that has these digits (`Decimal`, `Hexadecimal`). A real
is a sign, digits with a point among them, and an exponent (`Real`), which is what a float parser
accepts apart from the words for infinity and not-a-number. The values of literals agree:
an integer stands for the number it spells if that fits 64 bits and for none else
(`Decimal.value_eq`, `Hexadecimal.value_eq`), and every real has a value (`Real.isSome_float`).
-/
import Mathlib.Algebra.Order.Group.Abs
import Mathlib.Data.Nat.Digits.Defs
import SqlMarkers.Proofs.Spacing

namespace SqlMarkers.Token

open CharClass

/-! ## Digits -/

/-- The number whose digits in a base these are, the lowest of them in the last place. -/
def spelled (base : Nat) (ds : List Char) : Nat := Nat.ofDigits base (ds.reverse.map digitValue)

theorem digitsValue_eq (base : Nat) (ds : List Char) : digitsValue base ds 0 = spelled base ds := by
  rw [digitsValue, spelled, Nat.ofDigits_eq_foldr, List.foldr_map, List.foldr_reverse]
  congr 1
  funext n c
  rw [Nat.cast_id, Nat.mul_comm, Nat.add_comm]

/-- Only digits, of base 16 or of base 10. -/
def AllDigits (base : Nat) (ds : List Char) : Prop :=
  ∀ c ∈ ds, (if base = 16 then isHexDigit c else isDigit c) = true

variable {base : Nat} {ds text : List Char} {v : Int}

theorem digits?_eq (hne : ds ≠ []) (hall : AllDigits base ds) :
    digits? base ds = some (spelled base ds) := by
  rw [digits?, ← digitsValue_eq]
  refine if_pos ⟨hne, List.all_eq_true.2 fun c hc => ?_⟩
  have hdigit := hall c hc
  split_ifs at hdigit ⊢ <;> exact hdigit

/-- Digits without a sign in front. -/
theorem signed?_digits (hne : ds ≠ []) (hall : AllDigits base ds) :
    signed? base ds = some (spelled base ds : Int) := by
  have hdigits := digits?_eq hne hall
  unfold signed?
  split
  · have hplus := hall '+' List.mem_cons_self
    split_ifs at hplus <;> cases hplus
  · have hminus := hall '-' List.mem_cons_self
    split_ifs at hminus <;> cases hminus
  · rw [hdigits]
    rfl

theorem signed?_plus (hne : ds ≠ []) (hall : AllDigits base ds) :
    signed? base ('+' :: ds) = some (spelled base ds : Int) := by
  rw [signed?, digits?_eq hne hall]
  rfl

theorem signed?_minus (hne : ds ≠ []) (hall : AllDigits base ds) :
    signed? base ('-' :: ds) = some (-(spelled base ds : Int)) := by
  rw [signed?, digits?_eq hne hall]
  rfl

/-! ## Integers -/

/-- The text spells an integer in decimal digits. -/
inductive Decimal : List Char → Int → Prop
  | plain {ds : List Char} : ds ≠ [] → AllDigits 10 ds → Decimal ds (spelled 10 ds)
  | negated {ds : List Char} : ds ≠ [] → AllDigits 10 ds → Decimal ('-' :: ds) (-(spelled 10 ds))

/-- The text spells an integer in hexadecimal digits, behind `0x` and perhaps a `-`. -/
inductive Hexadecimal : List Char → Int → Prop
  | plain {x : Char} {ds : List Char} : x = 'x' ∨ x = 'X' → ds ≠ [] → AllDigits 16 ds →
      Hexadecimal ('0' :: x :: ds) (spelled 16 ds)
  | negated {x : Char} {ds : List Char} : x = 'x' ∨ x = 'X' → ds ≠ [] → AllDigits 16 ds →
      Hexadecimal ('0' :: x :: '-' :: ds) (-(spelled 16 ds))

/-- A decimal numeral stands for the integer it spells if that fits 64 bits. -/
theorem Decimal.value_eq (h : Decimal text v) : decimal? text = within64? v := by
  cases h with
  | plain hne hall => rw [decimal?, signed?_digits hne hall, Option.bind_some]
  | negated hne hall => rw [decimal?, signed?_minus hne hall, Option.bind_some]

theorem negate64_natCast (n : Nat) : negate64 n = -(n : Int) := by
  refine if_neg fun hleast => ?_
  rw [least64] at hleast
  omega

theorem hexadecimal?_mark {x : Char} (hx : x = 'x' ∨ x = 'X') (digits : List Char) :
    hexadecimal? ('0' :: x :: digits) = hexDigits? digits := by
  have hwidth : Text.width ['0', x] = 2 := by rcases hx with rfl | rfl <;> rfl
  have hdrop := Text.dropWidth?_width_append ['0', x] digits
  rw [hwidth] at hdrop
  rw [hexadecimal?, show '0' :: x :: digits = ['0', x] ++ digits from rfl, hdrop, Option.bind_some]

theorem within64?_natCast (n : Nat) :
    within64? n = if (n : Int) ≤ greatest64 then some (n : Int) else none := by
  have hleast : least64 ≤ (n : Int) := by
    rw [least64]
    omega
  simp only [within64?, hleast, true_and]

/-- A hexadecimal numeral stands for the integer it spells if the number behind its sign fits
64 bits. -/
theorem Hexadecimal.value_eq (h : Hexadecimal text v) :
    hexadecimal? text = if |v| ≤ greatest64 then some v else none := by
  cases h with
  | @plain x ds hx hne hall =>
      have hunsigned : hexDigits? ds = (signed? 16 ds).bind within64? := by
        unfold hexDigits?
        split
        · have hminus := hall '-' List.mem_cons_self
          cases hminus
        · rfl
      rw [hexadecimal?_mark hx, hunsigned, signed?_digits hne hall, Option.bind_some,
        within64?_natCast, Nat.abs_cast]
  | @negated x ds hx hne hall =>
      rw [hexadecimal?_mark hx, hexDigits?, signed?_digits hne hall, Option.bind_some,
        within64?_natCast, abs_neg, Nat.abs_cast]
      split
      · rw [Option.map_some, negate64_natCast]
      · rfl

/-- A decimal numeral is a sign and digits. -/
theorem Decimal.of_sign {sign : List Char} (hsign : sign = [] ∨ sign = ['-']) (hne : ds ≠ [])
    (hall : AllDigits 10 ds) : ∃ v, Decimal (sign ++ ds) v := by
  rcases hsign with rfl | rfl
  · exact ⟨_, .plain hne hall⟩
  · exact ⟨_, .negated hne hall⟩

theorem Hexadecimal.of_sign {x : Char} (hx : x = 'x' ∨ x = 'X') {sign : List Char}
    (hsign : sign = [] ∨ sign = ['-']) (hne : ds ≠ []) (hall : AllDigits 16 ds) :
    ∃ v, Hexadecimal ('0' :: x :: (sign ++ ds)) v := by
  rcases hsign with rfl | rfl
  · exact ⟨_, .plain hx hne hall⟩
  · exact ⟨_, .negated hx hne hall⟩

theorem Decimal.exists_sign (h : Decimal text v) :
    ∃ sign ds, text = sign ++ ds ∧ (sign = [] ∨ sign = ['-']) ∧ ds ≠ [] ∧ AllDigits 10 ds := by
  cases h with
  | plain hne hall => exact ⟨[], text, rfl, .inl rfl, hne, hall⟩
  | @negated ds hne hall => exact ⟨['-'], ds, rfl, .inr rfl, hne, hall⟩

theorem Hexadecimal.exists_sign (h : Hexadecimal text v) :
    ∃ x sign ds, text = '0' :: x :: (sign ++ ds) ∧ (x = 'x' ∨ x = 'X') ∧
      (sign = [] ∨ sign = ['-']) ∧ ds ≠ [] ∧ AllDigits 16 ds := by
  cases h with
  | @plain x ds hx hne hall => exact ⟨x, [], ds, rfl, hx, .inl rfl, hne, hall⟩
  | @negated x ds hx hne hall => exact ⟨x, ['-'], ds, rfl, hx, .inr rfl, hne, hall⟩

/-! ## Reals -/

/-- Digits with or without a point in front of them, among them or behind them. -/
inductive Mantissa : List Char → Prop
  | whole {ds : List Char} : ds ≠ [] → AllDigits 10 ds → Mantissa ds
  | pointed {ds fs : List Char} : ds ≠ [] ∨ fs ≠ [] → AllDigits 10 ds → AllDigits 10 fs →
      Mantissa (ds ++ '.' :: fs)

/-- Nothing, or a mark, a sign or none, and digits. -/
inductive Exponent : List Char → Prop
  | none : Exponent []
  | marked {e : Char} {sign ds : List Char} : e = 'e' ∨ e = 'E' →
      sign = [] ∨ sign = ['+'] ∨ sign = ['-'] → ds ≠ [] → AllDigits 10 ds →
      Exponent (e :: (sign ++ ds))

/-- A sign or none, digits with a point among them, and an exponent. -/
inductive Real : List Char → Prop
  | parts {sign mantissa exponent : List Char} : sign = [] ∨ sign = ['+'] ∨ sign = ['-'] →
      Mantissa mantissa → Exponent exponent → Real (sign ++ (mantissa ++ exponent))

theorem Exponent.isSome {expo : List Char} (h : Exponent expo) : (exponent? expo).isSome := by
  cases h with
  | none => rfl
  | @marked e sign ds he hsign hne hall =>
      rw [exponent?, if_pos (by rcases he with rfl | rfl <;> rfl)]
      rcases hsign with rfl | rfl | rfl
      · rw [List.nil_append, signed?_digits hne hall]
        rfl
      · rw [List.singleton_append, signed?_plus hne hall]
        rfl
      · rw [List.singleton_append, signed?_minus hne hall]
        rfl

/-- What an exponent starts with belongs neither to the digits in front nor to a point. -/
theorem Exponent.head {expo : List Char} (h : Exponent expo) :
    ∀ c ∈ expo.head?, isDigit c = false ∧ c ≠ '.' := by
  cases h with
  | none => exact nofun
  | @marked e sign ds he =>
      intro c hc
      obtain rfl : e = c := by simpa using hc
      rcases he with rfl | rfl <;> decide

theorem isSome_floatBody {negative : Bool} {cs : List Char}
    (h : (unsignedFloat? negative cs).isSome) : (floatBody? negative cs).isSome := by
  unfold floatBody?
  dsimp only
  split
  · rfl
  · split
    · rfl
    · exact h

/-- Digits with a point among them and an exponent have a value. -/
theorem Mantissa.isSome {mantissa expo : List Char} (hmantissa : Mantissa mantissa)
    (hexpo : Exponent expo) (negative : Bool) :
    (unsignedFloat? negative (mantissa ++ expo)).isSome := by
  have hvalue := hexpo.isSome
  have hdigit : ∀ c ∈ expo.head?, isDigit c = false := fun c hc => (hexpo.head c hc).1
  cases hmantissa with
  | whole hne hall =>
      obtain ⟨htake, hdrop⟩ := takeWhile_exact (p := isDigit) hall hdigit
      have hpoint : ∀ cs, expo ≠ '.' :: cs := by
        rintro cs rfl
        exact (hexpo.head '.' rfl).2 rfl
      rw [unsignedFloat?]
      simp only [htake, hdrop]
      rwa [if_neg fun hnil => hne hnil.1, Option.isSome_map]
  | @pointed ds fs hne hds hfs =>
      have hpoint : ∀ c ∈ ('.' :: (fs ++ expo)).head?, isDigit c = false := by
        rintro _ ⟨⟩
        rfl
      obtain ⟨htake, hdrop⟩ := takeWhile_exact (p := isDigit) hds hpoint
      obtain ⟨htake', hdrop'⟩ := takeWhile_exact (p := isDigit) hfs hdigit
      rw [List.append_assoc, List.cons_append, unsignedFloat?]
      simp only [htake, hdrop, htake', hdrop']
      rwa [if_neg fun hnil => hne.elim (· hnil.1) (· hnil.2), Option.isSome_map]

theorem Mantissa.head {mantissa : List Char} (h : Mantissa mantissa) (expo : List Char) :
    ∀ c ∈ (mantissa ++ expo).head?, isDigit c = true ∨ c = '.' := by
  have hfirst : ∀ {ds behind : List Char}, ds ≠ [] → AllDigits 10 ds →
      ∀ c ∈ (ds ++ behind).head?, isDigit c = true := by
    intro ds behind hne hall c hc
    obtain ⟨a, ds, rfl⟩ := List.exists_cons_of_ne_nil hne
    obtain rfl : a = c := by simpa using hc
    exact hall _ List.mem_cons_self
  cases h with
  | whole hne hall => exact fun c hc => .inl (hfirst hne hall c hc)
  | @pointed ds fs hne hds _ =>
      intro c hc
      by_cases hnil : ds = []
      · subst hnil
        exact .inr (by simpa using hc.symm)
      · rw [List.append_assoc] at hc
        exact .inl (hfirst hnil hds c hc)

/-- Every real has a value. -/
theorem Real.isSome_float (h : Real text) : (float? text).isSome := by
  cases h with
  | @parts sign mantissa expo hsign hmantissa hexpo =>
      have hbody (negative : Bool) := isSome_floatBody (hmantissa.isSome hexpo negative)
      rcases hsign with rfl | rfl | rfl
      · have hhead := hmantissa.head expo
        rw [List.nil_append]
        unfold float?
        split
        · rename_i heq
          exact absurd (hhead '+' (by rw [heq]; rfl)) (by decide)
        · rename_i heq
          exact absurd (hhead '-' (by rw [heq]; rfl)) (by decide)
        · exact hbody false
      · exact hbody false
      · exact hbody true

/-- No character of a real is a float suffix. -/
theorem Real.plain (h : Real text) : ∀ c ∈ text, isFloatSuffix c = false := by
  have hdigit : ∀ {c}, isDigit c = true → isFloatSuffix c = false := by
    intro c hc
    by_contra hsuffix
    simp only [isFloatSuffix, Bool.not_eq_false, Bool.or_eq_true, beq_iff_eq] at hsuffix
    rcases hsuffix with ((rfl | rfl) | rfl) | rfl <;> cases hc
  have hsigned : ∀ {sign : List Char}, sign = [] ∨ sign = ['+'] ∨ sign = ['-'] →
      ∀ c ∈ sign, isFloatSuffix c = false := by
    rintro _ (rfl | rfl | rfl) c hc
    · cases hc
    · rw [List.mem_singleton.1 hc]
      rfl
    · rw [List.mem_singleton.1 hc]
      rfl
  cases h with
  | parts hsign hmantissa hexpo =>
      simp only [List.mem_append]
      rintro c (hc | hc | hc)
      · exact hsigned hsign c hc
      · cases hmantissa with
        | whole _ hall => exact hdigit (hall c hc)
        | pointed _ hds hfs =>
            rcases List.mem_append.1 hc with hc | hc
            · exact hdigit (hds c hc)
            · rcases List.mem_cons.1 hc with rfl | hc
              · rfl
              · exact hdigit (hfs c hc)
      · cases hexpo with
        | none => cases hc
        | marked he hsign _ hall =>
            rcases List.mem_cons.1 hc with rfl | hc
            · rcases he with rfl | rfl <;> rfl
            · rcases List.mem_append.1 hc with hc | hc
              · exact hsigned hsign c hc
              · exact hdigit (hall c hc)

/-- Cutting off suffixes leaves the text in front of them, if it does not end with one. -/
theorem dropSuffix_append {body suff : List Char} (hbody : ∀ c ∈ body, isFloatSuffix c = false)
    (hsuff : ∀ c ∈ suff, isFloatSuffix c = true) :
    ((body ++ suff).reverse.dropWhile isFloatSuffix).reverse = body := by
  have hstop : body.reverse.dropWhile isFloatSuffix = body.reverse := by
    cases hreverse : body.reverse with
    | nil => rfl
    | cons c cs =>
        have hc : c ∈ body := List.mem_reverse.1 (hreverse ▸ List.mem_cons_self)
        rw [List.dropWhile_cons_of_neg (by simp [hbody c hc])]
  rw [List.reverse_append, List.dropWhile_append_of_pos fun c hc => hsuff c (List.mem_reverse.1 hc),
    hstop, List.reverse_reverse]

end SqlMarkers.Token
