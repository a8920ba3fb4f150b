/-
SqlMarkers.Proofs.Spacing — tokens in front of gaps.

A gap starts with a space character, a `-`, a `/` or a `#` (`Gap.isMark`). A token that is
read is read again in front of any gap (`Lexeme.read_parted`), with three exceptions, in
which the token and the start of the gap belong together (`Kind.absorbs`): a `-` and a `/`
start a comment with a second one, and a word goes on with a `#`.
-/
import SqlMarkers.Proofs.Rereading

namespace SqlMarkers

open CharClass

/-! ## The characters that gaps start with -/

/-- Whether a gap can start with this character. -/
def Gap.isMark (c : Char) : Bool := isSpace c || c == '-' || c == '/' || c == '#'

namespace Gap

variable {d : Dialect} {gap : List Char}

theorem isMark_of_lineMark {mark : List Char} (h : LineMark d mark) :
    ∃ c cs, mark = c :: cs ∧ isMark c = true := by
  cases h with
  | dashes => exact ⟨'-', ['-'], rfl, rfl⟩
  | slashes => exact ⟨'/', ['/'], rfl, rfl⟩
  | hash => exact ⟨'#', [], rfl, rfl⟩

theorem isMark_of_piece {piece : List Char} (h : Piece d piece) :
    ∃ c cs, piece = c :: cs ∧ isMark c = true := by
  cases h with
  | @space c hc => exact ⟨c, [], rfl, by simp [isMark, hc]⟩
  | line hmark _ =>
      obtain ⟨c, cs, rfl, hc⟩ := isMark_of_lineMark hmark
      exact ⟨c, _, rfl, hc⟩
  | comment => exact ⟨'/', _, rfl, rfl⟩
  | hint => exact ⟨'/', _, rfl, rfl⟩

theorem Closed.isMark (h : Closed d gap) : ∀ c ∈ gap.head?, isMark c = true := by
  intro c hc
  cases h with
  | nil => cases hc
  | cons hpiece _ =>
      obtain ⟨c', cs, rfl, hmark⟩ := isMark_of_piece hpiece
      obtain rfl : c' = c := by simpa using hc
      exact hmark

theorem Final.isMark (h : Final d gap) : ∀ c ∈ gap.head?, isMark c = true := by
  cases h with
  | closed hgap => exact hgap.isMark
  | @openLine gap mark body hgap hmark _ =>
      intro c hc
      cases gap with
      | cons c' gap => exact hgap.isMark c hc
      | nil =>
          obtain ⟨c', cs, rfl, hc'⟩ := isMark_of_lineMark hmark
          obtain rfl : c' = c := by simpa using hc
          exact hc'

/-- What the character tells the readers of tokens: hardly anything goes on with it. -/
structure Inert (c : Char) : Prop where
  digit : isDigit c = false
  hexDigit : isHexDigit c = false
  floatSuffix : Token.isFloatSuffix c = false
  word : c ≠ '#' → isWordChar c = false
  plain : c ∉ ['.', 'e', 'E', 'x', 'X', '@', '\x27', '\x22', '\x60', ']']

theorem inert_endMark : Inert endMark := by
  constructor <;> decide

theorem inert_of_isMark {c : Char} (h : isMark c = true) : Inert c := by
  have hall : ∀ n : Fin 128, isMark (Char.ofNat n) = true →
      isDigit (Char.ofNat n) = false ∧ isHexDigit (Char.ofNat n) = false ∧
        Token.isFloatSuffix (Char.ofNat n) = false ∧
        (Char.ofNat n ≠ '#' → isWordChar (Char.ofNat n) = false) ∧
        Char.ofNat n ∉ ['.', 'e', 'E', 'x', 'X', '@', '\x27', '\x22', '\x60', ']'] := by
    decide
  have hlow : c.toNat < 128 := by
    simp only [isMark, isSpace, Bool.or_eq_true, Bool.and_eq_true, decide_eq_true_eq,
      beq_iff_eq] at h
    rcases h with ((hspace | rfl) | rfl) | rfl
    · omega
    all_goals decide
  have hc := hall ⟨c.toNat, hlow⟩
  rw [Char.ofNat_toNat] at hc
  obtain ⟨hdigit, hhex, hsuffix, hword, hplain⟩ := hc h
  exact ⟨hdigit, hhex, hsuffix, hword, hplain⟩

theorem inert_peek {rest : List Char} (h : ∀ c ∈ rest.head?, isMark c = true) :
    Inert (peek rest) := by
  cases rest with
  | nil => exact inert_endMark
  | cons c rest => exact inert_of_isMark (h c rfl)

end Gap

/-! ## Tokens and gaps that belong together -/

/-- Whether a token goes on with further characters of a word. -/
def Kind.runsOn (k : Kind) (text : List Char) : Bool :=
  match k with
  | .keyword _ | .sqlVariable => true
  | .identifier => text.getLast?.any isWordChar
  | .float => text.getLast?.any Token.isFloatSuffix
  | _ => false

/-- Whether a token takes in the start of a gap: two `-` or two `/` start a comment, and a
word goes on with a `#`. -/
def Kind.absorbs (k : Kind) (text : List Char) (c : Char) : Bool :=
  (c == '-' && text == ['-']) || (c == '/' && text == ['/']) || (c == '#' && k.runsOn text)

namespace Lexeme

/-- The text may stand behind the lexeme: it is empty or starts as a gap, whose first
character the lexeme does not take in. -/
def Parts (l : Lexeme) (rest : List Char) : Prop :=
  ∀ c ∈ rest.head?, Gap.isMark c = true ∧ l.kind.absorbs l.text c = false

variable {d : Dialect} {l : Lexeme} {rest : List Char}

theorem Parts.isMark (h : l.Parts rest) : ∀ c ∈ rest.head?, Gap.isMark c = true :=
  fun c hc => (h c hc).1

theorem Parts.inert (h : l.Parts rest) : Gap.Inert (peek rest) := Gap.inert_peek h.isMark

/-- No word that runs on does so in the text behind it. -/
theorem Parts.word (h : l.Parts rest) (hruns : l.kind.runsOn l.text = true) :
    isWordChar (peek rest) = false := by
  refine h.inert.word fun hhash => ?_
  cases rest with
  | nil => cases hhash
  | cons c rest =>
      obtain rfl : c = '#' := hhash
      have habsorbs := (h '#' rfl).2
      simp [Kind.absorbs, hruns] at habsorbs

/-! ### Quoted text -/

/-- The characters that open or close quoted text. -/
def isQuote (c : Char) : Bool := c == '\x27' || c == '\x22' || c == '\x60' || c == ']'

theorem close?_parted {quote : Char} {escapes : Bool} {cs body behind : List Char}
    (hquote : isQuote quote = true) (h : close? quote escapes cs = some (body, behind))
    (hrest : Gap.Inert (peek rest)) : close? quote escapes (body ++ rest) = some (body, rest) := by
  obtain ⟨inner, rfl, -, htail⟩ := close?_cut h
  have hslash : quote ≠ '\\' := by
    rintro rfl
    cases hquote
  have hmark : quote ≠ endMark := by
    rintro rfl
    cases hquote
  have hclose : close? quote escapes (quote :: rest) = some ([quote], rest) := by
    cases rest with
    | nil => simp [close?, hslash, hmark]
    | cons c rest =>
        have hne : c ≠ quote := by
          rintro rfl
          refine hrest.plain ?_
          simp only [isQuote, Bool.or_eq_true, beq_iff_eq] at hquote
          show c ∈ _
          rcases hquote with ((rfl | rfl) | rfl) | rfl <;> decide
        simp [close?, hslash, hne]
  rw [List.append_assoc, htail, List.singleton_append, hclose]
  rfl

theorem string_parted {quote : Char} {cs : List Char} (hquote : isQuote quote = true)
    (h : string d (quote :: cs) = .ok l) (hrest : Gap.Inert (peek rest)) :
    string d (l.text ++ rest) = .ok { l with rest } := by
  rw [string] at h
  split at h
  · rename_i body behind hclose
    cases h
    rw [List.cons_append, string, close?_parted hquote hclose hrest]
  · cases h

theorem nationalString_parted {mark quote : Char} {cs : List Char} (hquote : isQuote quote = true)
    (h : nationalString d (mark :: quote :: cs) = .ok l) (hrest : Gap.Inert (peek rest)) :
    nationalString d (l.text ++ rest) = .ok { l with rest } := by
  rw [nationalString] at h
  split at h
  · rename_i l' hstring
    cases h
    rw [List.cons_append, nationalString, string_parted hquote hstring hrest]
  · cases h

/-! ### Numbers -/

/-- A fraction is a point and digits. -/
theorem fraction_shape {cs frac : List Char} (h : fraction cs = frac) :
    frac = [] ∨ ∃ digits, frac = '.' :: digits ∧ ∀ c ∈ digits, isDigit c = true := by
  subst h
  unfold fraction
  split
  · split
    · exact .inl rfl
    · exact .inr ⟨_, rfl, fun c hc => List.mem_takeWhile_imp hc⟩
  · exact .inl rfl

/-- An exponent is its mark, a sign or none, and at least one digit. -/
theorem exponent_shape {cs expo : List Char} (h : exponent cs = expo) :
    expo = [] ∨ ∃ e sign digits, expo = e :: (sign ++ digits) ∧ (e = 'e' ∨ e = 'E') ∧
      (sign = [] ∨ sign = ['+'] ∨ sign = ['-']) ∧ digits ≠ [] ∧
      ∀ c ∈ digits, isDigit c = true := by
  subst h
  unfold exponent
  split
  · exact .inl rfl
  · rename_i e cs
    split
    · rename_i hmark
      extract_lets sign digits
      split
      · exact .inl rfl
      · rename_i hsome
        refine .inr ⟨e, sign, digits, rfl, by simpa using hmark, ?_, ?_, fun c hc =>
          List.mem_takeWhile_imp hc⟩
        · by_cases hsign : (peek cs == '+' || peek cs == '-') = true
          · simp only [sign, if_pos hsign]
            simp only [Bool.or_eq_true, beq_iff_eq] at hsign
            rcases hsign with hsign | hsign <;> simp [hsign]
          · exact .inl (if_neg hsign)
        · exact fun hnil => hsome (by rw [hnil]; rfl)
    · exact .inl rfl

/-- A suffix is a single character. -/
theorem suffix_shape {cs suff : List Char} (h : suffix cs = suff) :
    suff = [] ∨ ∃ c, suff = [c] ∧ Token.isFloatSuffix c = true := by
  subst h
  unfold suffix
  split
  · exact .inl rfl
  · rename_i c cs
    split
    · rename_i hc
      exact .inr ⟨c, rfl, (Bool.and_eq_true_iff.1 hc).1⟩
    · exact .inl rfl

theorem suffix_exact {suff : List Char} (h : suff = [] ∨ ∃ c, suff = [c] ∧
    Token.isFloatSuffix c = true) (hnone : Token.isFloatSuffix (peek rest) = false)
    (hword : suff ≠ [] → isWordChar (peek rest) = false) : suffix (suff ++ rest) = suff := by
  rcases h with rfl | ⟨c, rfl, hc⟩
  · cases rest with
    | nil => rfl
    | cons c rest =>
        have hc : Token.isFloatSuffix c = false := hnone
        rw [List.nil_append, suffix, hc]
        rfl
  · rw [List.singleton_append, suffix, hc, hword (by simp)]
    rfl

/-- What may stand behind the digits of a number. -/
structure EndsNumber (cs : List Char) : Prop where
  digit : isDigit (peek cs) = false
  point : peek cs ≠ '.'

theorem EndsNumber.head (h : EndsNumber rest) : ∀ c ∈ rest.head?, isDigit c = false :=
  head?_of_peek h.digit

theorem exponent_exact {expo : List Char} (h : expo = [] ∨ ∃ e sign digits,
    expo = e :: (sign ++ digits) ∧ (e = 'e' ∨ e = 'E') ∧
      (sign = [] ∨ sign = ['+'] ∨ sign = ['-']) ∧ digits ≠ [] ∧ ∀ c ∈ digits, isDigit c = true)
    (hrest : EndsNumber rest) (hlower : peek rest ≠ 'e') (hupper : peek rest ≠ 'E') :
    exponent (expo ++ rest) = expo := by
  rcases h with rfl | ⟨e, sign, digits, rfl, hmark, hsign, hdigits, hall⟩
  · cases rest with
    | nil => rfl
    | cons c rest =>
        have hc : ¬(c == 'e' || c == 'E') = true := by
          simp only [Bool.or_eq_true, beq_iff_eq]
          exact not_or.2 ⟨hlower, hupper⟩
        rw [List.nil_append, exponent, if_neg hc]
  · have hrun := (takeWhile_exact hall hrest.head).1
    have hsome : ¬digits.isEmpty = true := by simpa using hdigits
    have hmark : (e == 'e' || e == 'E') = true := by simpa using hmark
    have hsigned : (if peek (sign ++ (digits ++ rest)) == '+' ||
        peek (sign ++ (digits ++ rest)) == '-' then [peek (sign ++ (digits ++ rest))] else []) =
          sign := by
      rcases hsign with rfl | rfl | rfl
      · obtain ⟨c, digits, rfl⟩ := List.exists_cons_of_ne_nil hdigits
        rw [if_neg]
        simp only [Bool.or_eq_true, beq_iff_eq]
        rintro (rfl | rfl) <;> cases hall _ List.mem_cons_self
      · rfl
      · rfl
    rw [List.cons_append, List.append_assoc, exponent, if_pos hmark]
    simp only [hsigned, List.drop_left, hrun, if_neg hsome]
    rfl

theorem fraction_exact {frac : List Char} (h : frac = [] ∨ ∃ digits, frac = '.' :: digits ∧
    ∀ c ∈ digits, isDigit c = true) (hrest : EndsNumber rest) : fraction (frac ++ rest) = frac := by
  rcases h with rfl | ⟨digits, rfl, hall⟩
  · cases rest with
    | nil => rfl
    | cons c rest =>
        have hc : ¬(c == '.') = true := by
          rw [beq_iff_eq]
          exact hrest.point
        rw [List.nil_append, fraction_cons, if_neg hc]
  · have hsecond : ¬(peek (digits ++ rest) == '.') = true := by
      rw [beq_iff_eq]
      cases digits with
      | nil => exact hrest.point
      | cons c digits =>
          rintro (rfl : c = '.')
          cases hall '.' List.mem_cons_self
    rw [List.cons_append, fraction_cons, if_pos (beq_self_eq_true '.'), if_neg hsecond,
      (takeWhile_exact hall hrest.head).1]

/-- The number is the same in front of a gap. -/
theorem Numeral.parted {sign whole frac expo suff behind : List Char}
    (h : Numeral sign whole frac expo suff behind)
    (htext : sign ++ whole ++ frac ++ expo ++ suff ≠ []) (hrest : Gap.Inert (peek rest))
    (hword : suff ≠ [] → isWordChar (peek rest) = false) :
    Numeral sign whole frac expo suff rest := by
  have hplain : ∀ {c}, c ∈ ['.', 'e', 'E', 'x', 'X', '@', '\x27', '\x22', '\x60', ']'] →
      peek rest ≠ c := by
    rintro c hc rfl
    exact hrest.plain hc
  have hsuffix := suffix_shape h.suffixed
  have hexponent := exponent_shape h.exponential
  have hfraction := fraction_shape h.fractional
  -- From the last part to the first: what does not come behind the part in front of it.
  have hsuff : EndsNumber (suff ++ rest) ∧ peek (suff ++ rest) ≠ 'e' ∧
      peek (suff ++ rest) ≠ 'E' := by
    rcases hsuffix with rfl | ⟨c, rfl, hc⟩
    · exact ⟨⟨hrest.digit, hplain (by decide)⟩, hplain (by decide), hplain (by decide)⟩
    · simp only [Token.isFloatSuffix, Bool.or_eq_true, beq_iff_eq] at hc
      rcases hc with ((rfl | rfl) | rfl) | rfl <;>
        exact ⟨⟨rfl, by simp [peek]⟩, by simp [peek], by simp [peek]⟩
  have hexpo : EndsNumber (expo ++ (suff ++ rest)) := by
    rcases hexponent with rfl | ⟨e, sign, digits, rfl, rfl | rfl, -⟩
    · exact hsuff.1
    · exact ⟨rfl, by simp [peek]⟩
    · exact ⟨rfl, by simp [peek]⟩
  have hfrac : isDigit (peek (frac ++ (expo ++ (suff ++ rest)))) = false := by
    rcases hfraction with rfl | ⟨digits, rfl, -⟩
    · exact hexpo.digit
    · rfl
  refine ⟨?_, ?_, fraction_exact hfraction hexpo, exponent_exact hexponent hsuff.1 hsuff.2.1
    hsuff.2.2, suffix_exact hsuffix hrest.floatSuffix hword⟩
  · have hsigned := h.signed
    have hwhole : ∀ rest, sign ++ (whole ++ (frac ++ (expo ++ (suff ++ rest)))) =
        sign ++ whole ++ frac ++ expo ++ suff ++ rest := by
      simp
    rw [hwhole] at hsigned ⊢
    rwa [peek_append_of_leads (List.prefix_append _ behind) htext rest]
  · have hall : ∀ c ∈ whole, isDigit c = true := by
      intro c hc
      rw [← h.digits] at hc
      exact List.mem_takeWhile_imp hc
    exact (takeWhile_exact hall (head?_of_peek hfrac)).1

theorem number_parted {cs : List Char} (h : number cs = .ok l) (htext : l.text ≠ [])
    (hrest : l.Parts rest) : number (l.text ++ rest) = .ok { l with rest } := by
  obtain ⟨sign, whole, frac, expo, suff, behind, rfl, hnumeral⟩ := exists_numeral cs
  refine hnumeral.number_replaced (hnumeral.parted ?_ hrest.inert fun hsuff => hrest.word ?_) h
  · rw [← (hnumeral.split_eq h).1]
    exact htext
  · -- A number with a suffix is a float whose last character is the suffix.
    rcases suffix_shape hnumeral.suffixed with rfl | ⟨c, rfl, hc⟩
    · exact absurd rfl hsuff
    · rw [hnumeral.number_eq, if_neg (by simp)] at h
      cases h
      simp [Kind.runsOn, hc]

/-! ### Symbols -/

/-- No symbol goes on with a character that a gap can start with. -/
theorem isMark_of_mem_tail (s : Symbol) : ∀ c ∈ s.spelling.toList.tail, Gap.isMark c = false := by
  have hmarks : s.spelling.toList.tail.all (fun c => !Gap.isMark c) = true := by
    cases s <;> decide
  simpa using hmarks

/-- A symbol is the longest one in front of a gap. -/
theorem operatorWithin_parted {s : Symbol} {text : List Char} (hfind : Symbol.find? text = some s)
    (hne : text ≠ []) (hrest : ∀ c ∈ rest.head?, Gap.isMark c = true) {n : Nat}
    (hn : text.length ≤ n) : operatorWithin (text ++ rest) n = .ok ⟨.symbol s, text, rest⟩ := by
  obtain ⟨k, rfl⟩ := Nat.exists_eq_add_of_le hn
  induction k with
  | zero =>
      obtain ⟨m, hm⟩ : ∃ m, text.length = m + 1 :=
        ⟨text.length - 1, by have := List.length_pos_iff.2 hne; omega⟩
      rw [Nat.add_zero, hm, operatorWithin, ← hm, List.take_left, List.drop_left, hfind]
  | succ k ih =>
      rw [← Nat.add_assoc, operatorWithin]
      cases rest with
      | nil =>
          rw [List.append_nil, List.take_of_length_le (by omega), hfind,
            List.drop_of_length_le (by omega)]
      | cons c rest =>
          have hnone : Symbol.find? ((text ++ c :: rest).take (text.length + k + 1)) = none := by
            rw [Option.eq_none_iff_forall_ne_some]
            intro s' hs'
            have hspelled : s'.spelling.toList = text ++ c :: rest.take k := by
              have hs := List.find?_some hs'
              rw [beq_iff_eq] at hs
              rw [hs, Nat.add_assoc, List.take_length_add_append, List.take_succ_cons]
            have hmem : c ∈ s'.spelling.toList.tail := by
              rw [hspelled]
              cases text with
              | nil => exact absurd rfl hne
              | cons a text => simp
            have hmark := hrest c rfl
            rw [isMark_of_mem_tail s' c hmem] at hmark
            cases hmark
          rw [hnone]
          exact ih (Nat.le_add_right _ _)

theorem find?_of_operatorWithin {cs : List Char} {n : Nat} (h : operatorWithin cs n = .ok l) :
    ∃ s, Symbol.find? l.text = some s ∧ l.kind = .symbol s ∧ l.text.length ≤ n := by
  induction n with
  | zero => cases h
  | succ n ih =>
      rw [operatorWithin] at h
      split at h
      · rename_i s hs
        cases h
        exact ⟨s, hs, rfl, List.length_take_le _ _⟩
      · obtain ⟨s, hs, hkind, hlength⟩ := ih h
        exact ⟨s, hs, hkind, Nat.le_succ_of_le hlength⟩

theorem operator_parted {cs : List Char} (h : operator cs = .ok l)
    (hrest : ∀ c ∈ rest.head?, Gap.isMark c = true) :
    operator (l.text ++ rest) = .ok { l with rest } := by
  obtain ⟨s, hs, hkind, hlength⟩ := find?_of_operatorWithin h
  rw [operator, operatorWithin_parted hs (operatorWithin_splits _ _ h).nonempty hrest hlength, ← hkind]

/-! ### Words and names -/

/-- The kind of an unquoted word is known to be that of a keyword or of a name. -/
theorem runsOn_word {text : List Char} (hne : text ≠ []) (hall : ∀ c ∈ text, isWordChar c = true)
    (rest : List Char) : (wordKind d text rest).runsOn text = true := by
  have hlast : text.getLast?.any isWordChar = true := by
    rw [List.getLast?_eq_some_getLast hne]
    exact hall _ (List.getLast_mem hne)
  unfold wordKind
  split
  · split
    · rfl
    · exact hlast
  · split
    · rfl
    · exact hlast
  · rfl
  · exact hlast

theorem name_parted {c : Char} {cs : List Char} (h : name d (c :: cs) = .ok l)
    (htext : l.text ≠ []) (hrest : l.Parts rest)
    (hby : wordKind d l.text rest = wordKind d l.text l.rest) : name d (l.text ++ rest) = .ok { l with rest } := by
  rw [name] at h
  split at h
  · rename_i hquoted
    have hquote : isQuote (if c == '[' then ']' else c) = true := by
      by_cases hbracket : c = '['
      · rw [hbracket]
        rfl
      · have hmark : c = '\x60' := by simpa [hbracket] using hquoted
        rw [hmark]
        rfl
    split at h
    · rename_i body behind hclose
      cases h
      rw [List.cons_append, name, if_pos hquoted, close?_parted hquote hclose hrest.inert]
    · cases h
  · rename_i hplain
    cases h
    have hall : ∀ c' ∈ (word d (c :: cs)).text, isWordChar c' = true :=
      fun c' hc' => List.mem_takeWhile_imp hc'
    have hend := hrest.word (runsOn_word htext hall _)
    have hrun := takeWhile_exact hall (head?_of_peek hend)
    obtain ⟨a, text, ha⟩ := List.exists_cons_of_ne_nil htext
    have hfirst : a = c := by
      have hleads := List.takeWhile_prefix isWordChar (l := c :: cs)
      rw [show (c :: cs).takeWhile isWordChar = a :: text from ha] at hleads
      exact (List.cons_prefix_cons.1 hleads).1
    have hplain' : ¬(a == '\x60' || (a == '[' && d.features.bracketNames)) = true := by
      rw [hfirst]
      exact hplain
    have hword : word d ((word d (c :: cs)).text ++ rest) = { word d (c :: cs) with rest } := by
      rw [word, hrun.1, hrun.2, hby]
      rfl
    rw [← hword]
    rw [ha, List.cons_append, name, if_neg hplain']

/-! ### Which form comes next -/

/-- The form stays the same where the second character stays the same or is neither a quote
nor an `x`, and where a number stays one and anything else does not become one. -/
theorem formOf_parted {first second second' : Char} {number number' : Bool} {f : Form}
    (h : formOf d first second number = some f) (hquote : second' = '\x27' → second' = second)
    (hmark : second' = 'x' ∨ second' = 'X' → second' = second)
    (hlong : f = .nationalString ∨ f = .hexadecimal → second' = second)
    (hnumber : f = .number → number' = true)
    (hother : f = .operator ∨ f = .string → number' = false) :
    formOf d first second' number' = some f := by
  have hnational : ¬(d.features.nationalStrings && (first == 'N' || first == 'n') &&
      second == '\x27') = true → ¬(d.features.nationalStrings && (first == 'N' || first == 'n') &&
        second' == '\x27') = true := by
    intro hnot hnow
    have hsame := hquote (by simpa using (Bool.and_eq_true_iff.1 hnow).2)
    exact hnot (hsame ▸ hnow)
  have hhex : ¬(first == '0' && (second == 'x' || second == 'X')) = true →
      ¬(first == '0' && (second' == 'x' || second' == 'X')) = true := by
    intro hnot hnow
    have hsame := hmark (by simpa using (Bool.and_eq_true_iff.1 hnow).2)
    exact hnot (hsame ▸ hnow)
  unfold formOf at h ⊢
  split_ifs at h with h₁ h₂ h₃ h₄ h₅ h₆ h₇ <;> cases h
  · rw [if_pos h₁]
  · rw [if_neg h₁, hlong (.inl rfl), if_pos h₂]
  · rw [if_neg h₁, if_neg (hnational h₂), if_pos h₃]
  · rw [if_neg h₁, if_neg (hnational h₂), if_neg h₃, hlong (.inr rfl), if_pos h₄]
  · rw [if_neg h₁, if_neg (hnational h₂), if_neg h₃, if_neg (hhex h₄), if_pos (hnumber rfl)]
  · rw [if_neg h₁, if_neg (hnational h₂), if_neg h₃, if_neg (hhex h₄), hother (.inl rfl),
      if_neg Bool.false_ne_true, if_pos h₆]
  · rw [if_neg h₁, if_neg (hnational h₂), if_neg h₃, if_neg (hhex h₄), hother (.inr rfl),
      if_neg Bool.false_ne_true, if_neg h₆, if_pos h₇]

/-- The characters of a text do not depend on what stands behind it. -/
theorem peek_drop_of_lt {text behind : List Char} {k : Nat} (h : k < text.length)
    (rest : List Char) : peek ((text ++ rest).drop k) = peek ((text ++ behind).drop k) := by
  have hne : text.drop k ≠ [] := by
    rw [Ne, List.drop_eq_nil_iff]
    omega
  rw [List.drop_append_of_le_length (Nat.le_of_lt h), List.drop_append_of_le_length (Nat.le_of_lt h)]
  exact peek_append_of_leads (List.prefix_append _ _) hne _

/-- A number that starts with its point or its sign takes in what makes it a number. -/
theorem startsNumber_shape {b : Before} {cs : List Char} (h : number cs = .ok l)
    (hstarts : startsNumber b cs = true) : isDigit (peek cs) = true ∨
      (peek cs = '.' ∧ isDigit (peek (cs.drop 1)) = true ∧ 1 < l.text.length) ∨
      (peek cs = '-' ∧ b.endsOperand = false ∧ isDigit (peek (cs.drop 1)) = true ∧
        1 < l.text.length) ∨
      (peek cs = '-' ∧ b.endsOperand = false ∧ peek (cs.drop 1) = '.' ∧
        isDigit (peek (cs.drop 2)) = true ∧ 2 < l.text.length) := by
  obtain ⟨sign, whole, frac, expo, suff, behind, hcs, hnumeral⟩ := exists_numeral cs
  have hlength : l.text.length =
      sign.length + whole.length + frac.length + expo.length + suff.length := by
    rw [(hnumeral.split_eq (hcs ▸ h)).1]
    simp only [List.length_append]
  have hsigned := hnumeral.signed
  have hdigits := hnumeral.digits
  have hfractional := hnumeral.fractional
  rw [← hcs] at hsigned
  -- A point with a digit behind it is a fraction of at least two characters.
  have hfrac : ∀ {tail : List Char}, isDigit (peek tail) = true →
      2 ≤ (fraction ('.' :: tail)).length := by
    intro tail htail
    cases tail with
    | nil => cases htail
    | cons x tail =>
        have hx : isDigit x = true := htail
        have hpoint : ¬(peek (x :: tail) == '.') = true := by
          rw [beq_iff_eq]
          rintro (rfl : x = '.')
          cases hx
        rw [fraction_cons, if_pos (beq_self_eq_true '.'), if_neg hpoint,
          List.takeWhile_cons_of_pos hx]
        simp
  have hnodigit : ∀ {tail : List Char}, ('.' :: tail).takeWhile isDigit = [] := rfl
  simp only [startsNumber, List.drop_zero, Bool.or_eq_true, Bool.and_eq_true, beq_iff_eq,
    Bool.not_eq_true'] at hstarts
  rcases hstarts with (hdigit | ⟨⟨hpoint, hdigit⟩, -⟩) | ⟨⟨hminus, hends⟩, hdigit | ⟨hpoint, hdigit⟩⟩
  · exact .inl hdigit
  · refine .inr (.inl ⟨hpoint, hdigit, ?_⟩)
    obtain ⟨tail, rfl⟩ : ∃ tail, cs = '.' :: tail := by
      cases cs with
      | nil => cases hpoint
      | cons c tail => exact ⟨tail, congrArg (· :: tail) hpoint⟩
    obtain rfl : [] = sign := hsigned
    rw [List.nil_append] at hcs
    rw [← hcs, hnodigit] at hdigits
    subst hdigits
    rw [List.nil_append] at hcs
    rw [← hcs] at hfractional
    have : 2 ≤ (fraction ('.' :: tail)).length := hfrac hdigit
    rw [hfractional] at this
    omega
  · refine .inr (.inr (.inl ⟨hminus, hends, hdigit, ?_⟩))
    obtain ⟨tail, rfl⟩ : ∃ tail, cs = '-' :: tail := by
      cases cs with
      | nil => cases hminus
      | cons c tail => exact ⟨tail, congrArg (· :: tail) hminus⟩
    obtain rfl : ['-'] = sign := hsigned
    have htail : tail = whole ++ (frac ++ (expo ++ (suff ++ behind))) := (List.cons.inj hcs).2
    have hwhole : whole ≠ [] := by
      rintro rfl
      rw [← htail] at hdigits
      cases tail with
      | nil => cases hdigit
      | cons x tail =>
          have hx : isDigit x = true := hdigit
          rw [List.takeWhile_cons_of_pos hx] at hdigits
          cases hdigits
    have := List.length_pos_iff.2 hwhole
    simp only [List.length_singleton] at hlength
    omega
  · refine .inr (.inr (.inr ⟨hminus, hends, hpoint, hdigit, ?_⟩))
    obtain ⟨tail, rfl⟩ : ∃ tail, cs = '-' :: '.' :: tail := by
      match cs with
      | [] => cases hminus
      | [c] => cases hpoint
      | c :: c' :: tail =>
          obtain rfl : c = '-' := hminus
          obtain rfl : c' = '.' := hpoint
          exact ⟨tail, rfl⟩
    obtain rfl : ['-'] = sign := hsigned
    have htail : '.' :: tail = whole ++ (frac ++ (expo ++ (suff ++ behind))) :=
      (List.cons.inj hcs).2
    rw [← htail, hnodigit] at hdigits
    subst hdigits
    rw [List.nil_append] at htail
    rw [← htail] at hfractional
    have : 2 ≤ (fraction ('.' :: tail)).length := hfrac hdigit
    rw [hfractional] at this
    simp only [List.length_singleton] at hlength
    omega

/-- A number in front of a gap starts as one. -/
theorem startsNumber_parted {b b' : Before} {cs : List Char} (h : number cs = .ok l)
    (hstarts : startsNumber b cs = true) (hwhole : l.text ++ l.rest = cs) (hne : l.text ≠ [])
    (hends : b'.endsOperand = b.endsOperand) (htouches : b'.touchesWord = false)
    (rest : List Char) : startsNumber b' (l.text ++ rest) = true := by
  have hpeek : ∀ k, k < l.text.length → peek ((l.text ++ rest).drop k) = peek (cs.drop k) := by
    intro k hk
    rw [← hwhole]
    exact peek_drop_of_lt hk rest
  have hfirst := hpeek 0 (List.length_pos_iff.2 hne)
  rw [List.drop_zero, List.drop_zero] at hfirst
  simp only [startsNumber, List.drop_zero, Bool.or_eq_true, Bool.and_eq_true, beq_iff_eq,
    Bool.not_eq_true', hfirst, hends, htouches]
  rcases startsNumber_shape h hstarts with hdigit | ⟨hpoint, hdigit, hlength⟩ |
    ⟨hminus, hoperand, hdigit, hlength⟩ | ⟨hminus, hoperand, hpoint, hdigit, hlength⟩
  · exact .inl (.inl hdigit)
  · exact .inl (.inr ⟨⟨hpoint, by rw [hpeek 1 hlength]; exact hdigit⟩, trivial⟩)
  · exact .inr ⟨⟨hminus, hoperand⟩, .inl (by rw [hpeek 1 hlength]; exact hdigit)⟩
  · refine .inr ⟨⟨hminus, hoperand⟩, .inr ⟨?_, ?_⟩⟩
    · rw [hpeek 1 (by omega)]
      exact hpoint
    · rw [hpeek 2 hlength]
      exact hdigit

/-- What stands behind the first character of a symbol. -/
theorem second_of_spelling (s : Symbol) : ∀ c ∈ s.spelling.toList.tail.head?,
    isDigit c = false ∧ (c = '.' → s.spelling.toList.head? = some '.') := by
  have hsecond : s.spelling.toList.tail.head?.all (fun c => !isDigit c &&
      (c != '.' || s.spelling.toList.head? == some '.')) = true := by
    cases s <;> decide
  intro c hc
  rw [Option.mem_def.1 hc] at hsecond
  simpa [Decidable.imp_iff_not_or] using hsecond

/-- An operator in front of a gap does not start as a number. -/
theorem startsNumber_operator {b b' : Before} {cs : List Char} (h : operator cs = .ok l)
    (hstarts : startsNumber b cs = false) (hrest : Gap.Inert (peek rest)) :
    startsNumber b' (l.text ++ rest) = false := by
  have hsplit := operatorWithin_splits _ _ h
  obtain ⟨s, hs, -, -⟩ := find?_of_operatorWithin h
  have hspelled : s.spelling.toList = l.text := by simpa using List.find?_some hs
  have hsecond := second_of_spelling s
  rw [hspelled] at hsecond
  obtain ⟨c, tail, htext⟩ := List.exists_cons_of_ne_nil hsplit.nonempty
  rw [htext] at hsecond ⊢
  have hfirst : isDigit c = false := by
    rw [← hsplit.whole, htext] at hstarts
    simp only [startsNumber, List.drop_zero, Bool.or_eq_false_iff] at hstarts
    exact hstarts.1.1
  have hdigit : isDigit (peek (tail ++ rest)) = false := by
    cases tail with
    | nil => exact hrest.digit
    | cons x tail => exact (hsecond x rfl).1
  have hpoint : c = '-' → peek (tail ++ rest) ≠ '.' := by
    rintro rfl
    cases tail with
    | nil =>
        intro heq
        refine hrest.plain ?_
        rw [show peek rest = '.' from heq]
        decide
    | cons x tail =>
        rintro (rfl : x = '.')
        cases (hsecond '.' rfl).2 rfl
  by_cases hminus : c = '-'
  · simp [startsNumber, peek, hminus] at hdigit hpoint ⊢
    simp_all
  · simp_all [startsNumber, peek]

/-- What is known of the first characters and of the number where a form was chosen. -/
theorem formOf_spec {first second : Char} {number : Bool} {f : Form}
    (h : formOf d first second number = some f) :
    (f = .number → number = true) ∧ (f = .operator ∨ f = .string → number = false) ∧
      (f = .string → isQuote first = true ∧ isDigit first = false ∧ first ≠ '.' ∧ first ≠ '-') ∧
      (f = .nationalString → second = '\x27') := by
  unfold formOf at h
  split_ifs at h with h₁ h₂ h₃ h₄ h₅ h₆ h₇ <;> cases h <;>
    simp only [reduceCtorEq, false_implies, true_and, and_true, true_implies, or_false,
      or_true]
  · simp only [Bool.and_eq_true, beq_iff_eq] at h₂
    exact h₂.2
  · exact h₅
  · exact Bool.eq_false_iff.2 h₅
  · refine ⟨Bool.eq_false_iff.2 h₅, ?_⟩
    simp only [Bool.or_eq_true, beq_iff_eq] at h₇
    rcases h₇ with rfl | rfl <;> exact ⟨rfl, rfl, by decide, by decide⟩

/-- The tokens that are known by their second character hold it. -/
theorem length_of_split {f : Form} {cs : List Char} (h : f.split d cs = .ok l)
    (hf : f = .nationalString ∨ f = .hexadecimal) : 1 < l.text.length := by
  rcases hf with rfl | rfl
  · change nationalString d cs = .ok l at h
    unfold nationalString at h
    split at h
    · cases h
    · split at h
      · rename_i l' hstring
        cases h
        have := List.length_pos_iff.2 (string_splits d hstring).nonempty
        rw [List.length_cons]
        omega
      · cases h
  · change hexadecimal cs = .ok l at h
    unfold hexadecimal at h
    extract_lets tail sign digitsOn digits at h
    split at h
    · cases h
    · rename_i hdigits
      split at h <;> cases h
      have htail : tail ≠ [] := by
        intro hnil
        refine hdigits ?_
        simp only [digits, digitsOn, hnil, List.drop_nil, List.takeWhile_nil]
        rfl
      have hlength := List.length_pos_iff.2 htail
      rw [List.length_drop] at hlength
      simp only [List.length_append, List.length_take]
      omega

theorem sqlVariable_kind {cs : List Char} (h : sqlVariable cs = .ok l) :
    l.kind = .sqlVariable := by
  unfold sqlVariable at h
  split at h
  · cases h
  · extract_lets marks tail named body at h
    split at h <;> cases h
    rfl

theorem split_parted {f : Form} {first : Char} {cs : List Char} {number : Bool}
    (hform : formOf d first (peek cs) number = some f) (h : f.split d (first :: cs) = .ok l)
    (htext : l.text ≠ []) (hrest : l.Parts rest)
    (hby : wordKind d l.text rest = wordKind d l.text l.rest) : f.split d (l.text ++ rest) = .ok { l with rest } := by
  obtain ⟨-, -, hstring, hnational⟩ := formOf_spec hform
  cases f with
  | sqlVariable =>
      have h : sqlVariable (first :: cs) = .ok l := h
      refine sqlVariable_exact h (head?_of_peek (p := fun c => isWordChar c || c == '.') ?_)
      have hword := hrest.word (by rw [sqlVariable_kind h]; rfl)
      have hpoint : peek rest ≠ '.' := by
        intro heq
        refine hrest.inert.plain ?_
        rw [heq]
        decide
      simp [hword, hpoint]
  | nationalString =>
      obtain ⟨cs, rfl⟩ : ∃ tail, cs = '\x27' :: tail := by
        cases cs with
        | nil => cases hnational rfl
        | cons c tail => exact ⟨tail, congrArg (· :: tail) (hnational rfl)⟩
      exact nationalString_parted rfl h hrest.inert
  | name => exact name_parted h htext hrest hby
  | hexadecimal => exact hexadecimal_exact h (head?_of_peek hrest.inert.hexDigit)
  | number => exact number_parted h htext hrest
  | string => exact string_parted (hstring rfl).1 h hrest.inert
  | operator => exact operator_parted h hrest.isMark

/-- Reading a token in front of a gap gives the same token. What stands in front of the
token matters as far as an operand ends there; no word may touch the token. -/
theorem read_parted {b b' : Before} {cs : List Char} (h : read d b cs = .ok l)
    (hends : b'.endsOperand = b.endsOperand) (htouches : b'.touchesWord = false)
    (hrest : l.Parts rest) (hby : wordKind d l.text rest = wordKind d l.text l.rest) :
    read d b' (l.text ++ rest) = .ok { l with rest } := by
  have hsplit := read_splits d b h
  obtain ⟨c, tail, htext⟩ := List.exists_cons_of_ne_nil hsplit.nonempty
  have hcs : cs = c :: (tail ++ l.rest) := by
    rw [← hsplit.whole, htext]
    rfl
  have hlong : 1 < l.text.length → peek (tail ++ rest) = peek (tail ++ l.rest) := by
    intro hlength
    have hsecond : peek ((l.text ++ rest).drop 1) = peek ((l.text ++ l.rest).drop 1) :=
      peek_drop_of_lt hlength rest
    rw [htext] at hsecond
    exact hsecond
  -- A second character that is a quote or an `x` belongs to the token.
  have hplain : ∀ {x}, x ∈ ['.', 'e', 'E', 'x', 'X', '@', '\x27', '\x22', '\x60', ']'] →
      peek (tail ++ rest) = x → peek (tail ++ rest) = peek (tail ++ l.rest) := by
    intro x hx heq
    cases tail with
    | nil => exact absurd (heq ▸ hx) hrest.inert.plain
    | cons y tail => rfl
  have hpeek : ∀ rest, peek (l.text ++ rest) = c ∧
      peek ((l.text ++ rest).drop 1) = peek (tail ++ rest) := by
    intro rest
    rw [htext]
    exact ⟨rfl, rfl⟩
  have hwhole := hsplit.whole
  obtain ⟨f, hform, h⟩ := exists_form_of_read h
  rw [← hwhole, (hpeek _).1, (hpeek _).2] at hform
  rw [← hwhole] at h
  obtain ⟨hnumber, hother, hstring, -⟩ := formOf_spec hform
  have hsame : formOf d c (peek (tail ++ rest)) (startsNumber b' (l.text ++ rest)) = some f := by
    refine formOf_parted hform (hplain (by decide)) ?_ (fun hf => hlong (length_of_split h hf))
      ?_ ?_
    · rintro (hx | hx)
      · exact hplain (by decide) hx
      · exact hplain (by decide) hx
    · rintro rfl
      exact startsNumber_parted h (hnumber rfl) rfl hsplit.nonempty hends htouches rest
    · rintro (rfl | rfl)
      · exact startsNumber_operator h (hother (.inl rfl)) hrest.inert
      · obtain ⟨-, hdigit, hpoint, hminus⟩ := hstring rfl
        simp [startsNumber, htext, peek, hdigit, hpoint, hminus]
  rw [← (hpeek rest).1, ← (hpeek rest).2] at hsame
  rw [read_of_formOf hsame]
  refine split_parted hform ?_ hsplit.nonempty hrest hby
  rw [← hcs, ← hwhole]
  exact h

/-! ### The word `BY` -/

/-- The kind of a word is that of the word in front of another text, if it is the same
whether `BY` comes next. -/
theorem wordKind_congr {text behind : List Char}
    (h : d.keyword? text = some .GROUP ∨ d.keyword? text = some .ORDER →
      beforeBy rest = beforeBy behind) : wordKind d text rest = wordKind d text behind := by
  unfold wordKind
  split
  · rename_i hgroup
    rw [h (.inl hgroup)]
  · rename_i horder
    rw [h (.inr horder)]
  · rfl
  · rfl

/-- A keyword is an unquoted word. -/
theorem word_of_keyword {b : Before} {cs : List Char} {k : Keyword} (h : read d b cs = .ok l)
    (hkind : l.kind = .keyword k) : l = word d cs ∧ d.keyword? l.text = some k := by
  obtain ⟨hname, -⟩ := name_of_read h (by rw [hkind]; rfl)
  have hword : l = word d cs := by
    unfold name at hname
    split at hname
    · cases hname
      rfl
    · split at hname
      · split at hname <;> cases hname
        cases hkind
      · cases hname
        rfl
  refine ⟨hword, ?_⟩
  have hkind : wordKind d l.text l.rest = .keyword k := by
    rw [← hkind, hword]
    rfl
  unfold wordKind at hkind
  split at hkind
  · split at hkind <;> cases hkind
    assumption
  · split at hkind <;> cases hkind
    assumption
  · cases hkind
    assumption
  · cases hkind

/-- The keyword `BY` is spelt with two letters. -/
theorem letters_of_by {text : List Char} (h : d.keyword? text = some .BY) :
    ∃ x y, text = [x, y] ∧ x.toLower = 'b' ∧ y.toLower = 'y' := by
  have hupper : text.map Char.toUpper = ['B', 'Y'] := by
    have hspelled := List.find?_some h
    rw [beq_iff_eq] at hspelled
    exact hspelled.symm
  obtain ⟨x, tail, htext, hx, htail⟩ := List.map_eq_cons_iff.1 hupper
  obtain ⟨y, rest, rfl, hy, hrest⟩ := List.map_eq_cons_iff.1 htail
  obtain rfl := List.map_eq_nil_iff.1 hrest
  refine ⟨x, y, htext, ?_, ?_⟩
  · rw [← toLower_toUpper, hx]
    rfl
  · rw [← toLower_toUpper, hy]
    rfl

/-- Behind the keyword `BY`, no word goes on. -/
theorem beforeBy_of_read {b : Before} {cs spaces : List Char} (h : read d b cs = .ok l)
    (hkind : l.kind = .keyword .BY) (hspaces : ∀ c ∈ spaces, isSpace c = true) :
    beforeBy (spaces ++ (l.text ++ l.rest)) = true := by
  obtain ⟨hword, hkeyword⟩ := word_of_keyword h hkind
  obtain ⟨x, y, htext, hx, hy⟩ := letters_of_by hkeyword
  refine beforeBy_iff.2 ⟨spaces, x, y, l.rest, by rw [htext]; rfl, hspaces, hx, hy, ?_⟩
  have hend := List.head?_dropWhile_not isWordChar cs
  rw [show l.rest = cs.dropWhile isWordChar by rw [hword]; rfl]
  cases hbehind : cs.dropWhile isWordChar with
  | nil => rfl
  | cons c behind =>
      rw [hbehind] at hend
      simpa [peek] using hend

/-! ### Comments -/

/-- A token in front of a gap does not start a comment. -/
theorem Parts.bare (hrest : l.Parts rest) (htext : l.text ≠ [])
    (h : Gap.Bare d (l.text ++ l.rest)) : Gap.Bare d (l.text ++ rest) := by
  obtain ⟨a, tail, ha⟩ := List.exists_cons_of_ne_nil htext
  rw [ha] at h ⊢
  refine ⟨h.space, ?_⟩
  have hcomment := h.comment
  cases tail with
  | cons b tail => exact hcomment
  | nil =>
      have hhash : (a == '#' && d.features.hashComments) = false := by
        cases hbehind : l.rest with
        | nil =>
            rw [hbehind] at hcomment
            exact hcomment
        | cons b behind =>
            rw [hbehind] at hcomment
            exact (Bool.or_eq_false_iff.1 hcomment).2
      cases rest with
      | nil => exact hhash
      | cons c rest =>
          obtain ⟨hmark, habsorbs⟩ := hrest c rfl
          have hstar : c ≠ '*' := by
            rintro rfl
            cases hmark
          simp only [Kind.absorbs, ha, Bool.or_eq_false_iff, Bool.and_eq_false_iff, beq_eq_false_iff_ne,
            ne_eq, List.cons.injEq, and_true] at habsorbs
          simp only [List.singleton_append, Gap.startsComment, hhash, Bool.or_false,
            Bool.or_eq_false_iff, Bool.and_eq_false_iff, beq_eq_false_iff_ne, ne_eq]
          exact ⟨⟨habsorbs.1.1.symm, habsorbs.1.2.symm⟩, .inr hstar⟩

end Lexeme

end SqlMarkers
