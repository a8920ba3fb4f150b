/-
SqlMarkers.Proofs.Parting — texts that a token does not reach into.

A text parts from the token in front of it if it is empty or starts with a blank, a
closing parenthesis or a comma (`Text.parts`). No form of token goes on with one of
these characters, so a token that is read at the front of a text is read in the same
way when such a text is put behind it (`Lexeme.read_extend`). The one reader that looks
over blanks asks for the word `BY`; a text that starts with it does not part.
-/
import SqlMarkers.Proofs.Spacing

namespace SqlMarkers

open CharClass

/-! ## Texts that part -/

/-- The text starts behind the token in front of it, whatever the token is. -/
def Text.parts : List Char → Bool
  | [] => true
  | c :: cs => c == ')' || c == ',' || (c == ' ' && !Lexeme.beforeBy cs)

namespace Lexeme

variable {behind : List Char}

/-- A text that parts is empty or starts with one of three characters. -/
theorem head_of_parts (h : Text.parts behind = true) :
    ∀ c ∈ behind.head?, c = ')' ∨ c = ',' ∨ c = ' ' := by
  intro c hc
  cases behind with
  | nil => cases hc
  | cons c' cs =>
      obtain rfl : c' = c := by simpa using hc
      simp only [Text.parts, Bool.or_eq_true, Bool.and_eq_true, beq_iff_eq] at h
      rcases h with (h | h) | h
      · exact .inl h
      · exact .inr (.inl h)
      · exact .inr (.inr h.1)

/-- What holds of the end of the input and of the three characters holds of the first
character of a text that parts. -/
theorem peek_of_parts (h : Text.parts behind = true) {p : Char → Prop} (hend : p endMark)
    (hparen : p ')') (hcomma : p ',') (hblank : p ' ') : p (peek behind) := by
  cases behind with
  | nil => exact hend
  | cons c cs =>
      show p c
      rcases head_of_parts h c rfl with rfl | rfl | rfl
      · exact hparen
      · exact hcomma
      · exact hblank

/-- A first character that is looked for is not that of a text that parts, unless it is
one of the three. -/
theorem peek_append (h : Text.parts behind = true) {p : Char → Bool} (hend : p endMark = false)
    (hparen : p ')' = false) (hcomma : p ',' = false) (hblank : p ' ' = false) (cs : List Char) :
    p (peek (cs ++ behind)) = p (peek cs) := by
  cases cs with
  | cons c cs => rfl
  | nil =>
      rw [List.nil_append]
      exact (peek_of_parts h (p := fun c => p c = false) hend hparen hcomma hblank).trans hend.symm

/-- A run of characters ends in front of a text that parts. -/
theorem takeWhile_extend (h : Text.parts behind = true) {p : Char → Bool}
    (hparen : p ')' = false) (hcomma : p ',' = false) (hblank : p ' ' = false) (cs : List Char) :
    (cs ++ behind).takeWhile p = cs.takeWhile p ∧
      (cs ++ behind).dropWhile p = cs.dropWhile p ++ behind := by
  have hhead : ∀ c ∈ behind.head?, p c = false := by
    intro c hc
    rcases head_of_parts h c hc with rfl | rfl | rfl
    · exact hparen
    · exact hcomma
    · exact hblank
  induction cs with
  | nil =>
      exact takeWhile_exact (by simp) hhead
  | cons c cs ih =>
      rw [List.cons_append, List.takeWhile_cons, List.dropWhile_cons, List.takeWhile_cons,
        List.dropWhile_cons, ih.1, ih.2]
      split <;> exact ⟨rfl, rfl⟩

theorem beforeBy_of_parts (h : Text.parts behind = true) : beforeBy behind = false := by
  cases behind with
  | nil => rfl
  | cons c cs =>
      simp only [Text.parts, Bool.or_eq_true, Bool.and_eq_true, beq_iff_eq,
        Bool.not_eq_true'] at h
      rcases h with (rfl | rfl) | ⟨rfl, hby⟩
      · cases cs <;> rfl
      · cases cs <;> rfl
      · rw [← hby, beforeBy, List.dropWhile_cons_of_pos (by decide), ← beforeBy]

/-- The word `BY` does not come up by putting a text that parts behind another one. -/
theorem beforeBy_extend (h : Text.parts behind = true) (cs : List Char) :
    beforeBy (cs ++ behind) = beforeBy cs := by
  induction cs with
  | nil => exact beforeBy_of_parts h
  | cons c cs ih =>
      by_cases hspace : isSpace c = true
      · rw [List.cons_append, beforeBy, List.dropWhile_cons_of_pos hspace, ← beforeBy, ih, beforeBy,
          beforeBy, List.dropWhile_cons_of_pos hspace]
      · rw [List.cons_append, beforeBy, List.dropWhile_cons_of_neg hspace, beforeBy,
          List.dropWhile_cons_of_neg hspace]
        cases cs with
        | nil =>
            cases behind with
            | nil => rfl
            | cons y rest =>
                rcases head_of_parts h y rfl with rfl | rfl | rfl <;> simp
        | cons y cs =>
            cases cs with
            | nil =>
                have hend := peek_append h (p := isWordChar) rfl rfl rfl rfl []
                rw [List.nil_append] at hend
                simp only [List.singleton_append, hend]
            | cons z cs => rfl

/-! ## Readers -/

/-- A reader of lexemes that reads the same token when a text that parts is put behind
its text. -/
def Extending (read : List Char → Except Slip Lexeme) : Prop :=
  ∀ {cs l behind}, read cs = .ok l → Text.parts behind = true →
    read (cs ++ behind) = .ok { l with rest := l.rest ++ behind }

theorem close?_extend {quote : Char} {escapes : Bool} {cs body rest : List Char}
    (hquote : isQuote quote = true) (h : close? quote escapes cs = some (body, rest))
    (hbehind : Text.parts behind = true) :
    close? quote escapes (cs ++ behind) = some (body, rest ++ behind) := by
  obtain ⟨inner, rfl, hclose, htail⟩ := close?_cut h
  have hwhole := append_of_close? h
  have hplain : ∀ c, c = ')' ∨ c = ',' ∨ c = ' ' → c ≠ quote := by
    rintro _ (rfl | rfl | rfl) rfl <;> cases hquote
  have hlast : close? quote escapes (quote :: (rest ++ behind)) = some ([quote], rest ++ behind) := by
    cases rest with
    | cons c rest => exact close?_quote hclose rfl
    | nil =>
        cases behind with
        | nil => exact hclose
        | cons c behind =>
            have hc := hplain c (head_of_parts hbehind c rfl)
            have hslash : quote ≠ '\\' := by
              rintro rfl
              cases hquote
            rw [List.nil_append, close?]
            simp [hslash, hc]
  rw [← hwhole, List.append_assoc, List.append_assoc, htail, List.singleton_append, hlast]
  rfl

theorem string_extend (d : Dialect) {c : Char} {cs : List Char} {l : Lexeme}
    (hquote : isQuote c = true) (h : string d (c :: cs) = .ok l)
    (hbehind : Text.parts behind = true) :
    string d (c :: cs ++ behind) = .ok { l with rest := l.rest ++ behind } := by
  rw [string] at h
  split at h
  · rename_i body rest hclose
    cases h
    rw [List.cons_append, string, close?_extend hquote hclose hbehind]
  · cases h

theorem nationalString_extend (d : Dialect) {c q : Char} {cs : List Char} {l : Lexeme}
    (hquote : isQuote q = true) (h : nationalString d (c :: q :: cs) = .ok l)
    (hbehind : Text.parts behind = true) :
    nationalString d (c :: q :: cs ++ behind) = .ok { l with rest := l.rest ++ behind } := by
  rw [nationalString] at h
  split at h
  · rename_i l' hstring
    cases h
    rw [List.cons_append, nationalString, string_extend d hquote hstring hbehind]
  · cases h

theorem wordKind_extend (d : Dialect) (word rest : List Char) (h : Text.parts behind = true) :
    wordKind d word (rest ++ behind) = wordKind d word rest := by
  rw [wordKind, beforeBy_extend h, wordKind]

theorem name_extend (d : Dialect) : Extending (name d) := by
  intro cs l behind h hbehind
  have hword : ∀ cs, word d (cs ++ behind) = { word d cs with rest := (word d cs).rest ++ behind } := by
    intro cs
    have hrun := takeWhile_extend hbehind (p := isWordChar) rfl rfl rfl cs
    rw [word, hrun.1, hrun.2, wordKind_extend d _ _ hbehind]
    rfl
  cases cs with
  | nil =>
      cases h
      cases behind with
      | nil => rfl
      | cons c behind =>
          have hc := head_of_parts hbehind c rfl
          have hplain : ¬(c == '\x60' || (c == '[' && d.features.bracketNames)) = true := by
            rcases hc with rfl | rfl | rfl <;> simp
          rw [List.nil_append, name, if_neg hplain]
          exact congrArg Except.ok (hword [])
  | cons c cs =>
      rw [name] at h
      split at h
      · rename_i hquoted
        have hquote : isQuote (if c == '[' then ']' else c) = true := by
          by_cases hbracket : c = '['
          · rw [hbracket]
            rfl
          · have hmark : c = '\x60' := by simpa [hbracket] using hquoted
            rw [hmark]
            rfl
        split at h
        · rename_i body rest hclose
          cases h
          rw [List.cons_append, name, if_pos hquoted, close?_extend hquote hclose hbehind]
        · cases h
      · rename_i hplain
        cases h
        rw [List.cons_append, name, if_neg hplain]
        exact congrArg Except.ok (hword (c :: cs))

/-- An optional mark in front of a text is there or not, whatever parts from the text. -/
theorem drop_mark {mark : Char} {cs marks : List Char} (hmark : mark ≠ endMark)
    (hmarks : marks = if peek cs == mark then [mark] else []) (behind : List Char) :
    (cs ++ behind).drop marks.length = cs.drop marks.length ++ behind := by
  subst hmarks
  split
  · rename_i hpeek
    cases cs with
    | nil => exact absurd (beq_iff_eq.1 hpeek).symm hmark
    | cons c cs => rfl
  · rfl

theorem sqlVariable_extend : Extending sqlVariable := by
  intro cs l behind h hbehind
  unfold sqlVariable at h
  split at h
  · cases h
  · rename_i c cs
    extract_lets marks tail named body at h
    split at h
    · cases h
    · rename_i hbody
      cases h
      have hpeek : (peek (cs ++ behind) == '@') = (peek cs == '@') :=
        peek_append hbehind (p := (· == '@')) rfl rfl rfl rfl cs
      have hmarks : (if peek cs == '@' then ['@'] else []) = marks := rfl
      have hdrop : (cs ++ behind).drop marks.length = tail ++ behind :=
        drop_mark (by decide) rfl behind
      have hrun := takeWhile_extend hbehind (p := named) rfl rfl rfl tail
      simp only [List.cons_append, sqlVariable, hpeek, hmarks, hdrop]
      change (if ((tail ++ behind).takeWhile named).isEmpty then _
        else Except.ok (Lexeme.mk _ (c :: (marks ++ (tail ++ behind).takeWhile named))
          ((tail ++ behind).dropWhile named))) = _
      rw [hrun.1, hrun.2, if_neg hbody]

theorem hexadecimal_extend {c x : Char} {cs : List Char} {l : Lexeme}
    (h : hexadecimal (c :: x :: cs) = .ok l) (hbehind : Text.parts behind = true) :
    hexadecimal (c :: x :: cs ++ behind) = .ok { l with rest := l.rest ++ behind } := by
  unfold hexadecimal at h
  extract_lets tail sign digitsOn digits at h
  have htail : tail = cs := rfl
  split at h
  · cases h
  · rename_i hdigits
    split at h
    · cases h
    · rename_i hvalue
      cases h
      have hpeek : (peek (tail ++ behind) == '-') = (peek tail == '-') :=
        peek_append hbehind (p := (· == '-')) rfl rfl rfl rfl tail
      have hsign : (if peek tail == '-' then ['-'] else []) = sign := rfl
      have hdrop : (tail ++ behind).drop sign.length = digitsOn ++ behind :=
        drop_mark (by decide) rfl behind
      have hrun := takeWhile_extend hbehind (p := isHexDigit) rfl rfl rfl digitsOn
      unfold hexadecimal
      rw [show (c :: x :: cs ++ behind).drop 2 = tail ++ behind from rfl]
      simp only [hpeek, hsign, hdrop, hrun.1, hrun.2]
      rw [show digitsOn.takeWhile isHexDigit = digits from rfl, if_neg hdigits, if_neg hvalue]
      rfl

/-! ### Numbers -/

theorem fraction_extend (h : Text.parts behind = true) (cs : List Char) :
    fraction (cs ++ behind) = fraction cs := by
  cases cs with
  | nil =>
      cases behind with
      | nil => rfl
      | cons c behind =>
          rw [List.nil_append, fraction_cons, if_neg]
          · rfl
          · rcases head_of_parts h c rfl with rfl | rfl | rfl <;> decide
  | cons c cs =>
      rw [List.cons_append, fraction_cons, fraction_cons,
        peek_append h (p := (· == '.')) rfl rfl rfl rfl cs,
        (takeWhile_extend h (p := isDigit) rfl rfl rfl cs).1]

theorem exponent_extend (h : Text.parts behind = true) (cs : List Char) :
    exponent (cs ++ behind) = exponent cs := by
  cases cs with
  | nil =>
      cases behind with
      | nil => rfl
      | cons c behind =>
          rcases head_of_parts h c rfl with rfl | rfl | rfl <;> rfl
  | cons e cs =>
      cases cs with
      | nil =>
          have hnone : ∀ rest, Text.parts rest = true →
              (let sign := if peek rest == '+' || peek rest == '-' then [peek rest] else []
               ((rest.drop sign.length).takeWhile isDigit).isEmpty) = true := by
            intro rest hrest
            have hsign : (peek rest == '+' || peek rest == '-') = false :=
              peek_append hrest (p := fun c => c == '+' || c == '-') rfl rfl rfl rfl []
            have hrun := takeWhile_extend hrest (p := isDigit) rfl rfl rfl []
            simp only [List.nil_append] at hrun
            simp [hsign, hrun.1]
          have hrest := hnone behind h
          simp only [List.singleton_append, exponent] at hrest ⊢
          rw [if_pos hrest]
          simp
      | cons s cs =>
          have hrun : ∀ cs, ((cs ++ behind).takeWhile isDigit) = cs.takeWhile isDigit := fun cs =>
            (takeWhile_extend h (p := isDigit) rfl rfl rfl cs).1
          have hpeek : peek (s :: cs ++ behind) = peek (s :: cs) := rfl
          simp only [List.cons_append, exponent] at hpeek ⊢
          rw [hpeek]
          split
          · by_cases hsign : (peek (s :: cs) == '+' || peek (s :: cs) == '-') = true
            · simp only [if_pos hsign, List.length_singleton, List.drop_one, List.tail_cons, hrun]
            · simp only [if_neg hsign, List.length_nil, List.drop_zero]
              rw [← List.cons_append, hrun]
          · rfl

theorem suffix_extend (h : Text.parts behind = true) (cs : List Char) :
    suffix (cs ++ behind) = suffix cs := by
  cases cs with
  | nil =>
      cases behind with
      | nil => rfl
      | cons c behind =>
          rcases head_of_parts h c rfl with rfl | rfl | rfl <;> rfl
  | cons c cs =>
      rw [List.cons_append, suffix, suffix, peek_append h (p := isWordChar) rfl rfl rfl rfl cs]

/-- What is left behind a leading part is left of the longer text, too. -/
theorem drop_of_leads {front cs : List Char} (h : front <+: cs) (behind : List Char) :
    (cs ++ behind).drop front.length = cs.drop front.length ++ behind := by
  obtain ⟨rest, rfl⟩ := h
  rw [List.append_assoc, List.drop_left, List.drop_left]

theorem number_extend : Extending number := by
  intro cs l behind h hbehind
  unfold number at h
  extract_lets sign cs₁ whole cs₂ frac cs₃ expo cs₄ suff cs₅ text at h
  have hpeek : (peek (cs ++ behind) == '-') = (peek cs == '-') :=
    peek_append hbehind (p := (· == '-')) rfl rfl rfl rfl cs
  have hsigned : (if peek cs == '-' then ['-'] else []) = sign := rfl
  have h₁ : (cs ++ behind).drop sign.length = cs₁ ++ behind := drop_mark (by decide) rfl behind
  have hrun : (cs₁ ++ behind).takeWhile isDigit = whole ∧
      (cs₁ ++ behind).dropWhile isDigit = cs₂ ++ behind :=
    takeWhile_extend hbehind rfl rfl rfl cs₁
  have hfrac : fraction (cs₂ ++ behind) = frac := fraction_extend hbehind cs₂
  have h₃ : (cs₂ ++ behind).drop frac.length = cs₃ ++ behind := drop_of_leads (fraction_leads cs₂) _
  have hexpo : exponent (cs₃ ++ behind) = expo := exponent_extend hbehind cs₃
  have h₄ : (cs₃ ++ behind).drop expo.length = cs₄ ++ behind := drop_of_leads (exponent_leads cs₃) _
  have hsuff : suffix (cs₄ ++ behind) = suff := suffix_extend hbehind cs₄
  have h₅ : (cs₄ ++ behind).drop suff.length = cs₅ ++ behind := drop_of_leads (suffix_leads cs₄) _
  have htext : sign ++ whole ++ frac ++ expo ++ suff = text := rfl
  simp only [number, hpeek, hsigned, h₁, hrun.1, hrun.2, hfrac, h₃, hexpo, h₄, hsuff, h₅, htext]
  split at h
  · rename_i hinteger
    rw [if_pos hinteger]
    split at h
    · cases h
    · rename_i hvalue
      cases h
      rw [if_neg hvalue]
  · rename_i hfloat
    cases h
    rw [if_neg hfloat]

/-! ### Operators -/

/-- No symbol goes on with a character that parts texts. -/
theorem Symbol.parts_of_mem_tail (s : Symbol) :
    ∀ c ∈ s.spelling.toList.tail, ¬(c = ')' ∨ c = ',' ∨ c = ' ') := by
  have hall : s.spelling.toList.tail.all (fun c => !(c == ')' || c == ',' || c == ' ')) = true := by
    cases s <;> decide
  simpa [and_assoc] using hall

theorem find?_extend {cs : List Char} {n : Nat} (hcs : cs ≠ []) (hn : cs.length < n)
    (hbehind : Text.parts behind = true) (hne : behind ≠ []) :
    Symbol.find? ((cs ++ behind).take n) = none := by
  cases hfind : Symbol.find? ((cs ++ behind).take n) with
  | none => rfl
  | some s =>
      have hs := List.find?_some hfind
      rw [beq_iff_eq] at hs
      obtain ⟨c, cs, rfl⟩ := List.exists_cons_of_ne_nil hcs
      obtain ⟨x, behind, rfl⟩ := List.exists_cons_of_ne_nil hne
      have hmem : x ∈ s.spelling.toList.tail := by
        obtain ⟨k, rfl⟩ : ∃ k, n = (c :: cs).length + (k + 1) := ⟨n - (c :: cs).length - 1, by omega⟩
        rw [hs, List.take_append, List.take_of_length_le (by omega)]
        simp
      exact absurd (head_of_parts hbehind x rfl) (Symbol.parts_of_mem_tail s x hmem)

theorem operatorWithin_extend (cs : List Char) (hcs : cs ≠ []) (n : Nat) {l : Lexeme}
    (h : operatorWithin cs n = .ok l) (hbehind : Text.parts behind = true) :
    operatorWithin (cs ++ behind) n = .ok { l with rest := l.rest ++ behind } := by
  by_cases hne : behind = []
  · rw [hne, List.append_nil, List.append_nil]
    exact h
  · induction n with
    | zero => cases h
    | succ n ih =>
        by_cases hlength : n + 1 ≤ cs.length
        · rw [operatorWithin] at h ⊢
          rw [List.take_append_of_le_length hlength, List.drop_append_of_le_length hlength]
          split at h
          · cases h
            rfl
          · exact ih h
        · -- The whole of `cs` is a symbol, or none of it is; the longer text only delays this.
          have hshort : cs.length ≤ n := by omega
          have hsame : operatorWithin cs (n + 1) = operatorWithin cs n := by
            have hpos := List.length_pos_iff.2 hcs
            obtain ⟨m, rfl⟩ : ∃ m, n = m + 1 := ⟨n - 1, by omega⟩
            rw [operatorWithin, List.take_of_length_le (by omega), List.drop_of_length_le (by omega)]
            split
            · rename_i s hfind
              rw [operatorWithin, List.take_of_length_le hshort, List.drop_of_length_le hshort, hfind]
            · rfl
          rw [operatorWithin, find?_extend hcs (by omega) hbehind hne]
          exact ih (hsame ▸ h)

/-! ### Which form comes next -/

theorem startsNumber_extend (b : Before) {cs : List Char} (hcs : cs ≠ [])
    (hbehind : Text.parts behind = true) :
    startsNumber b (cs ++ behind) = startsNumber b cs := by
  obtain ⟨c, cs, rfl⟩ := List.exists_cons_of_ne_nil hcs
  have hdigit := peek_append hbehind (p := isDigit) rfl rfl rfl rfl
  have hpoint := peek_append hbehind (p := (· == '.')) rfl rfl rfl rfl
  cases cs with
  | nil =>
      have hfirst : isDigit (peek behind) = false := hdigit []
      have hsecond : (peek behind == '.') = false := hpoint []
      simp only [startsNumber, List.drop_zero, List.drop_succ_cons, List.cons_append,
        List.nil_append, hfirst, hsecond]
      rfl
  | cons c' cs =>
      have hdigit := hdigit cs
      simp only [startsNumber, List.drop_zero, List.drop_succ_cons, List.cons_append]
      rw [hdigit]
      rfl

theorem formOf_extend (d : Dialect) {cs : List Char} (hcs : cs ≠ []) (number : Bool)
    (hbehind : Text.parts behind = true) :
    formOf d (peek (cs ++ behind)) (peek ((cs ++ behind).drop 1)) number =
      formOf d (peek cs) (peek (cs.drop 1)) number := by
  obtain ⟨c, cs, rfl⟩ := List.exists_cons_of_ne_nil hcs
  have hquote := peek_append hbehind (p := (· == '\x27')) rfl rfl rfl rfl cs
  have hmark := peek_append hbehind (p := (· == 'x')) rfl rfl rfl rfl cs
  have hmark' := peek_append hbehind (p := (· == 'X')) rfl rfl rfl rfl cs
  simp only [List.cons_append, List.drop_succ_cons, List.drop_zero, formOf, hquote, hmark, hmark']
  rfl

/-- The first characters of national strings, hexadecimal integers and strings. -/
theorem first_of_formOf {d : Dialect} {first second : Char} {number : Bool} {f : Form}
    (h : formOf d first second number = some f) :
    (f = .nationalString → second = '\x27') ∧
      (f = .hexadecimal → ∃ x, second = x ∧ x ≠ endMark) ∧
      (f = .string → isQuote first = true) := by
  unfold formOf at h
  split_ifs at h with h₁ h₂ h₃ h₄ h₅ h₆ h₇ <;> cases h <;>
    simp only [reduceCtorEq, false_implies, true_and, and_true, true_implies]
  · simp only [Bool.and_eq_true, beq_iff_eq] at h₂
    exact h₂.2
  · refine ⟨second, rfl, ?_⟩
    simp only [Bool.and_eq_true, Bool.or_eq_true, beq_iff_eq] at h₄
    rcases h₄.2 with rfl | rfl <;> decide
  · rw [isQuote, h₇]
    rfl

/-- A token is read alike when a text that parts is put behind. -/
theorem read_extend (d : Dialect) (b : Before) : Extending (read d b) := by
  intro cs l behind h hbehind
  have hsplit := read_splits d b h
  have hcs : cs ≠ [] := by
    rw [← hsplit.whole]
    simp [hsplit.nonempty]
  rw [read_eq] at h ⊢
  rw [formOf_extend d hcs _ hbehind, startsNumber_extend b hcs hbehind]
  revert h
  generalize hform : formOf d (peek cs) (peek (cs.drop 1)) (startsNumber b cs) = form
  intro h
  cases form with
  | none => cases h
  | some f =>
      obtain ⟨c, cs, rfl⟩ := List.exists_cons_of_ne_nil hcs
      obtain ⟨hnational, hhex, hstring⟩ := first_of_formOf hform
      cases f with
      | sqlVariable =>
          have h : sqlVariable (c :: cs) = .ok l := h
          exact sqlVariable_extend h hbehind
      | name =>
          have h : name d (c :: cs) = .ok l := h
          exact name_extend d h hbehind
      | number =>
          have h : number (c :: cs) = .ok l := h
          exact number_extend h hbehind
      | operator => exact operatorWithin_extend _ hcs _ h hbehind
      | string => exact string_extend d (hstring rfl) h hbehind
      | nationalString =>
          obtain ⟨cs, rfl⟩ := cons_of_peek (by decide) (hnational rfl)
          exact nationalString_extend d rfl h hbehind
      | hexadecimal =>
          obtain ⟨x, hx, hne⟩ := hhex rfl
          obtain ⟨cs, rfl⟩ := cons_of_peek hne hx
          exact hexadecimal_extend h hbehind

end Lexeme

end SqlMarkers
