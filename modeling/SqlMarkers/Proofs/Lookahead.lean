/-
SqlMarkers.Proofs.Lookahead — how far a reader looks behind the token it reads.

What a lexeme is depends on the text behind it, but only a little: on whether a
word goes on, on the second point after a number, on a digit behind an exponent
mark, on the next two characters of a symbol. `Akin` names texts that no reader
can tell apart behind a token. Two such texts agree up to a first difference,
and the difference stands behind the last character of a word, which goes on with
a `_` in the second text only, or inside a quoted name.

Each reader that read a token in front of a text reads it in front of any akin
text (`Regrafting`), as each of them splits its text (`Splitting`). The kind
of a word may depend on the word `BY` behind it as well (`Lexeme.beforeBy`), so
`Lexeme.read_regraft` asks that the two texts agree on this.
-/
import Mathlib.Data.List.TakeWhile
import SqlMarkers.Lexeme.Form
import SqlMarkers.Proofs.Layout
import SqlMarkers.Proofs.Letters

namespace SqlMarkers

open CharClass

/-! ## Texts that start alike -/

/-- The second text is the first one up to its end, up to the end of a word that
goes on with a `_`, or up to the mark that opens a quoted name. -/
inductive Akin : List Char → List Char → Prop
  | nil : Akin [] []
  | cons (c : Char) {cs cs' : List Char} : Akin cs cs' → Akin (c :: cs) (c :: cs')
  | seam {c : Char} {cs : List Char} (cs' : List Char) :
      isWordChar c = true → isWordChar (peek cs) = false → Akin (c :: cs) (c :: '_' :: cs')
  | quote {c : Char} (cs cs' : List Char) : c = '\x60' ∨ c = '[' → Akin (c :: cs) (c :: cs')

namespace Akin

variable {c c' : Char} {cs cs' : List Char}

theorem refl (cs : List Char) : Akin cs cs := by
  induction cs with
  | nil => exact .nil
  | cons c cs ih => exact .cons c ih

theorem append (front : List Char) (h : Akin cs cs') : Akin (front ++ cs) (front ++ cs') := by
  induction front with
  | nil => exact h
  | cons c front ih => exact .cons c ih

theorem head?_eq (h : Akin cs cs') : cs'.head? = cs.head? := by
  cases h <;> rfl

theorem peek_eq (h : Akin cs cs') : peek cs' = peek cs := by
  cases h <;> rfl

/-- Behind a character that is neither part of a word nor the mark of a name, akin texts
are still akin. -/
theorem drop_one (h : Akin cs cs') (hword : isWordChar (peek cs) = false)
    (hquote : ¬(peek cs = '\x60' ∨ peek cs = '[')) : Akin (cs.drop 1) (cs'.drop 1) := by
  cases h with
  | nil => exact .nil
  | cons _ h => exact h
  | seam _ hc _ => cases hc.symm.trans hword
  | quote _ _ hc => exact absurd hc hquote

/-- A run of characters of words other than `_` is the same in akin texts. -/
theorem takeWhile_eq {p : Char → Bool} (hp : ∀ c, p c = true → isWordChar c = true)
    (hline : p '_' = false) (h : Akin cs cs') : cs'.takeWhile p = cs.takeWhile p := by
  have hstop : ∀ cs : List Char, isWordChar (peek cs) = false → cs.takeWhile p = [] := by
    intro cs hend
    cases cs with
    | nil => rfl
    | cons c cs =>
        rw [List.takeWhile_cons_of_neg]
        intro hc
        have hword := hp c hc
        rw [show isWordChar c = false from hend] at hword
        cases hword
  induction h with
  | nil => rfl
  | cons c _ ih => rw [List.takeWhile_cons, List.takeWhile_cons, ih]
  | seam cs' _ hend =>
      simp [List.takeWhile_cons, hline, hstop _ hend]
  | quote cs cs' hc =>
      rw [hstop, hstop] <;> rcases hc with rfl | rfl <;> rfl

end Akin

/-! ## Readers -/

/-- A run ends in front of a text that does not go on with it. -/
theorem takeWhile_exact {p : Char → Bool} {run rest : List Char} (hall : ∀ c ∈ run, p c = true)
    (hend : ∀ c ∈ rest.head?, p c = false) :
    (run ++ rest).takeWhile p = run ∧ (run ++ rest).dropWhile p = rest := by
  have hstop : rest.takeWhile p = [] ∧ rest.dropWhile p = rest := by
    cases rest with
    | nil => exact ⟨rfl, rfl⟩
    | cons c rest => simp [hend c rfl]
  rw [List.takeWhile_append_of_pos hall, List.dropWhile_append_of_pos hall, hstop.1, hstop.2,
    List.append_nil]
  exact ⟨rfl, rfl⟩

/-- A run ends in front of a text if it ends in front of another one that starts with
the same character. -/
theorem takeWhile_regraft {p : Char → Bool} {run behind rest : List Char}
    (h : (run ++ behind).takeWhile p = run) (hhead : rest.head? = behind.head?) :
    (run ++ rest).takeWhile p = run ∧ (run ++ rest).dropWhile p = rest := by
  have hall : ∀ c ∈ run, p c = true := by
    intro c hc
    rw [← h] at hc
    exact List.mem_takeWhile_imp hc
  rw [List.takeWhile_append_of_pos hall] at h
  have hbehind : behind.takeWhile p = [] := List.append_right_eq_self.1 h
  refine takeWhile_exact hall ?_
  rw [hhead]
  intro c hc
  cases behind with
  | nil => cases hc
  | cons c' behind =>
      obtain rfl : c' = c := by simpa using hc
      simpa using hbehind

namespace Lexeme

/-- A reader of lexemes that reads a token from the text of the token and anything akin to
what stood behind it. -/
def Regrafting (read : List Char → Except Slip Lexeme) : Prop :=
  ∀ {cs l rest}, read cs = .ok l → Akin l.rest rest → read (l.text ++ rest) = .ok { l with rest }

/-! ### Quoted text -/

/-- A character that neither escapes nor closes belongs to the quoted text. -/
theorem close?_plain {quote c : Char} {escapes : Bool}
    (hc : (c == '\\' && (escapes || quote == '\\')) = false) (hq : (c == quote) = false)
    (cs : List Char) :
    close? quote escapes (c :: cs) =
      (close? quote escapes cs).map fun (body, rest) => (c :: body, rest) := by
  cases cs with
  | nil => simp [close?, hq]
  | cons d cs => simp only [close?, hc, hq, Bool.false_eq_true, if_false]

/-- Characters that neither escape nor close belong to the quoted text. -/
theorem close?_run {quote : Char} {run : List Char} (h : ∀ c ∈ run, c ≠ '\\' ∧ c ≠ quote)
    (escapes : Bool) (tail : List Char) :
    close? quote escapes (run ++ tail) =
      (close? quote escapes tail).map fun (body, rest) => (run ++ body, rest) := by
  induction run with
  | nil => simp
  | cons c run ih =>
      obtain ⟨hc, hrun⟩ := List.forall_mem_cons.1 h
      rw [List.cons_append, close?_plain (by simp [hc.1]) (by simp [hc.2]), ih hrun, Option.map_map]
      rfl

/-- Quoted text is an inner part, whatever stands behind it, and the quote that closes. -/
theorem close?_cut {quote : Char} {escapes : Bool} {cs body behind : List Char}
    (h : close? quote escapes cs = some (body, behind)) :
    ∃ inner, body = inner ++ [quote] ∧
      close? quote escapes (quote :: behind) = some ([quote], behind) ∧
      ∀ tail, close? quote escapes (inner ++ tail) =
        (close? quote escapes tail).map fun (body, rest) => (inner ++ body, rest) := by
  fun_induction close? quote escapes cs generalizing body behind with
  | case1 => cases h
  | case2 c hc =>
      cases h
      obtain rfl : c = quote := by simpa using (Bool.and_eq_true_iff.1 (Bool.and_eq_true_iff.1 hc).1).1
      refine ⟨[], rfl, by rw [close?, if_pos hc], fun tail => by simp⟩
  | case3 c hc => cases h
  | case4 c d cs hc ih =>
      simp only [Option.map_eq_some_iff, Prod.mk.injEq, Prod.exists] at h
      obtain ⟨body, _, hclose, rfl, rfl⟩ := h
      obtain ⟨inner, rfl, hquote, htail⟩ := ih hclose
      refine ⟨c :: d :: inner, rfl, hquote, fun tail => ?_⟩
      simp only [List.cons_append, close?, if_pos hc, htail, Option.map_map, Function.comp_def]
  | case5 c d cs hc hq hd ih =>
      simp only [Option.map_eq_some_iff, Prod.mk.injEq, Prod.exists] at h
      obtain ⟨body, _, hclose, rfl, rfl⟩ := h
      obtain ⟨inner, rfl, hquote, htail⟩ := ih hclose
      refine ⟨c :: d :: inner, rfl, hquote, fun tail => ?_⟩
      simp only [List.cons_append, close?, if_neg hc, if_pos hq, if_pos hd, htail, Option.map_map,
        Function.comp_def]
  | case6 c d cs hc hq hd =>
      cases h
      obtain rfl : c = quote := by simpa using hq
      refine ⟨[], rfl, ?_, fun tail => by simp⟩
      rw [close?, if_neg hc, if_pos hq, if_neg hd]
  | case7 c d cs hc hq ih =>
      simp only [Option.map_eq_some_iff, Prod.mk.injEq, Prod.exists] at h
      obtain ⟨body, _, hclose, rfl, rfl⟩ := h
      obtain ⟨inner, rfl, hquote, htail⟩ := ih hclose
      refine ⟨c :: inner, rfl, hquote, fun tail => ?_⟩
      rw [List.cons_append, close?_plain (by simpa using hc) (by simpa using hq), htail,
        Option.map_map]
      rfl

/-- The quote that closes does so in front of any text with the same first character. -/
theorem close?_quote {quote : Char} {escapes : Bool} {behind rest : List Char}
    (h : close? quote escapes (quote :: behind) = some ([quote], behind))
    (hhead : rest.head? = behind.head?) :
    close? quote escapes (quote :: rest) = some ([quote], rest) := by
  cases behind with
  | nil =>
      cases rest with
      | nil => exact h
      | cons c rest => cases hhead
  | cons c behind =>
      cases rest with
      | nil => cases hhead
      | cons d rest =>
          obtain rfl : d = c := by simpa using hhead
          rw [close?] at h ⊢
          split at h
          · simp at h
          · rename_i hescape
            rw [if_neg hescape]
            split at h
            · split at h
              · simp at h
              · rename_i hquote hdouble
                rw [if_pos hquote, if_neg hdouble]
            · rename_i hquote
              simp at hquote

theorem close?_regraft {quote : Char} {escapes : Bool} {cs body behind rest : List Char}
    (h : close? quote escapes cs = some (body, behind)) (hhead : rest.head? = behind.head?) :
    close? quote escapes (body ++ rest) = some (body, rest) := by
  obtain ⟨inner, rfl, hquote, htail⟩ := close?_cut h
  rw [List.append_assoc, htail, List.singleton_append, close?_quote hquote hhead]
  rfl

theorem string_regraft (d : Dialect) : Regrafting (string d) := by
  intro cs l rest h hrest
  unfold string at h
  split at h
  · cases h
  · rename_i quote cs
    split at h
    · rename_i body behind hclose
      cases h
      have hbody := close?_regraft hclose hrest.head?_eq
      simp only [List.cons_append, string, hbody]
    · cases h

theorem nationalString_regraft (d : Dialect) : Regrafting (nationalString d) := by
  intro cs l rest h hrest
  unfold nationalString at h
  split at h
  · cases h
  · rename_i mark cs
    split at h
    · rename_i l' hstring
      cases h
      have hinner := string_regraft d hstring hrest
      simp only [List.cons_append, nationalString, hinner]
    · cases h

/-! ### Variables and integers -/

/-- The first character of a text is that of its leading part. -/
theorem peek_append_of_leads {front cs : List Char} (h : front <+: cs) (hne : front ≠ [])
    (rest : List Char) : peek (front ++ rest) = peek cs := by
  obtain ⟨behind, rfl⟩ := h
  cases front with
  | nil => exact absurd rfl hne
  | cons c front => rfl

/-- Whether the optional mark in front of a run is there does not depend on what stands
behind the run. -/
theorem peek_marked_run {mark : Char} {p : Char → Bool} {cs marks : List Char}
    (hmark : mark ≠ endMark) (hmarks : marks = if peek cs == mark then [mark] else [])
    (hrun : ¬((cs.drop marks.length).takeWhile p).isEmpty = true) (rest : List Char) :
    peek (marks ++ ((cs.drop marks.length).takeWhile p ++ rest)) = peek cs := by
  have hwhole : marks ++ cs.drop marks.length = cs := by
    rw [hmarks]
    exact optional_append hmark (by simp)
  rw [← List.append_assoc]
  refine peek_append_of_leads ?_ ?_ rest
  · have hleads := (List.prefix_append_right_inj marks).2
      (List.takeWhile_prefix p (l := cs.drop marks.length))
    rwa [hwhole] at hleads
  · intro hnil
    rw [(List.append_eq_nil_iff.1 hnil).2] at hrun
    exact hrun rfl

/-- What is left behind a run does not go on with it, so neither does a text that starts
with the same character. -/
theorem head?_of_dropWhile {p : Char → Bool} {cs rest : List Char}
    (hhead : rest.head? = (cs.dropWhile p).head?) : ∀ c ∈ rest.head?, p c = false := by
  rw [hhead]
  intro c hc
  have hstop := List.head?_dropWhile_not p cs
  rw [Option.mem_def.1 hc] at hstop
  exact hstop

/-- A variable ends in front of a text that does not go on with it. -/
theorem sqlVariable_exact {cs rest : List Char} {l : Lexeme} (h : sqlVariable cs = .ok l)
    (hend : ∀ c ∈ rest.head?, (isWordChar c || c == '.') = false) :
    sqlVariable (l.text ++ rest) = .ok { l with rest } := by
  unfold sqlVariable at h
  split at h
  · cases h
  · rename_i c cs
    extract_lets marks tail named body at h
    split at h
    · cases h
    · rename_i hbody
      cases h
      have hpeek : peek (marks ++ (body ++ rest)) = peek cs :=
        peek_marked_run (by decide) rfl hbody rest
      have hmarks : (if peek cs == '@' then ['@'] else []) = marks := rfl
      have hrun : (body ++ rest).takeWhile named = body ∧ (body ++ rest).dropWhile named = rest :=
        takeWhile_exact (fun c hc => List.mem_takeWhile_imp hc) hend
      simp only [List.append_assoc, List.cons_append, sqlVariable, hpeek, hmarks, List.drop_left]
      change (if ((body ++ rest).takeWhile named).isEmpty then _
        else Except.ok (Lexeme.mk _ (c :: (marks ++ (body ++ rest).takeWhile named))
          ((body ++ rest).dropWhile named))) = _
      rw [hrun.1, hrun.2, if_neg hbody]

theorem sqlVariable_regraft : Regrafting sqlVariable := by
  intro cs l rest h hrest
  refine sqlVariable_exact h ?_
  unfold sqlVariable at h
  split at h
  · cases h
  · extract_lets marks tail named body at h
    split at h <;> cases h
    exact head?_of_dropWhile hrest.head?_eq

/-- The digits of a hexadecimal integer end in front of a text that does not start with
one. -/
theorem hexadecimal_exact {cs rest : List Char} {l : Lexeme} (h : hexadecimal cs = .ok l)
    (hend : ∀ c ∈ rest.head?, isHexDigit c = false) :
    hexadecimal (l.text ++ rest) = .ok { l with rest } := by
  unfold hexadecimal at h
  extract_lets tail sign digitsOn digits at h
  split at h
  · cases h
  · rename_i hdigits
    split at h
    · cases h
    · rename_i hvalue
      cases h
      have hpeek : peek (sign ++ (digits ++ rest)) = peek tail :=
        peek_marked_run (by decide) rfl hdigits rest
      have hsign : (if peek tail == '-' then ['-'] else []) = sign := rfl
      have hrun : (digits ++ rest).takeWhile isHexDigit = digits ∧
          (digits ++ rest).dropWhile isHexDigit = rest :=
        takeWhile_exact (fun c hc => List.mem_takeWhile_imp hc) hend
      have hmark : (cs.take 2).length = 2 := by
        have hlong : tail ≠ [] := by
          intro hnil
          have hnone : digits = [] := by
            simp only [digits, digitsOn, hnil, List.drop_nil, List.takeWhile_nil]
          exact hdigits (by rw [hnone]; rfl)
        have hlength := List.length_pos_iff.2 hlong
        rw [List.length_drop] at hlength
        rw [List.length_take]
        omega
      have hdrop : (cs.take 2 ++ (sign ++ (digits ++ rest))).drop 2 = sign ++ (digits ++ rest) :=
        List.drop_left' hmark
      have htake : (cs.take 2 ++ (sign ++ (digits ++ rest))).take 2 = cs.take 2 :=
        List.take_left' hmark
      simp only [List.append_assoc, hexadecimal, hdrop, htake, hpeek, hsign, List.drop_left, hrun.1,
        hrun.2, if_neg hdigits, if_neg hvalue]

theorem hexadecimal_regraft : Regrafting hexadecimal := by
  intro cs l rest h hrest
  refine hexadecimal_exact h ?_
  unfold hexadecimal at h
  extract_lets tail sign digitsOn digits at h
  split at h
  · cases h
  · split at h <;> cases h
    exact head?_of_dropWhile hrest.head?_eq

/-! ### Numbers -/

theorem isWordChar_of_isDigit (c : Char) (h : isDigit c = true) : isWordChar c = true := by
  have hdigit : c.isDigit = true := h
  simp [isWordChar, Char.isAlphanum, hdigit]

theorem fraction_regraft {frac behind rest : List Char} (h : fraction (frac ++ behind) = frac)
    (hrest : Akin behind rest) : fraction (frac ++ rest) = frac := by
  cases frac with
  | nil =>
      cases hrest with
      | nil => rfl
      | cons c hrest =>
          rw [List.nil_append, fraction_cons] at h ⊢
          rw [hrest.peek_eq]
          by_cases hpoint : (c == '.') = true
          · rw [if_pos hpoint] at h ⊢
            split at h
            · rename_i hsecond
              rw [if_pos hsecond]
            · cases h
          · rw [if_neg hpoint]
      | seam rest hword _ =>
          rw [List.nil_append, fraction_cons, if_neg]
          intro hpoint
          rw [beq_iff_eq.1 hpoint] at hword
          cases hword
      | quote _ _ hc =>
          rcases hc with rfl | rfl <;> rfl
  | cons c digits =>
      rw [List.cons_append, fraction_cons] at h ⊢
      rw [(hrest.append digits).peek_eq]
      split at h
      · rename_i hpoint
        split at h
        · cases h
        · rename_i hsecond
          obtain ⟨rfl, hdigits⟩ := List.cons.inj h
          rw [if_pos hpoint, if_neg hsecond, (takeWhile_regraft hdigits hrest.head?_eq).1]
      · cases h

/-- Whether an exponent has digits does not depend on which of two akin texts follows
its mark. -/
theorem exponent_eq_nil {e : Char} {cs cs' : List Char} (h : exponent (e :: cs) = [])
    (hakin : Akin cs cs') : exponent (e :: cs') = [] := by
  simp only [exponent, hakin.peek_eq] at h ⊢
  split at h
  · rename_i hmark
    rw [if_pos hmark]
    have hdigits : (cs'.drop (if peek cs == '+' || peek cs == '-' then [peek cs] else []).length
        ).takeWhile isDigit = (cs.drop (if peek cs == '+' || peek cs == '-' then [peek cs]
          else []).length).takeWhile isDigit := by
      split
      · rename_i hsign
        refine Akin.takeWhile_eq isWordChar_of_isDigit rfl (hakin.drop_one ?_ ?_)
        · simp only [Bool.or_eq_true, beq_iff_eq] at hsign
          rcases hsign with hsign | hsign <;> rw [hsign] <;> rfl
        · simp only [Bool.or_eq_true, beq_iff_eq] at hsign
          rcases hsign with hsign | hsign <;> rw [hsign] <;> decide
      · exact hakin.takeWhile_eq isWordChar_of_isDigit rfl
    rw [hdigits]
    exact h
  · rename_i hmark
    rw [if_neg hmark]

theorem exponent_regraft {expo behind rest : List Char} (h : exponent (expo ++ behind) = expo)
    (hrest : Akin behind rest) : exponent (expo ++ rest) = expo := by
  cases expo with
  | nil =>
      cases hrest with
      | nil => rfl
      | cons e hrest => exact exponent_eq_nil h hrest
      | seam rest _ _ =>
          -- A `_` is neither a sign nor a digit.
          simp [exponent, peek, isDigit]
      | quote _ _ hc => rcases hc with rfl | rfl <;> rfl
  | cons e tail =>
      simp only [List.cons_append, exponent, (hrest.append tail).peek_eq] at h ⊢
      split at h
      · rename_i hmark
        rw [if_pos hmark]
        generalize (if peek (tail ++ behind) == '+' || peek (tail ++ behind) == '-' then
          [peek (tail ++ behind)] else []) = sign at h ⊢
        generalize hdigits : ((tail ++ behind).drop sign.length).takeWhile isDigit = digits at h
        split at h
        · cases h
        · rename_i hsome
          obtain rfl : sign ++ digits = tail := (List.cons.inj h).2
          rw [List.append_assoc, List.drop_left] at hdigits ⊢
          rw [(takeWhile_regraft hdigits hrest.head?_eq).1, if_neg hsome]
      · cases h

theorem suffix_regraft {suff behind rest : List Char} (h : suffix (suff ++ behind) = suff)
    (hrest : Akin behind rest) : suffix (suff ++ rest) = suff := by
  cases suff with
  | nil =>
      cases hrest with
      | nil => rfl
      | cons c hrest =>
          rw [List.nil_append, suffix] at h ⊢
          rw [hrest.peek_eq]
          exact h
      | seam rest _ _ =>
          rw [List.nil_append, suffix, if_neg]
          simp [peek, isWordChar]
      | quote _ _ hc =>
          rcases hc with rfl | rfl <;> rfl
  | cons c tail =>
      rw [List.cons_append, suffix] at h ⊢
      rw [(hrest.append tail).peek_eq]
      exact h

/-- The parts of a number, and what follows it. Each part is what its reader finds in front
of all that comes behind it. -/
structure Numeral (sign whole frac expo suff rest : List Char) : Prop where
  signed : (if peek (sign ++ (whole ++ (frac ++ (expo ++ (suff ++ rest))))) == '-' then ['-']
    else []) = sign
  digits : (whole ++ (frac ++ (expo ++ (suff ++ rest)))).takeWhile isDigit = whole
  fractional : fraction (frac ++ (expo ++ (suff ++ rest))) = frac
  exponential : exponent (expo ++ (suff ++ rest)) = expo
  suffixed : suffix (suff ++ rest) = suff

/-- Every text is a number, if one without digits, and what follows it. -/
theorem exists_numeral (cs : List Char) : ∃ sign whole frac expo suff rest,
    cs = sign ++ (whole ++ (frac ++ (expo ++ (suff ++ rest)))) ∧
      Numeral sign whole frac expo suff rest := by
  obtain ⟨sign, hsigned⟩ : ∃ sign, (if peek cs == '-' then ['-'] else []) = sign := ⟨_, rfl⟩
  have hsign : sign ++ cs.drop sign.length = cs := by
    rw [← hsigned]
    exact optional_append (by decide) (by simp)
  generalize cs.drop sign.length = cs₁ at hsign
  have hwhole : cs₁.takeWhile isDigit ++ cs₁.dropWhile isDigit = cs₁ :=
    List.takeWhile_append_dropWhile
  generalize hdigits : cs₁.takeWhile isDigit = whole at hwhole
  generalize cs₁.dropWhile isDigit = cs₂ at hwhole
  have hfrac := append_drop_of_leads (fraction_leads cs₂)
  generalize hfractional : fraction cs₂ = frac at hfrac
  generalize cs₂.drop frac.length = cs₃ at hfrac
  have hexpo := append_drop_of_leads (exponent_leads cs₃)
  generalize hexponential : exponent cs₃ = expo at hexpo
  generalize cs₃.drop expo.length = cs₄ at hexpo
  have hsuff := append_drop_of_leads (suffix_leads cs₄)
  generalize hsuffixed : suffix cs₄ = suff at hsuff
  generalize cs₄.drop suff.length = rest at hsuff
  subst hsuff hexpo hfrac hwhole hsign
  exact ⟨sign, whole, frac, expo, suff, rest, rfl, hsigned, hdigits, hfractional, hexponential,
    hsuffixed⟩

namespace Numeral

variable {sign whole frac expo suff rest : List Char}

/-- A text that is made up of the parts of a number is read as this number. -/
theorem number_eq (h : Numeral sign whole frac expo suff rest) :
    number (sign ++ (whole ++ (frac ++ (expo ++ (suff ++ rest))))) =
      if frac.isEmpty && expo.isEmpty && suff.isEmpty then
        if (Token.decimal? (sign ++ whole ++ frac ++ expo ++ suff)).isNone then
          refuse .integerOutOfRange
        else .ok ⟨.integer, sign ++ whole ++ frac ++ expo ++ suff, rest⟩
      else .ok ⟨.float, sign ++ whole ++ frac ++ expo ++ suff, rest⟩ := by
  have hrest : (whole ++ (frac ++ (expo ++ (suff ++ rest)))).dropWhile isDigit =
      frac ++ (expo ++ (suff ++ rest)) := by
    have hwhole := List.takeWhile_append_dropWhile (p := isDigit)
      (l := whole ++ (frac ++ (expo ++ (suff ++ rest))))
    rw [h.digits] at hwhole
    exact List.append_cancel_left hwhole
  simp only [number, h.signed, List.drop_left, h.digits, hrest, h.fractional, h.exponential,
    h.suffixed]

/-- The text of a number is all its parts. -/
theorem split_eq (h : Numeral sign whole frac expo suff rest) {l : Lexeme}
    (hl : number (sign ++ (whole ++ (frac ++ (expo ++ (suff ++ rest))))) = .ok l) :
    l.text = sign ++ whole ++ frac ++ expo ++ suff ∧ l.rest = rest := by
  rw [h.number_eq] at hl
  split at hl
  · split at hl <;> cases hl
    exact ⟨rfl, rfl⟩
  · cases hl
    exact ⟨rfl, rfl⟩

/-- The same number in front of another text. -/
theorem number_replaced (h : Numeral sign whole frac expo suff rest) {rest' : List Char}
    (h' : Numeral sign whole frac expo suff rest') {l : Lexeme}
    (hl : number (sign ++ (whole ++ (frac ++ (expo ++ (suff ++ rest))))) = .ok l) :
    number (l.text ++ rest') = .ok { l with rest := rest' } := by
  have htext : l.text ++ rest' = sign ++ (whole ++ (frac ++ (expo ++ (suff ++ rest')))) := by
    rw [(h.split_eq hl).1]
    simp only [List.append_assoc]
  rw [h.number_eq] at hl
  rw [htext, h'.number_eq]
  split at hl
  · rename_i hinteger
    rw [if_pos hinteger]
    split at hl
    · cases hl
    · rename_i hvalue
      cases hl
      rw [if_neg hvalue]
  · rename_i hfloat
    cases hl
    rw [if_neg hfloat]

end Numeral

theorem number_regraft : Regrafting number := by
  intro cs l rest h hrest
  obtain ⟨sign, whole, frac, expo, suff, behind, rfl, hnumeral⟩ := exists_numeral cs
  rw [(hnumeral.split_eq h).2] at hrest
  -- What stands behind each part of the number is akin to what stood there.
  have h₄ : Akin (suff ++ behind) (suff ++ rest) := hrest.append suff
  have h₃ : Akin (expo ++ (suff ++ behind)) (expo ++ (suff ++ rest)) := h₄.append expo
  have h₂ : Akin (frac ++ (expo ++ (suff ++ behind))) (frac ++ (expo ++ (suff ++ rest))) :=
    h₃.append frac
  have h₀ := (h₂.append whole).append sign
  refine hnumeral.number_replaced ⟨?_, ?_, ?_, ?_, ?_⟩ h
  · rw [h₀.peek_eq]
    exact hnumeral.signed
  · exact (takeWhile_regraft hnumeral.digits h₂.head?_eq).1
  · exact fraction_regraft hnumeral.fractional h₃
  · exact exponent_regraft hnumeral.exponential h₄
  · exact suffix_regraft hnumeral.suffixed hrest

/-! ### Symbols -/

/-- No symbol goes on with a character of a word or with the mark of a name. -/
theorem second_of_symbol {a b : Char} {cs : List Char} {s : Symbol}
    (h : Symbol.find? (a :: b :: cs) = some s) :
    isWordChar b = false ∧ ¬(b = '\x60' ∨ b = '[') := by
  have hspelled : s.spelling.toList = a :: b :: cs := by simpa using List.find?_some h
  have hsecond : s.spelling.toList[1]?.all (fun b =>
      !isWordChar b && !(b == '\x60' || b == '[')) = true := by
    cases s <;> decide
  rw [hspelled] at hsecond
  simpa using hsecond

theorem take_one_of_head? {cs cs' : List Char} (h : cs'.head? = cs.head?) :
    cs'.take 1 = cs.take 1 := by
  rw [List.take_one, List.take_one, h]

/-- A longer symbol starts in front of a text only if one starts in front of any akin text. -/
theorem find?_akin {a : Char} {cs cs' : List Char} {n : Nat} (hn : n ≤ Symbol.longest)
    (h : Akin cs cs') (hnone : Symbol.find? ((a :: cs).take n) = none) :
    Symbol.find? ((a :: cs').take n) = none := by
  match n, hn with
  | 0, _ => exact hnone
  | 1, _ => exact hnone
  | 2, _ =>
      rw [List.take_succ_cons] at hnone ⊢
      rw [take_one_of_head? h.head?_eq]
      exact hnone
  | 3, _ =>
      have hword : ∀ {c : Char} {cs : List Char}, isWordChar c = true ∨ (c = '\x60' ∨ c = '[') →
          Symbol.find? (a :: c :: cs) = none := by
        intro c cs hc
        rw [Option.eq_none_iff_forall_ne_some]
        intro s hs
        obtain ⟨hword, hquote⟩ := second_of_symbol hs
        rw [hword] at hc
        simp [hquote] at hc
      cases h with
      | nil => exact hnone
      | cons c h =>
          rw [List.take_succ_cons, List.take_succ_cons] at hnone ⊢
          rw [take_one_of_head? h.head?_eq]
          exact hnone
      | seam _ hc _ => exact hword (.inl hc)
      | quote _ _ hc => exact hword (.inr hc)

theorem operatorWithin_regraft (cs : List Char) (n : Nat) (hn : n ≤ Symbol.longest) {l : Lexeme}
    {rest : List Char} (h : operatorWithin cs n = .ok l) (hrest : Akin l.rest rest) :
    operatorWithin (l.text ++ rest) n = .ok { l with rest } := by
  induction n with
  | zero => cases h
  | succ n ih =>
      have hsplit := operatorWithin_splits cs (n + 1) h
      rw [operatorWithin] at h ⊢
      split at h
      · rename_i s hs
        cases h
        dsimp only at hrest ⊢
        by_cases hlong : n + 1 ≤ cs.length
        · have hlength : (cs.take (n + 1)).length = n + 1 := List.length_take_of_le hlong
          rw [List.take_left' hlength, List.drop_left' hlength, hs]
        · rw [List.drop_eq_nil_of_le (by omega)] at hrest
          cases hrest
          rw [List.append_nil, List.take_take, Nat.min_self, hs,
            List.drop_eq_nil_of_le (List.length_take_le _ _)]
      · rename_i hnone
        obtain ⟨a, tail, htext⟩ := List.exists_cons_of_ne_nil hsplit.nonempty
        have hakin : Akin (tail ++ l.rest) (tail ++ rest) := hrest.append tail
        rw [← hsplit.whole, htext, List.cons_append] at hnone
        have hlonger := find?_akin hn hakin hnone
        rw [← List.cons_append, ← htext] at hlonger
        rw [hlonger]
        exact ih (by omega) h

theorem operator_regraft : Regrafting operator :=
  fun h hrest => operatorWithin_regraft _ _ (Nat.le_refl _) h hrest

/-! ### Words and names -/

theorem word_regraft (d : Dialect) {cs rest : List Char} (hrest : Akin (word d cs).rest rest)
    (hby : beforeBy rest = beforeBy (word d cs).rest) :
    word d ((word d cs).text ++ rest) = { word d cs with rest } := by
  have hbehind : (word d cs).text ++ (word d cs).rest = cs := List.takeWhile_append_dropWhile
  have hrun : ((word d cs).text ++ rest).takeWhile isWordChar = (word d cs).text ∧
      ((word d cs).text ++ rest).dropWhile isWordChar = rest :=
    takeWhile_regraft (congrArg (List.takeWhile isWordChar) hbehind) hrest.head?_eq
  have hkind : wordKind d (word d cs).text rest = (word d cs).kind := by
    rw [wordKind, hby]
    rfl
  rw [word, hrun.1, hrun.2, hkind]

theorem name_regraft (d : Dialect) {cs rest : List Char} {l : Lexeme} (h : name d cs = .ok l)
    (hrest : Akin l.rest rest) (hby : beforeBy rest = beforeBy l.rest) :
    name d (l.text ++ rest) = .ok { l with rest } := by
  cases cs with
  | nil =>
      cases h
      cases hrest
      rfl
  | cons c cs =>
      rw [name] at h
      split at h
      · rename_i hquoted
        split at h
        · rename_i body behind hclose
          cases h
          rw [List.cons_append, name, if_pos hquoted, close?_regraft hclose hrest.head?_eq]
        · cases h
      · rename_i hplain
        cases h
        have hakin := hrest.append (word d (c :: cs)).text
        rw [show (word d (c :: cs)).text ++ (word d (c :: cs)).rest = c :: cs from
          List.takeWhile_append_dropWhile] at hakin
        rw [← word_regraft d hrest hby]
        generalize (word d (c :: cs)).text ++ rest = cs' at hakin ⊢
        cases hakin <;> rw [name, if_neg hplain]

/-! ### Which form comes next -/

theorem startsNumber_akin (b : Before) {cs cs' : List Char} (h : Akin cs cs') :
    startsNumber b cs' = startsNumber b cs := by
  by_cases hpoint : peek cs = '.'
  · have hnext := h.drop_one (by rw [hpoint]; rfl) (by rw [hpoint]; decide)
    simp only [startsNumber, List.drop_zero, h.peek_eq, hnext.peek_eq, hpoint]
    rfl
  · by_cases hsign : peek cs = '-'
    · have hnext := h.drop_one (by rw [hsign]; rfl) (by rw [hsign]; decide)
      have hsecond : (peek (cs.drop 1) == '.' && isDigit (peek (cs'.drop 2))) =
          (peek (cs.drop 1) == '.' && isDigit (peek (cs.drop 2))) := by
        by_cases hmark : peek (cs.drop 1) = '.'
        · have hthird := hnext.drop_one (by rw [hmark]; rfl) (by rw [hmark]; decide)
          rw [List.drop_drop, List.drop_drop] at hthird
          rw [hthird.peek_eq]
        · rw [beq_false_of_ne hmark, Bool.false_and, Bool.false_and]
      simp only [startsNumber, List.drop_zero, h.peek_eq, hnext.peek_eq, hsecond,
        beq_false_of_ne hpoint, Bool.false_and]
    · simp only [startsNumber, List.drop_zero, h.peek_eq, beq_false_of_ne hpoint,
        beq_false_of_ne hsign, Bool.false_and]

/-- Whether a name starts with this character. -/
def startsName (d : Dialect) (first : Char) : Bool :=
  isWordStart first || first == '\x60' || (first == '[' && d.features.bracketNames)

/-- The form of the token that starts with two characters; `number` tells whether a number
starts there. -/
def formOf (d : Dialect) (first second : Char) (number : Bool) : Option Form :=
  if d.features.sqlVariables && first == '@' then some .sqlVariable
  else if d.features.nationalStrings && (first == 'N' || first == 'n') && second == '\x27' then
    some .nationalString
  else if startsName d first then some .name
  else if first == '0' && (second == 'x' || second == 'X') then some .hexadecimal
  else if number then some .number
  else if isSymbolStart first then some .operator
  else if first == '\x27' || first == '\x22' then some .string
  else none

/-- Reading is choosing a form and splitting a token of this form off. -/
theorem read_eq (d : Dialect) (b : Before) (cs : List Char) :
    read d b cs =
      match formOf d (peek cs) (peek (cs.drop 1)) (startsNumber b cs) with
      | some f => f.split d cs
      | none => refuse .unrecognized := by
  unfold read formOf
  dsimp only
  rw [show (isWordStart (peek cs) || peek cs == '\x60' ||
    (peek cs == '[' && d.features.bracketNames)) = startsName d (peek cs) from rfl]
  split_ifs <;> rfl

theorem read_of_formOf {d : Dialect} {b : Before} {cs : List Char} {f : Form}
    (h : formOf d (peek cs) (peek (cs.drop 1)) (startsNumber b cs) = some f) :
    read d b cs = f.split d cs := by
  rw [read_eq, h]

/-- What is read has a form and is split off by it. -/
theorem exists_form_of_read {d : Dialect} {b : Before} {cs : List Char} {l : Lexeme}
    (h : read d b cs = .ok l) :
    ∃ f, formOf d (peek cs) (peek (cs.drop 1)) (startsNumber b cs) = some f ∧
      f.split d cs = .ok l := by
  rw [read_eq] at h
  split at h
  · rename_i f hform
    exact ⟨f, hform, h⟩
  · cases h

/-- Why a token of this form cannot be split off. -/
def causesOf : Form → List LexicalCause
  | .sqlVariable => [.malformedVariable]
  | .nationalString | .string => [.unterminatedString]
  | .name => [.unterminatedName]
  | .hexadecimal => [.malformedHex, .hexOutOfRange]
  | .number => [.integerOutOfRange]
  | .operator => [.unrecognized]

/-- A form slips for one of its own causes, and at its first character. Only a national string
slips behind its mark. -/
theorem slip_of_split {d : Dialect} {f : Form} {cs : List Char} {slip : Slip}
    (h : f.split d cs = .error slip) :
    slip.cause ∈ causesOf f ∧ slip.skip = if f = .nationalString then 1 else 0 := by
  have hrefused {f : Form} {cause : LexicalCause} (hcause : cause ∈ causesOf f)
      (hf : f ≠ .nationalString) (h : refuse cause = .error slip) :
      slip.cause ∈ causesOf f ∧ slip.skip = if f = .nationalString then 1 else 0 := by
    cases h
    exact ⟨hcause, (if_neg hf).symm⟩
  cases f with
  | sqlVariable =>
      change sqlVariable cs = .error slip at h
      unfold sqlVariable at h
      split at h
      · exact hrefused (by simp [causesOf]) (by decide) h
      · extract_lets at h
        split at h
        · exact hrefused (by simp [causesOf]) (by decide) h
        · cases h
  | nationalString =>
      change nationalString d cs = .error slip at h
      unfold nationalString at h
      split at h
      · cases h
        exact ⟨List.mem_singleton_self _, rfl⟩
      · split at h <;> cases h
        exact ⟨List.mem_singleton_self _, rfl⟩
  | name =>
      change name d cs = .error slip at h
      unfold name at h
      split at h
      · cases h
      · split at h
        · split at h
          · cases h
          · exact hrefused (by simp [causesOf]) (by decide) h
        · cases h
  | hexadecimal =>
      change hexadecimal cs = .error slip at h
      unfold hexadecimal at h
      extract_lets at h
      split at h
      · exact hrefused (by simp [causesOf]) (by decide) h
      · split at h
        · exact hrefused (by simp [causesOf]) (by decide) h
        · cases h
  | number =>
      change number cs = .error slip at h
      unfold number at h
      extract_lets at h
      split at h
      · split at h
        · exact hrefused (by simp [causesOf]) (by decide) h
        · cases h
      · cases h
  | string =>
      change string d cs = .error slip at h
      unfold string at h
      split at h
      · exact hrefused (by simp [causesOf]) (by decide) h
      · split at h
        · cases h
        · exact hrefused (by simp [causesOf]) (by decide) h
  | operator =>
      change operatorWithin cs Symbol.longest = .error slip at h
      generalize Symbol.longest = n at h
      induction n with
      | zero => exact hrefused (by simp [causesOf]) (by decide) h
      | succ n ih =>
          rw [operatorWithin] at h
          split at h
          · cases h
          · exact ih h

/-- What cannot be read has no form, or its form slips. -/
theorem slip_of_read {d : Dialect} {b : Before} {cs : List Char} {slip : Slip}
    (h : read d b cs = .error slip) :
    slip = ⟨.unrecognized, 0⟩ ∨
      ∃ f, formOf d (peek cs) (peek (cs.drop 1)) (startsNumber b cs) = some f ∧
        f.split d cs = .error slip := by
  rw [read_eq] at h
  split at h
  · rename_i f hform
    exact .inr ⟨f, hform, h⟩
  · cases h
    exact .inl rfl

theorem startsName_of_formOf {d : Dialect} {first second : Char} {number : Bool}
    (h : formOf d first second number = some .name) : startsName d first = true := by
  unfold formOf at h
  split_ifs at h with h₁ h₂ hname <;> cases h
  exact hname

theorem split_regraft (d : Dialect) (f : Form) {cs rest : List Char} {l : Lexeme}
    (h : f.split d cs = .ok l) (hrest : Akin l.rest rest)
    (hby : beforeBy rest = beforeBy l.rest) : f.split d (l.text ++ rest) = .ok { l with rest } := by
  cases f with
  | sqlVariable => exact sqlVariable_regraft h hrest
  | nationalString => exact nationalString_regraft d h hrest
  | name => exact name_regraft d h hrest hby
  | hexadecimal => exact hexadecimal_regraft h hrest
  | number => exact number_regraft h hrest
  | string => exact string_regraft d h hrest
  | operator => exact operator_regraft h hrest

/-- A token that is read in front of a text is read in front of any akin text, if the word
`BY` comes next in both or in none. -/
theorem read_regraft (d : Dialect) (b : Before) {cs rest : List Char} {l : Lexeme}
    (h : read d b cs = .ok l) (hrest : Akin l.rest rest) (hby : beforeBy rest = beforeBy l.rest) :
    read d b (l.text ++ rest) = .ok { l with rest } := by
  have hsplit := read_splits d b h
  have hakin : Akin cs (l.text ++ rest) := hsplit.whole ▸ hrest.append l.text
  have hsecond : peek ((l.text ++ rest).drop 1) = peek (cs.drop 1) := by
    obtain ⟨c, tail, htext⟩ := List.exists_cons_of_ne_nil hsplit.nonempty
    rw [← hsplit.whole, htext]
    exact (hrest.append tail).peek_eq
  obtain ⟨f, hform, h⟩ := exists_form_of_read h
  rw [← hakin.peek_eq, ← hsecond, ← startsNumber_akin b hakin] at hform
  rw [read_of_formOf hform]
  exact split_regraft d f h hrest hby

/-! ### Names -/

end Lexeme

/-- A name or a keyword. -/
def Kind.isWord : Kind → Bool
  | .identifier | .keyword _ => true
  | _ => false

theorem Kind.isWord_of_isName {k : Kind} (h : k.isName = true) : k.isWord = true := by
  cases k <;> first | rfl | cases h

namespace Lexeme

theorem isWord_of_string {d : Dialect} {cs : List Char} {l : Lexeme} (h : string d cs = .ok l) :
    l.kind.isWord = false := by
  unfold string at h
  split at h
  · cases h
  · split at h <;> cases h
    rfl

theorem isWord_of_operatorWithin {cs : List Char} {n : Nat} {l : Lexeme}
    (h : operatorWithin cs n = .ok l) : l.kind.isWord = false := by
  induction n with
  | zero => cases h
  | succ n ih =>
      rw [operatorWithin] at h
      split at h
      · cases h
        rfl
      · exact ih h

/-- Only the reader of names gives a name or a keyword. -/
theorem isWord_of_split {d : Dialect} {f : Form} {cs : List Char} {l : Lexeme}
    (h : f.split d cs = .ok l) (hform : f ≠ .name) : l.kind.isWord = false := by
  cases f with
  | name => exact absurd rfl hform
  | sqlVariable =>
      change sqlVariable cs = .ok l at h
      unfold sqlVariable at h
      split at h
      · cases h
      · extract_lets marks tail named body at h
        split at h <;> cases h
        rfl
  | nationalString =>
      change nationalString d cs = .ok l at h
      unfold nationalString at h
      split at h
      · cases h
      · split at h
        · rename_i hstring
          cases h
          have hkind := isWord_of_string hstring
          exact hkind
        · cases h
  | hexadecimal =>
      change hexadecimal cs = .ok l at h
      unfold hexadecimal at h
      extract_lets tail sign digitsOn digits at h
      split at h
      · cases h
      · split at h <;> cases h
        rfl
  | number =>
      change number cs = .ok l at h
      unfold number at h
      extract_lets sign cs₁ whole cs₂ frac cs₃ expo cs₄ suff cs₅ text at h
      split at h
      · split at h <;> cases h
        rfl
      · cases h
        rfl
  | string => exact isWord_of_string h
  | operator => exact isWord_of_operatorWithin h

/-- A name or keyword that is read is read by `name`. -/
theorem name_of_read {d : Dialect} {b : Before} {cs : List Char} {l : Lexeme}
    (h : read d b cs = .ok l) (hword : l.kind.isWord = true) :
    name d cs = .ok l ∧ startsName d (peek cs) = true := by
  obtain ⟨f, hform, h⟩ := exists_form_of_read h
  by_cases hf : f = .name
  · subst hf
    exact ⟨h, startsName_of_formOf hform⟩
  · cases hword.symm.trans (isWord_of_split h hf)

/-! ### Words -/

theorem formOf_name {d : Dialect} {first second : Char} (number : Bool)
    (hfirst : startsName d first = true)
    (hplain : ¬((first = 'N' ∨ first = 'n') ∧ second = '\x27')) :
    formOf d first second number = some .name := by
  have hvariable : ¬(d.features.sqlVariables && first == '@') = true := by
    simp only [Bool.and_eq_true, beq_iff_eq]
    rintro ⟨-, rfl⟩
    cases hfirst
  have hnational : ¬(d.features.nationalStrings && (first == 'N' || first == 'n') &&
      second == '\x27') = true := by
    simp only [Bool.and_eq_true, Bool.or_eq_true, beq_iff_eq]
    rintro ⟨⟨-, hmark⟩, hquote⟩
    exact hplain ⟨hmark, hquote⟩
  rw [formOf, if_neg hvariable, if_neg hnational, if_pos hfirst]

/-- Where a name starts, it is read, unless it is the mark of a string. -/
theorem read_eq_name {d : Dialect} (b : Before) {cs : List Char}
    (hfirst : startsName d (peek cs) = true)
    (hplain : ¬((peek cs = 'N' ∨ peek cs = 'n') ∧ peek (cs.drop 1) = '\x27')) :
    read d b cs = name d cs := by
  exact read_of_formOf (formOf_name _ hfirst hplain)

theorem head?_of_peek {p : Char → Bool} {cs : List Char} (h : p (peek cs) = false) :
    ∀ c ∈ cs.head?, p c = false := by
  intro c hc
  cases cs with
  | nil => cases hc
  | cons c' cs =>
      obtain rfl : c' = c := by simpa using hc
      exact h

/-- A run of characters of a word is a name, if it starts as a word and does not go on. -/
theorem name_word (d : Dialect) {word rest : List Char} (hstart : isWordStart (peek word) = true)
    (hall : ∀ c ∈ word, isWordChar c = true) (hend : isWordChar (peek rest) = false) :
    name d (word ++ rest) = .ok ⟨wordKind d word rest, word, rest⟩ := by
  have hrun := takeWhile_exact hall (head?_of_peek hend)
  cases word with
  | nil => cases hstart
  | cons c word =>
      have hquoted : ¬(c == '\x60' || (c == '[' && d.features.bracketNames)) = true := by
        simp only [Bool.or_eq_true, Bool.and_eq_true, beq_iff_eq]
        rintro (rfl | ⟨rfl, -⟩) <;> cases hstart
      rw [List.cons_append, name, if_neg hquoted, Lexeme.word, ← List.cons_append, hrun.1, hrun.2]

theorem read_word (d : Dialect) (b : Before) {word rest : List Char}
    (hstart : isWordStart (peek word) = true) (hall : ∀ c ∈ word, isWordChar c = true)
    (hend : isWordChar (peek rest) = false) (hsecond : peek ((word ++ rest).drop 1) ≠ '\x27') :
    read d b (word ++ rest) = .ok ⟨wordKind d word rest, word, rest⟩ := by
  rw [read_eq_name b ?_ fun h => hsecond h.2, name_word d hstart hall hend]
  cases word with
  | nil => cases hstart
  | cons c word =>
      change startsName d c = true
      rw [startsName, show isWordStart c = true from hstart]
      rfl

/-! ### The word `BY` -/

theorem isWordChar_of_isSpace {c : Char} (h : isSpace c = true) : isWordChar c = false := by
  have hall : ∀ n : Fin 128, isSpace (Char.ofNat n) = true → isWordChar (Char.ofNat n) = false := by
    decide
  have hlow : c.toNat < 128 := by
    simp only [isSpace, Bool.or_eq_true, Bool.and_eq_true, decide_eq_true_eq, beq_iff_eq] at h
    omega
  have hc := hall ⟨c.toNat, hlow⟩
  rw [Char.ofNat_toNat] at hc
  exact hc h

theorem beforeBy_iff {cs : List Char} : beforeBy cs = true ↔
    ∃ spaces b y rest, cs = spaces ++ b :: y :: rest ∧ (∀ c ∈ spaces, isSpace c = true) ∧
      b.toLower = 'b' ∧ y.toLower = 'y' ∧ isWordChar (peek rest) = false := by
  constructor
  · intro h
    unfold beforeBy at h
    split at h
    · rename_i b y rest hdrop
      simp only [Bool.and_eq_true, beq_iff_eq, Bool.not_eq_true'] at h
      refine ⟨cs.takeWhile isSpace, b, y, rest, ?_, fun c hc => List.mem_takeWhile_imp hc,
        h.1.1, h.1.2, h.2⟩
      rw [← hdrop, List.takeWhile_append_dropWhile]
    · cases h
  · rintro ⟨spaces, b, y, rest, rfl, hspaces, hb, hy, hend⟩
    have hstop : isSpace b = false := by rw [← isSpace_toLower, hb]; rfl
    rw [beforeBy, List.dropWhile_append_of_pos hspaces, List.dropWhile_cons_of_neg (by simp [hstop])]
    simp [hb, hy, hend]

/-- The word `BY` in front of a text stands in front of the text it is akin to. -/
theorem beforeBy_of_akin {cs cs' : List Char} (h : Akin cs cs') (hby : beforeBy cs' = true) :
    beforeBy cs = true := by
  rw [beforeBy_iff] at hby ⊢
  obtain ⟨spaces, b, y, rest, rfl, hspaces, hb, hy, hend⟩ := hby
  have hword : isWordChar b = true ∧ isWordChar y = true := by
    rw [← isWordChar_toLower b, ← isWordChar_toLower y, hb, hy]
    exact ⟨rfl, rfl⟩
  induction spaces generalizing cs with
  | nil =>
      cases h with
      | cons _ h =>
          cases h with
          | @cons _ cs _ h => exact ⟨[], b, y, cs, rfl, by simp, hb, hy, h.peek_eq ▸ hend⟩
          | seam _ _ _ => cases hend
          | quote _ _ hc => rcases hc with rfl | rfl <;> cases hword.2
      | seam _ _ _ => cases hy
      | quote _ _ hc => rcases hc with rfl | rfl <;> cases hword.1
  | cons c spaces ih =>
      obtain ⟨hc, hspaces⟩ := List.forall_mem_cons.1 hspaces
      have hplain := isWordChar_of_isSpace hc
      rw [List.cons_append] at h
      generalize htail : spaces ++ b :: y :: rest = tail at h
      cases h with
      | cons _ h =>
          rw [← htail] at h
          obtain ⟨spaces', b', y', rest', rfl, hspaces', hby'⟩ := ih h hspaces
          exact ⟨c :: spaces', b', y', rest', rfl, List.forall_mem_cons.2 ⟨hc, hspaces'⟩, hby'⟩
      | seam _ hword _ => cases hword.symm.trans hplain
      | quote _ _ hmark => rcases hmark with rfl | rfl <;> cases hc

/-- The word `BY` is read as a keyword. -/
theorem read_by (d : Dialect) (before : Before) {b y : Char} {rest : List Char}
    (hb : b.toLower = 'b') (hy : y.toLower = 'y') (hend : isWordChar (peek rest) = false) :
    read d before (b :: y :: rest) = .ok ⟨.keyword .BY, [b, y], rest⟩ := by
  have hkeyword : d.keyword? [b, y] = some .BY := by
    have hupper : [b, y].map Char.toUpper = ['b', 'y'].map Char.toUpper := by
      rw [← hb, ← hy]
      simp
    rw [Dialect.keyword?, Keyword.find?, hupper]
    cases d <;> decide
  have hword : isWordChar b = true ∧ isWordChar y = true := by
    rw [← isWordChar_toLower b, ← isWordChar_toLower y, hb, hy]
    exact ⟨rfl, rfl⟩
  have hstart : isWordStart (peek [b, y]) = true := by
    change isWordStart b = true
    rw [← isWordStart_toLower, hb]
    rfl
  have hsecond : peek (([b, y] ++ rest).drop 1) ≠ '\x27' := by
    rintro (rfl : y = '\x27')
    cases hy
  have hread := read_word d before hstart (by simpa using hword) hend hsecond
  rw [wordKind, hkeyword] at hread
  exact hread

end Lexeme

end SqlMarkers
