/-
SqlMarkers.Proofs.Bytes — the bytes of a text, read as characters.

The readers of tokens and gaps tell ASCII characters apart and take all others
alike (`Blind`). A character outside ASCII is one such character in a text, and several of
them in the bytes of the text. So a run of characters of a class, and what follows it, are the
same in a text and in its bytes (`Text.takeWhile_bytes`, `Text.dropWhile_bytes`), and a
gap ends at the same place (`Gap.skip_bytes`).
-/
import Mathlib.Data.List.TakeWhile
import SqlMarkers.Proofs.Gaps
import SqlMarkers.Proofs.Letters

namespace SqlMarkers

open CharClass

/-! ## The bytes of a character -/

namespace Text

/-- The bytes of the UTF-8 form of a character, each as the character of its number. -/
def charBytes (c : Char) : List Char := (String.utf8EncodeChar c).map fun b => Char.ofNat b.toNat

@[simp] theorem bytes_nil : bytes [] = [] := rfl

@[simp] theorem bytes_cons (c : Char) (cs : List Char) :
    bytes (c :: cs) = charBytes c ++ bytes cs := by
  simp [bytes, charBytes]

@[simp] theorem bytes_append (as bs : List Char) : bytes (as ++ bs) = bytes as ++ bytes bs := by
  simp [bytes]

@[simp] theorem length_charBytes (c : Char) : (charBytes c).length = c.utf8Size := by
  rw [charBytes, List.length_map, String.length_utf8EncodeChar]

@[simp] theorem length_bytes (cs : List Char) : (bytes cs).length = width cs := by
  induction cs with
  | nil => rfl
  | cons c cs ih => rw [bytes_cons, List.length_append, length_charBytes, ih, width_cons]

theorem charBytes_ne_nil (c : Char) : charBytes c ≠ [] := by
  rw [← List.length_pos_iff, length_charBytes]
  exact c.utf8Size_pos

theorem utf8Size_eq_one_iff {c : Char} : c.utf8Size = 1 ↔ isWide c = false := by
  rw [Char.utf8Size_eq_one_iff, UInt32.le_iff_toNat_le, isWide, decide_eq_false_iff_not, not_le]
  exact Nat.lt_succ_iff.symm

theorem charBytes_ascii {c : Char} (h : isWide c = false) : charBytes c = [c] := by
  have hlow : c.val.toNat < 128 := by simpa [isWide] using h
  have hbyte : c.val.toUInt8.toNat = c.toNat := by
    rw [UInt32.toNat_toUInt8]
    exact Nat.mod_eq_of_lt (by omega)
  rw [charBytes, String.utf8EncodeChar_eq_singleton (utf8Size_eq_one_iff.2 h), List.map_singleton,
    hbyte, Char.ofNat_toNat]

/-- All bytes of a character outside ASCII are outside ASCII. -/
theorem isWide_of_mem_charBytes {c : Char} (h : isWide c = true) :
    ∀ b ∈ charBytes c, isWide b = true := by
  have hhigh : 128 ≤ c.val.toNat := by simpa [isWide] using h
  have hbyte : ∀ n, 128 ≤ n % 256 → isWide (Char.ofNat (UInt8.ofNat n).toNat) = true := by
    intro n hn
    have hall : ∀ b : UInt8, 128 ≤ b.toNat → isWide (Char.ofNat b.toNat) = true := by
      intro b hb
      have hlt := b.toNat_lt
      have hvalid : b.toNat.isValidChar := .inl (by omega)
      rw [isWide, Char.ofNat, dif_pos hvalid]
      exact decide_eq_true hb
    refine hall _ ?_
    rwa [UInt8.toNat_ofNat']
  unfold charBytes String.utf8EncodeChar
  dsimp only
  split
  · omega
  · split
    · simp only [List.map_cons, List.map_nil, List.forall_mem_cons]
      exact ⟨hbyte _ (by omega), hbyte _ (by omega), by simp⟩
    · split
      · simp only [List.map_cons, List.map_nil, List.forall_mem_cons]
        exact ⟨hbyte _ (by omega), hbyte _ (by omega), hbyte _ (by omega), by simp⟩
      · simp only [List.map_cons, List.map_nil, List.forall_mem_cons]
        exact ⟨hbyte _ (by omega), hbyte _ (by omega), hbyte _ (by omega), hbyte _ (by omega),
          by simp⟩

/-- A character outside ASCII has a first byte outside ASCII, and more. -/
theorem charBytes_wide {c : Char} (h : isWide c = true) :
    ∃ b run, charBytes c = b :: run ∧ isWide b = true ∧ ∀ x ∈ run, isWide x = true := by
  obtain ⟨b, run, hc⟩ := List.exists_cons_of_ne_nil (charBytes_ne_nil c)
  have hall := isWide_of_mem_charBytes h
  rw [hc, List.forall_mem_cons] at hall
  exact ⟨b, run, hc, hall.1, hall.2⟩

end Text

/-! ## What takes all characters outside ASCII alike -/

/-- The function takes all characters outside ASCII alike. -/
def Blind {α : Type} (f : Char → α) : Prop :=
  ∀ a b : Char, isWide a = true → isWide b = true → f a = f b

section Classes

variable {α : Type} {c q : Char}

theorem Blind.of_eq {f : Char → α} {x : α} (h : ∀ {c}, isWide c = true → f c = x) : Blind f :=
  fun _ _ ha hb => (h ha).trans (h hb).symm

theorem ne_of_isWide (hc : isWide c = true) (hq : isWide q = false) : c ≠ q := by
  rintro rfl
  rw [hc] at hq
  cases hq

theorem beq_of_isWide (hc : isWide c = true) (hq : isWide q = false) : (c == q) = false :=
  beq_false_of_ne (ne_of_isWide hc hq)

theorem blind_beq (hq : isWide q = false) : Blind (· == q) :=
  Blind.of_eq fun hc => beq_of_isWide hc hq

theorem le_val_of_isWide (h : isWide c = true) : 128 ≤ c.val.toNat := by
  simpa [isWide] using h

theorem isAlpha_of_isWide (h : isWide c = true) : c.isAlpha = false := by
  have hhigh := le_val_of_isWide h
  have hupper : 'Z'.val.toNat = 90 := rfl
  have hlower : 'z'.val.toNat = 122 := rfl
  rw [Bool.eq_false_iff]
  intro halpha
  have hletter : (decide (c.val ≥ 'A'.val ∧ c.val ≤ 'Z'.val) ||
      decide (c.val ≥ 'a'.val) && decide (c.val ≤ 'z'.val)) = true := halpha
  simp only [Bool.or_eq_true, Bool.and_eq_true, decide_eq_true_eq, ge_iff_le,
    UInt32.le_iff_toNat_le] at hletter
  omega

theorem isDigit_of_isWide (h : isWide c = true) : isDigit c = false := by
  have hhigh := le_val_of_isWide h
  rw [Bool.eq_false_iff]
  intro hdigit
  simp only [isDigit, Char.isDigit, Bool.and_eq_true, decide_eq_true_eq, ge_iff_le,
    UInt32.le_iff_toNat_le] at hdigit
  have hnine : '9'.val.toNat = 57 := rfl
  omega

theorem isHexDigit_of_isWide (h : isWide c = true) : isHexDigit c = false := by
  have hhigh : 128 ≤ c.toNat := le_val_of_isWide h
  have hdigit : c.isDigit = false := isDigit_of_isWide h
  simp only [isHexDigit, hdigit, Bool.false_or, Bool.or_eq_false_iff, Bool.and_eq_false_iff,
    decide_eq_false_iff_not]
  omega

theorem isSpace_of_isWide (h : isWide c = true) : isSpace c = false := by
  have hhigh : 128 ≤ c.toNat := le_val_of_isWide h
  simp only [isSpace, Bool.or_eq_false_iff, Bool.and_eq_false_iff, decide_eq_false_iff_not,
    beq_eq_false_iff_ne]
  exact ⟨.inl (by omega), by omega⟩

theorem isWordChar_of_isWide (h : isWide c = true) : isWordChar c = true := by
  simp [isWordChar, h]

theorem isWordStart_of_isWide (h : isWide c = true) : isWordStart c = true := by
  simp [isWordStart, h]

theorem isFloatSuffix_of_isWide (h : isWide c = true) : Token.isFloatSuffix c = false := by
  simp only [Token.isFloatSuffix, beq_of_isWide h (show isWide 'f' = false from rfl),
    beq_of_isWide h (show isWide 'F' = false from rfl),
    beq_of_isWide h (show isWide 'd' = false from rfl),
    beq_of_isWide h (show isWide 'D' = false from rfl), Bool.or_false]

theorem toLower_of_isWide (h : isWide c = true) : c.toLower = c :=
  toLower_of_isAlpha (isAlpha_of_isWide h)

theorem isWide_toUpper (h : isWide c = true) : isWide c.toUpper = true := by
  have hhigh := le_val_of_isWide h
  have hsame : c.toUpper = c := dif_neg fun hval =>
    absurd (hhigh.trans (UInt32.le_iff_toNat_le.1 hval.2)) (by decide)
  rw [hsame, h]

end Classes

/-! ## The bytes of a text -/

namespace Text

/-- The text is ASCII. -/
def Ascii (cs : List Char) : Prop := ∀ c ∈ cs, isWide c = false

instance (cs : List Char) : Decidable (Ascii cs) :=
  List.decidableBAll (fun c => isWide c = false) cs

theorem ascii_nil : Ascii [] := fun _ hc => absurd hc List.not_mem_nil

theorem ascii_cons {c : Char} {cs : List Char} :
    Ascii (c :: cs) ↔ isWide c = false ∧ Ascii cs :=
  List.forall_mem_cons

theorem Ascii.append {as bs : List Char} (has : Ascii as) (hbs : Ascii bs) : Ascii (as ++ bs) :=
  List.forall_mem_append.2 ⟨has, hbs⟩

section Lists

variable {α : Type} {f : Char → α} {p : Char → Bool} {c : Char} {cs front : List Char}

/-- All bytes of a character but the first are outside ASCII. -/
theorem charBytes_eq_cons (c : Char) :
    ∃ b run, charBytes c = b :: run ∧ ∀ x ∈ run, isWide x = true := by
  cases hc : isWide c with
  | false => exact ⟨c, [], charBytes_ascii hc, by simp⟩
  | true =>
      obtain ⟨b, run, hb, -, hrun⟩ := charBytes_wide hc
      exact ⟨b, run, hb, hrun⟩

theorem bytes_ascii (h : Ascii cs) : bytes cs = cs := by
  induction cs with
  | nil => rfl
  | cons c cs ih =>
      obtain ⟨hc, hcs⟩ := List.forall_mem_cons.1 h
      rw [bytes_cons, charBytes_ascii hc, ih hcs, List.singleton_append]

theorem bytes_cons_ascii (h : isWide c = false) (cs : List Char) :
    bytes (c :: cs) = c :: bytes cs := by
  rw [bytes_cons, charBytes_ascii h, List.singleton_append]

theorem isEmpty_bytes (cs : List Char) : (bytes cs).isEmpty = cs.isEmpty := by
  cases cs with
  | nil => rfl
  | cons c cs =>
      obtain ⟨b, run, hc⟩ := List.exists_cons_of_ne_nil (charBytes_ne_nil c)
      rw [bytes_cons, hc]
      rfl

/-- What takes all characters outside ASCII alike takes a character and its bytes alike. -/
theorem apply_of_mem_charBytes (hf : Blind f) {b : Char} (hb : b ∈ charBytes c) : f b = f c := by
  cases hc : isWide c with
  | false =>
      rw [charBytes_ascii hc, List.mem_singleton] at hb
      rw [hb]
  | true => exact hf b c (isWide_of_mem_charBytes hc b hb) hc

theorem peek_bytes (hf : Blind f) (cs : List Char) : f (peek (bytes cs)) = f (peek cs) := by
  cases cs with
  | nil => rfl
  | cons c cs =>
      obtain ⟨b, run, hc⟩ := List.exists_cons_of_ne_nil (charBytes_ne_nil c)
      have hb : b ∈ charBytes c := hc ▸ List.mem_cons_self
      rw [bytes_cons, hc]
      exact apply_of_mem_charBytes hf hb

theorem beq_peek_bytes {q : Char} (hq : isWide q = false) (cs : List Char) :
    (peek (bytes cs) == q) = (peek cs == q) :=
  peek_bytes (blind_beq hq) cs

theorem peek_bytes_ascii (h : isWide (peek cs) = false) : peek (bytes cs) = peek cs := by
  have hfirst : (peek (bytes cs) == peek cs) = true := by rw [beq_peek_bytes h, beq_self_eq_true]
  exact beq_iff_eq.1 hfirst

theorem takeWhile_bytes (hp : Blind p) (cs : List Char) :
    (bytes cs).takeWhile p = bytes (cs.takeWhile p) := by
  induction cs with
  | nil => rfl
  | cons c cs ih =>
      by_cases hc : p c = true
      · rw [bytes_cons, List.takeWhile_cons_of_pos hc, bytes_cons, ← ih]
        exact List.takeWhile_append_of_pos fun b hb => (apply_of_mem_charBytes hp hb).trans hc
      · obtain ⟨b, run, hb⟩ := List.exists_cons_of_ne_nil (charBytes_ne_nil c)
        rw [List.takeWhile_cons_of_neg hc, bytes_cons, hb, List.cons_append,
          List.takeWhile_cons_of_neg, bytes_nil]
        rwa [apply_of_mem_charBytes hp (c := c) (by simp [hb])]

theorem dropWhile_bytes (hp : Blind p) (cs : List Char) :
    (bytes cs).dropWhile p = bytes (cs.dropWhile p) := by
  have hwhole := congrArg bytes (List.takeWhile_append_dropWhile (p := p) (l := cs))
  have hbytes := List.takeWhile_append_dropWhile (p := p) (l := bytes cs)
  rw [takeWhile_bytes hp, ← hwhole, bytes_append] at hbytes
  rw [← hwhole, bytes_append]
  exact List.append_cancel_left hbytes

/-- A run of ASCII characters is the same in the bytes of a text. -/
theorem takeWhile_bytes_narrow (hp : ∀ {c}, isWide c = true → p c = false) (cs : List Char) :
    (bytes cs).takeWhile p = cs.takeWhile p := by
  rw [takeWhile_bytes (Blind.of_eq hp), bytes_ascii]
  intro c hc
  rw [Bool.eq_false_iff]
  intro hwide
  cases (hp hwide).symm.trans (List.mem_takeWhile_imp hc)

/-- Behind ASCII characters in front of a text stand the bytes of what follows them. -/
theorem drop_bytes (h : front <+: cs) (hfront : Ascii front) :
    (bytes cs).drop front.length = bytes (cs.drop front.length) := by
  obtain ⟨tail, rfl⟩ := h
  rw [bytes_append, bytes_ascii hfront, List.drop_left, List.drop_left]

theorem drop_one_bytes (h : isWide (peek cs) = false) :
    (bytes cs).drop 1 = bytes (cs.drop 1) := by
  cases cs with
  | nil => rfl
  | cons c cs =>
      have hc : isWide c = false := h
      rw [bytes_cons_ascii hc]
      rfl

/-- The first characters of a text are ASCII and the same in its bytes, or one of them is
outside ASCII in both. -/
theorem take_bytes_cases (n : Nat) (cs : List Char) :
    ((bytes cs).take n = cs.take n ∧ bytes (cs.take n) = cs.take n ∧
      (bytes cs).drop n = bytes (cs.drop n)) ∨
    ((∃ b ∈ (bytes cs).take n, isWide b = true) ∧ ∃ c ∈ cs.take n, isWide c = true) := by
  induction n generalizing cs with
  | zero => exact .inl ⟨rfl, rfl, rfl⟩
  | succ n ih =>
      cases cs with
      | nil => exact .inl ⟨rfl, rfl, rfl⟩
      | cons c cs =>
          cases hc : isWide c with
          | false =>
              simp only [bytes_cons_ascii hc, List.take_succ_cons, List.drop_succ_cons,
                List.cons.injEq, true_and, List.mem_cons, exists_eq_or_imp, hc,
                Bool.false_eq_true, false_or]
              exact ih cs
          | true =>
              obtain ⟨b, run, hb, hwide, -⟩ := charBytes_wide hc
              refine .inr ⟨⟨b, ?_, hwide⟩, c, by simp, hc⟩
              rw [bytes_cons, hb]
              simp

theorem mem_bytes {b : Char} : b ∈ bytes cs ↔ ∃ c ∈ cs, b ∈ charBytes c := by
  simp only [bytes, charBytes, List.mem_map, List.mem_flatMap]
  grind

/-- A text is compared with an ASCII text as its bytes are. -/
theorem beq_map_bytes {as : List Char} (has : Ascii as) {g : Char → Char}
    (hg : ∀ {c}, isWide c = true → isWide (g c) = true) (cs : List Char) :
    (as == (bytes cs).map g) = (as == cs.map g) := by
  have hwide : ∀ {cs : List Char} {c : Char}, c ∈ cs → isWide c = true → (as == cs.map g) = false := by
    intro cs c hc hwide
    refine beq_false_of_ne ?_
    rintro rfl
    cases (hg hwide).symm.trans (has _ (List.mem_map_of_mem hc))
  by_cases hascii : Ascii cs
  · rw [bytes_ascii hascii]
  · simp only [Ascii, not_forall, Bool.not_eq_false] at hascii
    obtain ⟨c, hc, hcwide⟩ := hascii
    obtain ⟨b, run, hb, hbwide, -⟩ := charBytes_wide hcwide
    rw [hwide hc hcwide, hwide (mem_bytes.2 ⟨c, hc, hb ▸ List.mem_cons_self⟩) hbwide]

end Lists

end Text

/-! ## Gaps -/

namespace Gap

open Text

variable {d : Dialect} {whole : List Char} {n n' : Nat} {c : Char} {cs : List Char}

/-- The text `cs` is what is left of `whole` behind `n` bytes, and its bytes are what is left
of those of `whole` behind characters of `n'` bytes. -/
def At (whole cs : List Char) (n n' : Nat) : Prop :=
  ∃ front, front ++ cs = whole ∧ n = width front ∧ n' = width (Text.bytes front)

theorem At.cons (h : At whole (c :: cs) n n') :
    At whole cs (n + c.utf8Size) (n' + width (charBytes c)) := by
  obtain ⟨front, rfl, rfl, rfl⟩ := h
  exact ⟨front ++ [c], by simp, by simp, by simp⟩

theorem At.cons_ascii (hc : isWide c = false) (h : At whole (c :: cs) n n') :
    At whole cs (n + 1) (n' + 1) := by
  have hcons := h.cons
  rwa [charBytes_ascii hc, width_cons, width_nil, utf8Size_eq_one_iff.2 hc] at hcons

/-- A gap of `whole` that is stepped over by characters and by bytes: what follows it is the
same, and so is the place of a block without end. -/
inductive Outcome.Parallel (whole : List Char) : Outcome → Outcome → Prop
  | passed (n n' : Nat) (rest : List Char) :
      Parallel whole (.passed n rest) (.passed n' (Text.bytes rest))
  | unclosed {cs : List Char} {n n' : Nat} (cause again : LexicalCause) :
      At whole cs n n' → Parallel whole (.unclosed n cause again) (.unclosed n' cause again)

theorem inLine_run (d : Dialect) {run : List Char} (h : ∀ c ∈ run, c ≠ '\n') (n : Nat)
    (cs : List Char) : inLine d n (run ++ cs) = inLine d (n + width run) cs := by
  induction run generalizing n with
  | nil => rfl
  | cons c run ih =>
      rw [List.forall_mem_cons] at h
      rw [List.cons_append, inLine, if_neg (by simpa using h.1), ih h.2, width_cons, Nat.add_assoc]

theorem inBlock_run (d : Dialect) (hint commented : Bool) (start : Nat) {run : List Char}
    (h : ∀ c ∈ run, c ≠ '*') (n : Nat) (cs : List Char) :
    inBlock d hint commented start n (run ++ cs) =
      inBlock d hint commented start (n + width run) cs := by
  induction run generalizing n with
  | nil => rfl
  | cons c run ih =>
      rw [List.forall_mem_cons] at h
      rw [width_cons, ← Nat.add_assoc, ← ih h.2, List.cons_append]
      cases run ++ cs with
      | nil => rw [inBlock, inBlock]
      | cons b tail =>
          rw [inBlock, if_neg]
          simp only [Bool.and_eq_true, beq_iff_eq]
          exact fun hmark => h.1 hmark.1

/-- No gap starts at a character outside ASCII. -/
theorem between_wide (d : Dialect) (commented : Bool) (n : Nat) (hc : isWide c = true)
    (cs : List Char) : between d commented n (c :: cs) = .passed n (c :: cs) := by
  have hspace := isSpace_of_isWide hc
  have hhash := beq_of_isWide hc (show isWide '#' = false from rfl)
  have hdash := beq_of_isWide hc (show isWide '-' = false from rfl)
  have hslash := beq_of_isWide hc (show isWide '/' = false from rfl)
  cases cs with
  | nil => simp only [between, hspace, hhash, Bool.false_and, Bool.or_false]; rfl
  | cons b cs =>
      simp only [between, hspace, hhash, hdash, hslash, Bool.false_and, Bool.or_false]
      rfl

mutual

theorem between_bytes (d : Dialect) (commented : Bool) : ∀ cs {n n'}, At whole cs n n' →
    (between d commented n cs).Parallel whole (between d commented n' (Text.bytes cs))
  | [], n, n', h => by
      rw [bytes_nil, between, between]
      exact .passed n n' []
  | [c], n, n', h => by
      cases hc : isWide c with
      | true =>
          obtain ⟨b, run, hb, hbwide, -⟩ := charBytes_wide hc
          have hbytes : Text.bytes [c] = b :: run := by rw [bytes_cons, hb, bytes_nil, List.append_nil]
          rw [between_wide d commented n hc, hbytes, between_wide d commented n' hbwide, ← hbytes]
          exact .passed n n' [c]
      | false =>
          have hbytes : Text.bytes [c] = [c] := by rw [bytes_cons_ascii hc, bytes_nil]
          rw [hbytes, between, between]
          split
          · exact .passed _ _ []
          · have hpass : Outcome.Parallel whole (.passed n [c]) (.passed n' (Text.bytes [c])) :=
              .passed n n' [c]
            rwa [hbytes] at hpass
  | a :: b :: cs, n, n', h => by
      cases ha : isWide a with
      | true =>
          obtain ⟨x, run, hx, hxwide, -⟩ := charBytes_wide ha
          have hbytes : Text.bytes (a :: b :: cs) = x :: (run ++ Text.bytes (b :: cs)) := by
            rw [bytes_cons, hx, List.cons_append]
          rw [between_wide d commented n ha, hbytes, between_wide d commented n' hxwide, ← hbytes]
          exact .passed n n' (a :: b :: cs)
      | false =>
          obtain ⟨y, run, hy, -⟩ := charBytes_eq_cons b
          have hmore : Text.bytes (b :: cs) = y :: (run ++ Text.bytes cs) := by
            rw [bytes_cons, hy, List.cons_append]
          have hyb : ∀ q, isWide q = false → (y == q) = (b == q) := fun q hq =>
            apply_of_mem_charBytes (blind_beq hq) (hy ▸ List.mem_cons_self)
          have hmark : isWide b = false → run = [] := fun hb => by
            rw [charBytes_ascii hb] at hy
            exact (List.cons.inj hy).2.symm
          have hnext := h.cons_ascii ha
          have hspace := between_bytes d commented (b :: cs) hnext
          have hhash := inLine_bytes d (b :: cs) hnext
          rw [bytes_cons_ascii ha, hmore, between, between, hyb '-' rfl, hyb '/' rfl, hyb '*' rfl,
            ← hmore]
          split
          · exact hspace
          · split
            · exact hhash
            · split
              · rename_i hab
                have hb : isWide b = false := by
                  simp only [Bool.or_eq_true, Bool.and_eq_true, beq_iff_eq] at hab
                  rcases hab with ⟨-, rfl⟩ | ⟨-, rfl⟩ <;> rfl
                rw [hmark hb, List.nil_append]
                exact inLine_bytes d cs (hnext.cons_ascii hb)
              · split
                · rename_i hab
                  have hb : isWide b = false := by
                    simp only [Bool.and_eq_true, beq_iff_eq] at hab
                    rw [hab.2]
                    rfl
                  rw [hmark hb, List.nil_append, beq_peek_bytes rfl]
                  exact inBlock_bytes d _ commented h cs (hnext.cons_ascii hb)
                · rw [← bytes_cons_ascii ha]
                  exact .passed n n' (a :: b :: cs)

theorem inLine_bytes (d : Dialect) : ∀ cs {n n'}, At whole cs n n' →
    (inLine d n cs).Parallel whole (inLine d n' (Text.bytes cs))
  | [], n, n', h => by
      rw [bytes_nil, inLine, inLine]
      exact .passed n n' []
  | c :: cs, n, n', h => by
      have hmore := inLine_bytes d cs h.cons
      cases hc : isWide c with
      | true =>
          have hend := ne_of_isWide hc (show isWide '\n' = false from rfl)
          rw [inLine, if_neg (by simpa using hend), bytes_cons,
            inLine_run d fun b hb => ne_of_isWide (isWide_of_mem_charBytes hc b hb) rfl]
          exact hmore
      | false =>
          rw [charBytes_ascii hc] at hmore
          rw [bytes_cons_ascii hc, inLine, inLine]
          split
          · exact between_bytes d true cs (h.cons_ascii hc)
          · exact hmore

theorem inBlock_bytes (d : Dialect) (hint commented : Bool) {behind : List Char} {start start' : Nat}
    (hstart : At whole behind start start') : ∀ cs {n n'}, At whole cs n n' →
    (inBlock d hint commented start n cs).Parallel whole
      (inBlock d hint commented start' n' (Text.bytes cs))
  | [], n, n', h => by
      rw [bytes_nil, inBlock, inBlock]
      exact .unclosed _ _ hstart
  | [c], n, n', h => by
      cases hc : isWide c with
      | true =>
          rw [bytes_cons,
            inBlock_run d _ _ _ fun b hb => ne_of_isWide (isWide_of_mem_charBytes hc b hb) rfl,
            bytes_nil, inBlock, inBlock]
          exact .unclosed _ _ hstart
      | false =>
          rw [bytes_cons_ascii hc, bytes_nil, inBlock, inBlock]
          exact .unclosed _ _ hstart
  | a :: b :: cs, n, n', h => by
      have hmore := inBlock_bytes d hint commented hstart (b :: cs) h.cons
      cases ha : isWide a with
      | true =>
          have hstar := ne_of_isWide ha (show isWide '*' = false from rfl)
          rw [inBlock, if_neg (by simp [hstar]), bytes_cons,
            inBlock_run d _ _ _ fun b hb => ne_of_isWide (isWide_of_mem_charBytes ha b hb) rfl]
          exact hmore
      | false =>
          obtain ⟨y, run, hy, -⟩ := charBytes_eq_cons b
          have hbytes : Text.bytes (b :: cs) = y :: (run ++ Text.bytes cs) := by
            rw [bytes_cons, hy, List.cons_append]
          have hslash : (y == '/') = (b == '/') :=
            apply_of_mem_charBytes (blind_beq rfl) (hy ▸ List.mem_cons_self)
          rw [charBytes_ascii ha] at hmore
          rw [bytes_cons_ascii ha, hbytes, inBlock, inBlock, hslash, ← hbytes]
          split
          · rename_i hab
            have hb : isWide b = false := by
              simp only [Bool.and_eq_true, beq_iff_eq] at hab
              rw [hab.2]
              rfl
            rw [charBytes_ascii hb] at hy
            rw [← (List.cons.inj hy).2, List.nil_append]
            exact between_bytes d _ cs ((h.cons_ascii ha).cons_ascii hb)
          · exact hmore

end

/-- A gap is stepped over alike in the bytes of a text. -/
theorem skip_bytes (d : Dialect) (cs : List Char) :
    (skip d cs).Parallel cs (skip d (Text.bytes cs)) :=
  between_bytes d false cs ⟨[], rfl, rfl, rfl⟩

end Gap

end SqlMarkers
