/-
SqlMarkers.Text — text as a list of characters, measured and cut in bytes.

Every position the library reports is a byte offset into the UTF-8 form of
a statement, while everything that reads a statement walks it character by
character. This module joins the two views: `width` is the byte length of
a list of characters, and `dropWidth?`, `takeWidth?` and `slice?` cut such a
list at byte offsets, refusing an offset that falls inside a character or
past the end.

Comparison of names and keywords ignores the case of ASCII letters only;
`folded` and `sameWord` are that comparison.
-/
namespace SqlMarkers.Text

/-! ## Width -/

/-- The number of bytes of the UTF-8 form of `cs`. -/
def width : List Char → Nat
  | [] => 0
  | c :: cs => c.utf8Size + width cs

@[simp] theorem width_nil : width [] = 0 := rfl

@[simp] theorem width_cons (c : Char) (cs : List Char) :
    width (c :: cs) = c.utf8Size + width cs := rfl

@[simp] theorem width_append (as bs : List Char) :
    width (as ++ bs) = width as + width bs := by
  induction as with
  | nil => simp
  | cons a as ih => simp [ih, Nat.add_assoc]

/-! ## Cuts -/

/-- What follows the first `n` bytes; `none` when that cut falls inside a
character or past the end. -/
def dropWidth? : Nat → List Char → Option (List Char)
  | 0, cs => some cs
  | _ + 1, [] => none
  | n + 1, c :: cs =>
      if c.utf8Size ≤ n + 1 then dropWidth? (n + 1 - c.utf8Size) cs else none

/-- The first `n` bytes; `none` when that cut falls inside a character or
past the end. -/
def takeWidth? : Nat → List Char → Option (List Char)
  | 0, _ => some []
  | _ + 1, [] => none
  | n + 1, c :: cs =>
      if c.utf8Size ≤ n + 1 then (takeWidth? (n + 1 - c.utf8Size) cs).map (c :: ·)
      else none

/-- The text between two byte offsets, when both are cuts and in order. -/
def slice? (start stop : Nat) (cs : List Char) : Option (List Char) :=
  if start ≤ stop then (dropWidth? start cs).bind (takeWidth? (stop - start)) else none

@[simp] theorem dropWidth?_zero (cs : List Char) : dropWidth? 0 cs = some cs := by
  cases cs <;> rfl

@[simp] theorem takeWidth?_zero (cs : List Char) : takeWidth? 0 cs = some [] := by
  cases cs <;> rfl

/-- Cutting off exactly the bytes of a leading part leaves what follows it. -/
@[simp] theorem dropWidth?_width_append (as bs : List Char) :
    dropWidth? (width as) (as ++ bs) = some bs := by
  induction as with
  | nil => simp
  | cons a as ih =>
      obtain ⟨n, hn⟩ : ∃ n, width (a :: as) = n + 1 :=
        ⟨width (a :: as) - 1, by have := a.utf8Size_pos; simp; omega⟩
      rw [hn, List.cons_append, dropWidth?]
      simp only [width_cons] at hn
      rw [if_pos (by omega), show n + 1 - a.utf8Size = width as by omega, ih]

/-- Taking exactly the bytes of a leading part gives that part. -/
@[simp] theorem takeWidth?_width_append (as bs : List Char) :
    takeWidth? (width as) (as ++ bs) = some as := by
  induction as with
  | nil => simp
  | cons a as ih =>
      obtain ⟨n, hn⟩ : ∃ n, width (a :: as) = n + 1 :=
        ⟨width (a :: as) - 1, by have := a.utf8Size_pos; simp; omega⟩
      rw [hn, List.cons_append, takeWidth?]
      simp only [width_cons] at hn
      rw [if_pos (by omega), show n + 1 - a.utf8Size = width as by omega, ih]
      rfl

/-- The text from byte offset `n` on, moved back to the start of a character
that `n` cuts; empty past the end. -/
def tailFrom : Nat → List Char → List Char
  | _, [] => []
  | n, c :: cs => if c.utf8Size ≤ n then tailFrom (n - c.utf8Size) cs else c :: cs

/-- The bytes of the UTF-8 form of `cs`, each as the character of its number. -/
def bytes (cs : List Char) : List Char :=
  (cs.flatMap String.utf8EncodeChar).map fun b => Char.ofNat b.toNat

/-- The byte at `offset` in the UTF-8 form of `s`, if there is one. -/
def byteAt? (s : String) (offset : Nat) : Option UInt8 :=
  s.toUTF8.data[offset]?

/-! ## Words -/

/-- Whether two texts are equal but for the case of ASCII letters. -/
def sameWord (a b : String) : Bool :=
  a.toList.map Char.toLower == b.toList.map Char.toLower

/-- `s` with its ASCII letters in lower case. -/
def folded (s : String) : String :=
  String.ofList (s.toList.map Char.toLower)

/-- `s` with its ASCII letters in upper case. -/
def raised (s : String) : String :=
  String.ofList (s.toList.map Char.toUpper)

/-- `s` written with every `c` in it doubled. -/
def doubling (c : Char) : List Char → List Char
  | [] => []
  | a :: as => if a = c then a :: a :: doubling c as else a :: doubling c as

/-- Replaces each pair of `c`, read from the left, by a single one. -/
def undoubling (c : Char) : List Char → List Char
  | [] => []
  | [a] => [a]
  | a :: b :: cs =>
      if a = c ∧ b = c then c :: undoubling c cs else a :: undoubling c (b :: cs)

end SqlMarkers.Text
