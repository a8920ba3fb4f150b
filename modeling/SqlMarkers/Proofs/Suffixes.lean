/-
SqlMarkers.Proofs.Suffixes — a suffix on every marker changes the tokens of the
markers and no others.

A suffix is a `_` and any letters, digits and `_` behind it. It is put behind an
unquoted marker and in front of the quote that closes a quoted one
(`Text.suffixed`). `tokenize_suffixed` says what the text with all its markers
suffixed reads as: the tokens of the source, each moved by what was put in front of it,
with names for the markers (`Parsed.suffixedToken`).

The text behind a token is akin to what it was (`Akin`), since a suffix starts
with the one character that goes on a word but no number, and a quoted name is
read up to its quote. What is read in front of it is therefore the same, unless it
asks for the word `BY` next (`Lexeme.beforeBy`); but `BY` is reserved and so no
marker. `Suffixed` is the pairing of the two lists of tokens, and each part of the
result is an induction over it.
-/
import SqlMarkers.Proofs.Fates
import SqlMarkers.Proofs.Lookahead
import SqlMarkers.Proofs.Replacement
import SqlMarkers.Proofs.Rereading

namespace SqlMarkers

open CharClass

/-! ## Names with a suffix -/

namespace Text

/-- Whether a name is in back-quotes or in brackets. -/
def isQuoted (name : List Char) : Bool := name.head? == some '\x60' || name.head? == some '['

/-- A name with `x` put behind it, or in front of the quote that closes it. -/
def suffixed (x name : List Char) : List Char :=
  if isQuoted name then name.dropLast ++ x ++ name.getLast?.toList else name ++ x

/-- The texts that are put behind names: a `_` and letters, digits and `_`. -/
structure IsSuffix (x : List Char) : Prop where
  starts : x.head? = some '_'
  letters : ∀ c ∈ x, (c.isAlphanum || c == '_') = true

variable {x name : List Char}

theorem width_suffixed (h : name ≠ []) : width (suffixed x name) = width name + width x := by
  rw [suffixed]
  split
  · obtain ⟨inner, quote, rfl⟩ := (List.eq_nil_or_concat name).resolve_left h
    rw [List.concat_eq_append, List.dropLast_concat, List.getLast?_concat, Option.toList_some]
    simp only [width_append]
    omega
  · rw [width_append]

theorem IsSuffix.isWordChar (h : IsSuffix x) : ∀ c ∈ x, isWordChar c = true := by
  intro c hc
  have := h.letters c hc
  simp only [CharClass.isWordChar, Bool.or_eq_true] at this ⊢
  tauto

theorem IsSuffix.exists_cons (h : IsSuffix x) : ∃ tail, x = '_' :: tail := by
  cases x with
  | nil => cases h.starts
  | cons c tail => exact ⟨tail, by rw [Option.some.inj h.starts]⟩

end Text

namespace Lexeme

/-! ## Reading names with a suffix -/

/-- The quote that closes a name. -/
def closing (mark : Char) : Char := if mark == '[' then ']' else mark

/-- The two shapes of a name in front of a text: quoted, or an unquoted word. -/
inductive Shape (d : Dialect) : Lexeme → Prop
  | quoted {mark : Char} {inner rest : List Char} :
      mark = '\x60' ∨ mark = '[' ∧ d.features.bracketNames = true →
      (∀ tail, close? (closing mark) false (inner ++ tail) =
        (close? (closing mark) false tail).map fun (body, rest) => (inner ++ body, rest)) →
      close? (closing mark) false (closing mark :: rest) = some ([closing mark], rest) →
      Shape d ⟨.identifier, mark :: (inner ++ [closing mark]), rest⟩
  | word {word rest : List Char} :
      isWordStart (peek word) = true → (∀ c ∈ word, isWordChar c = true) →
      isWordChar (peek rest) = false → Shape d ⟨wordKind d word rest, word, rest⟩

variable {d : Dialect} {cs rest x : List Char} {l : Lexeme}

theorem isWordChar_of_isWordStart {c : Char} (h : isWordStart c = true) : isWordChar c = true := by
  simp only [isWordStart, isWordChar, Char.isAlphanum, Bool.or_eq_true] at h ⊢
  tauto

/-- A name that is read has one of the two shapes. -/
theorem shape_of_name (h : name d cs = .ok l) (hstart : startsName d (peek cs) = true) :
    Shape d l := by
  cases cs with
  | nil => cases d <;> cases hstart
  | cons c cs =>
      rw [name] at h
      split at h
      · rename_i hquoted
        split at h
        · rename_i body behind hclose
          cases h
          obtain ⟨inner, rfl, hquote, htail⟩ := close?_cut hclose
          refine .quoted ?_ htail hquote
          simpa using hquoted
        · cases h
      · rename_i hplain
        cases h
        have hc : isWordStart c = true := by
          simp only [startsName, peek, List.headD_cons, Bool.or_eq_true] at hstart hplain
          tauto
        refine .word ?_ (fun c hc => List.mem_takeWhile_imp hc) ?_
        · rw [List.takeWhile_cons_of_pos (isWordChar_of_isWordStart hc)]
          exact hc
        · have hend := List.head?_dropWhile_not isWordChar (c :: cs)
          generalize (c :: cs).dropWhile isWordChar = rest at hend ⊢
          cases rest with
          | nil => rfl
          | cons c' rest => simpa [peek] using hend

namespace Shape

theorem isQuoted_quoted {mark : Char} {tail : List Char}
    (h : mark = '\x60' ∨ mark = '[' ∧ d.features.bracketNames = true) :
    Text.isQuoted (mark :: tail) = true := by
  rcases h with rfl | ⟨rfl, -⟩ <;> rfl

theorem isQuoted_word {word : List Char} (h : isWordStart (peek word) = true) :
    Text.isQuoted word = false := by
  cases word with
  | nil => rfl
  | cons c word =>
      simp only [Text.isQuoted, List.head?_cons, Bool.or_eq_false_iff, beq_eq_false_iff_ne, ne_eq,
        Option.some.injEq]
      constructor <;> rintro rfl <;> cases h

theorem suffixed_quoted {mark quote : Char} {inner : List Char}
    (h : Text.isQuoted (mark :: (inner ++ [quote])) = true) :
    Text.suffixed x (mark :: (inner ++ [quote])) = mark :: (inner ++ (x ++ [quote])) := by
  rw [Text.suffixed, if_pos h, ← List.cons_append, List.dropLast_concat, List.getLast?_concat]
  simp

theorem name_marked {mark : Char} {body tail : List Char}
    (hmark : (mark == '\x60' || (mark == '[' && d.features.bracketNames)) = true)
    (hclose : close? (closing mark) false tail = some (body, rest)) :
    name d (mark :: tail) = .ok ⟨.identifier, mark :: body, rest⟩ := by
  rw [name, if_pos hmark]
  unfold closing at hclose
  rw [hclose]

/-- A name with a suffix is read as a name. -/
theorem read_suffixed (h : Shape d l) (b : Before) (hx : Text.IsSuffix x)
    (hkey : Text.isQuoted l.text = false → d.keyword? (l.text ++ x) = none)
    (hhead : rest.head? = l.rest.head?) :
    read d b (Text.suffixed x l.text ++ rest) =
      .ok ⟨.identifier, Text.suffixed x l.text, rest⟩ := by
  cases h with
  | @quoted mark inner behind hmark htail hquote =>
      have hclose : close? (closing mark) false (inner ++ (x ++ (closing mark :: rest))) =
          some (inner ++ (x ++ [closing mark]), rest) := by
        have hrun : ∀ c ∈ x, c ≠ '\\' ∧ c ≠ closing mark := by
          intro c hc
          have hword := hx.isWordChar c hc
          rcases hmark with rfl | ⟨rfl, -⟩ <;> constructor <;> rintro rfl <;> cases hword
        rw [htail, close?_run hrun, close?_quote hquote hhead]
        rfl
      have hmarked : (mark == '\x60' || (mark == '[' && d.features.bracketNames)) = true := by
        simpa using hmark
      rw [suffixed_quoted (isQuoted_quoted hmark)]
      simp only [List.cons_append, List.append_assoc, List.nil_append]
      rw [read_eq_name b, name_marked hmarked hclose]
      · rcases hmark with rfl | ⟨rfl, hbracket⟩
        · rfl
        · exact hbracket
      · rintro ⟨hnational, -⟩
        rcases hmark with rfl | ⟨rfl, -⟩ <;> rcases hnational with hnational | hnational <;>
          cases hnational
  | @word word behind hstart hall hend =>
      have hplain := isQuoted_word hstart
      have hkind : wordKind d (word ++ x) rest = .identifier := by rw [wordKind, hkey hplain]
      have hall' : ∀ c ∈ word ++ x, isWordChar c = true :=
        List.forall_mem_append.2 ⟨hall, hx.isWordChar⟩
      obtain ⟨c, word, rfl⟩ : ∃ c tail, word = c :: tail := by
        cases word with
        | nil => cases hstart
        | cons c word => exact ⟨c, word, rfl⟩
      have hend' : isWordChar (peek rest) = false := by
        rw [peek, List.headD_eq_head?_getD, hhead, ← List.headD_eq_head?_getD]
        exact hend
      -- The second character belongs to the word or to the suffix.
      have hsecond : peek ((c :: word ++ x ++ rest).drop 1) ≠ '\x27' := by
        obtain ⟨tail, rfl⟩ := hx.exists_cons
        intro hquote
        cases word with
        | nil => cases hquote
        | cons c' word =>
            obtain rfl : c' = '\x27' := hquote
            cases hall '\x27' (by simp)
      have hstart' : isWordStart (peek (c :: word ++ x)) = true := hstart
      have hread := read_word d b hstart' hall' hend' hsecond
      rw [hkind] at hread
      rw [Text.suffixed, hplain]
      exact hread

/-- The text with the name is akin to the text with the suffixed one. -/
theorem akin (h : Shape d l) (hx : Text.IsSuffix x) (rest : List Char) :
    Akin (l.text ++ l.rest) (Text.suffixed x l.text ++ rest) := by
  cases h with
  | @quoted mark inner behind hmark _ _ =>
      rw [suffixed_quoted (isQuoted_quoted hmark)]
      exact .quote _ _ (hmark.imp_right And.left)
  | @word word behind hstart hall hend =>
      obtain ⟨tail, rfl⟩ := hx.exists_cons
      obtain ⟨front, c, rfl⟩ : ∃ front c, word = front ++ [c] := by
        rcases List.eq_nil_or_concat word with rfl | ⟨front, c, rfl⟩
        · cases hstart
        · exact ⟨front, c, List.concat_eq_append⟩
      rw [Text.suffixed, isQuoted_word hstart]
      simp only [Bool.false_eq_true, if_false, List.append_assoc, List.cons_append]
      refine Akin.append front (.seam _ ?_ hend)
      exact hall c (by simp)

/-- A name with a suffix ends as the name does. -/
theorem after_suffixed (h : Shape d l) (hname : l.kind.isName = true) (hx : Text.IsSuffix x)
    (rest : List Char) (gap : Nat) :
    TokenStream.after (some ⟨.identifier, Text.suffixed x l.text, rest⟩) gap =
      TokenStream.after (some l) gap := by
  have hkind : l.kind.endsOperand = true := by
    cases hkind : l.kind with
    | identifier => rfl
    | keyword k =>
        rw [hkind] at hname
        simp [Kind.endsOperand, show k.isNameLike = true from hname]
    | integer | float | hex | chars | symbol _ | sqlVariable | endOfInput =>
        rw [hkind] at hname
        cases hname
  have hlast : (Text.suffixed x l.text).getLast?.map isWordChar =
      l.text.getLast?.map isWordChar := by
    cases h with
    | @quoted mark inner behind hmark _ _ =>
        dsimp only
        rw [suffixed_quoted (isQuoted_quoted hmark), ← List.append_assoc, ← List.cons_append,
          ← List.cons_append, List.getLast?_concat, ← List.cons_append, List.getLast?_concat]
    | @word word behind hstart hall hend =>
        have hends : ∀ cs : List Char, cs ≠ [] → (∀ c ∈ cs, isWordChar c = true) →
            cs.getLast?.map isWordChar = some true := by
          intro cs hne hcs
          rw [List.getLast?_eq_getLast_of_ne_nil hne, Option.map_some, hcs _ (List.getLast_mem hne)]
        have hne : word ≠ [] := by
          rintro rfl
          cases hstart
        rw [Text.suffixed, isQuoted_word hstart, hends word hne hall]
        exact hends (word ++ x) (by simp [hne]) (List.forall_mem_append.2 ⟨hall, hx.isWordChar⟩)
  simp only [TokenStream.after, hkind, hlast]
  rfl

theorem bare (h : Shape d l) (hx : Text.IsSuffix x) (hbare : Gap.Bare d (l.text ++ l.rest))
    (rest : List Char) : Gap.Bare d (Text.suffixed x l.text ++ rest) := by
  have hspace : isSpace (peek (Text.suffixed x l.text ++ rest)) = false := by
    rw [(h.akin hx rest).peek_eq]
    exact hbare.space
  cases h with
  | @quoted mark inner behind hmark _ _ =>
      dsimp only at hspace ⊢
      rw [suffixed_quoted (isQuoted_quoted hmark)] at hspace ⊢
      rcases hmark with rfl | ⟨rfl, -⟩ <;>
        exact Gap.bare_cons hspace (by decide) (by decide) (by decide)
  | @word word behind hstart _ _ =>
      cases word with
      | nil => cases hstart
      | cons c word =>
          dsimp only at hspace ⊢
          rw [Text.suffixed, isQuoted_word hstart] at hspace ⊢
          refine Gap.bare_cons hspace ?_ ?_ ?_ <;> rintro rfl <;> cases hstart

end Shape

end Lexeme

/-! ## Tokens with a suffix -/

namespace Token

/-- The token `n` bytes further on. -/
def moved (n : Nat) (t : Token) : Token := { t with span := ⟨t.span.start + n, t.span.stop + n⟩ }

/-- The name that a token is with `x` put behind it, `n` bytes further on. -/
def suffixed (x : List Char) (n : Nat) (t : Token) : Token :=
  ⟨.identifier, String.ofList (Text.suffixed x t.text.toList),
    ⟨t.span.start + n, t.span.stop + n + Text.width x⟩⟩

end Token

/-- A list of gaps and tokens, and the list in which the tokens that the markers cover
are suffixed. `n` bytes were put in front of both. -/
inductive Suffixed (x : List Char) : Nat → List Marker → List Spaced → List Spaced → Prop
  | done (n : Nat) : Suffixed x n [] [] []
  | keep {n : Nat} {ms : List Marker} {y : Spaced} {ys zs : List Spaced} :
      Suffixed x n ms ys zs → Suffixed x n ms (y :: ys) (⟨y.gap, y.token.moved n⟩ :: zs)
  | mark {n : Nat} {m : Marker} {ms : List Marker} {y : Spaced} {ys zs : List Spaced} :
      m.Covers y.token → y.token.isName = true → Suffixed x (n + Text.width x) ms ys zs →
      Suffixed x n (m :: ms) (y :: ys) (⟨y.gap, y.token.suffixed x n⟩ :: zs)

/-! ## Reading the suffixed text -/

/-- The second list of gaps and tokens is read, and a token in front of its text is read
as in front of the text of the first. -/
structure Rereads (d : Dialect) (offset : Nat) (previous : Option Lexeme) (ys zs : List Spaced)
    (last : List Char) : Prop where
  reads : Reads d offset previous zs last
  akin : Akin (Spaced.text ys last) (Spaced.text zs last)
  beforeBy : Lexeme.beforeBy (Spaced.text zs last) = Lexeme.beforeBy (Spaced.text ys last)

namespace Rereads

variable {d : Dialect} {offset n : Nat} {previous previous' : Option Lexeme} {x : List Char}
  {y : Spaced} {ys zs : List Spaced} {last : List Char}

/-- One more token, which is kept. -/
theorem keep (hreads : Reads d offset previous (y :: ys) last)
    (hprevious : ∀ gap, TokenStream.after previous' gap = TokenStream.after previous gap)
    (h : Rereads d (offset + Text.width y.gap + Text.width y.token.text.toList + n)
      (some ((y.token.moved n).lexeme (Spaced.text zs last))) ys zs last) :
    Rereads d (offset + n) previous' (y :: ys) (⟨y.gap, y.token.moved n⟩ :: zs) last := by
  have hfirst := hreads.first_of_beforeBy
  have hakin : Akin (Spaced.text (y :: ys) last)
      (Spaced.text (⟨y.gap, y.token.moved n⟩ :: zs) last) := by
    rw [Spaced.text_cons, Spaced.text_cons]
    exact (h.akin.append _).append _
  cases hreads with
  | token hspan hgap hbare hread _ =>
      have hnonempty := (Lexeme.read_splits d _ hread).nonempty
      refine ⟨.token ?_ hgap (hbare.regraft hnonempty h.akin.head?_eq) ?_ ?_, hakin, ?_⟩
      · rw [Token.moved, hspan]
        simp only [Span.mk.injEq]
        omega
      · rw [hprevious]
        exact Lexeme.read_regraft d _ hread h.akin h.beforeBy
      · have hoffset : offset + n + Text.width y.gap + Text.width y.token.text.toList =
            offset + Text.width y.gap + Text.width y.token.text.toList + n := by omega
        change Reads d (offset + n + Text.width y.gap + Text.width y.token.text.toList) _ _ _
        rw [hoffset]
        exact h.reads
      · rw [Bool.eq_iff_iff]
        refine ⟨Lexeme.beforeBy_of_akin hakin, fun hthere => ?_⟩
        rw [Spaced.text_cons]
        exact (hfirst hthere).2.2 _ h.akin.peek_eq

/-- One more token, which is suffixed. It is a name, so it is not the word `BY`. -/
theorem mark (hreads : Reads d offset previous (y :: ys) last)
    (hprevious : ∀ gap, TokenStream.after previous' gap = TokenStream.after previous gap)
    (hx : Text.IsSuffix x) (hname : y.token.isName = true)
    (hkey : Text.isQuoted y.token.text.toList = false →
      d.keyword? (y.token.text.toList ++ x) = none)
    (h : (∀ gap, TokenStream.after (some ((y.token.suffixed x n).lexeme (Spaced.text zs last))) gap =
        TokenStream.after (some (y.token.lexeme (Spaced.text ys last))) gap) →
      Rereads d (offset + Text.width y.gap + Text.width y.token.text.toList + (n + Text.width x))
        (some ((y.token.suffixed x n).lexeme (Spaced.text zs last))) ys zs last) :
    Rereads d (offset + n) previous' (y :: ys) (⟨y.gap, y.token.suffixed x n⟩ :: zs) last := by
  have hfirst := hreads.first_of_beforeBy
  have htext : (y.token.suffixed x n).text.toList = Text.suffixed x y.token.text.toList :=
    String.toList_ofList
  cases hreads with
  | token hspan hgap hbare hread _ =>
      obtain ⟨hread', hstart⟩ := Lexeme.name_of_read hread (Kind.isWord_of_isName hname)
      have hshape := Lexeme.shape_of_name hread' hstart
      have hnonempty : y.token.text.toList ≠ [] := (Lexeme.read_splits d _ hread).nonempty
      have hrest := h fun gap => by
        rw [Token.lexeme, htext]
        exact hshape.after_suffixed hname hx (Spaced.text zs last) gap
      have hakin : Akin (Spaced.text (y :: ys) last)
          (Spaced.text (⟨y.gap, y.token.suffixed x n⟩ :: zs) last) := by
        rw [Spaced.text_cons, Spaced.text_cons, htext]
        exact (hshape.akin hx _).append _
      refine ⟨.token ?_ hgap ?_ ?_ ?_, hakin, ?_⟩
      · rw [htext, Text.width_suffixed hnonempty, Token.suffixed, hspan]
        simp only [Span.mk.injEq]
        omega
      · rw [htext]
        exact hshape.bare hx hbare _
      · rw [hprevious, htext, Token.lexeme, htext]
        exact hshape.read_suffixed _ hx hkey hrest.akin.head?_eq
      · have hoffset : offset + n + Text.width y.gap +
            (Text.width y.token.text.toList + Text.width x) =
            offset + Text.width y.gap + Text.width y.token.text.toList + (n + Text.width x) := by
          omega
        rw [htext, Text.width_suffixed hnonempty, hoffset]
        exact hrest.reads
      · have hnone : Lexeme.beforeBy (Spaced.text (y :: ys) last) = false := by
          rw [Bool.eq_false_iff]
          intro hthere
          rw [Token.isName, (hfirst hthere).1] at hname
          cases hname
        rw [hnone, Bool.eq_false_iff]
        intro hthere
        rw [Lexeme.beforeBy_of_akin hakin hthere] at hnone
        cases hnone

end Rereads

/-- The suffixed list is read behind every token that ends as the one in front of the
list. -/
theorem Suffixed.rereads {x : List Char} {n : Nat} {ms : List Marker} {ys zs : List Spaced}
    {d : Dialect} {offset : Nat} {previous previous' : Option Lexeme} {last : List Char}
    (h : Suffixed x n ms ys zs) (hx : Text.IsSuffix x)
    (hkeys : ∀ m ∈ ms, Text.isQuoted m.literal.toList = false →
      d.keyword? (m.literal.toList ++ x) = none)
    (hreads : Reads d offset previous ys last)
    (hprevious : ∀ gap, TokenStream.after previous' gap = TokenStream.after previous gap) :
    Rereads d (offset + n) previous' ys zs last := by
  induction h generalizing offset previous previous' with
  | done n =>
      cases hreads with
      | done hskip => exact ⟨.done hskip, .refl _, rfl⟩
  | keep _ ih => exact .keep hreads hprevious (ih hkeys hreads.tail fun _ => rfl)
  | mark hcovers hname _ ih =>
      obtain ⟨hkey, hkeys⟩ := List.forall_mem_cons.1 hkeys
      rw [← hcovers.1] at hkey
      exact .mark hreads hprevious hx hname hkey (ih hkeys hreads.tail)

/-! ## The suffixed text and its tokens -/

namespace Reads

variable {d : Dialect} {offset : Nat} {previous : Option Lexeme} {ys : List Spaced}
  {last : List Char}

theorem le_start (h : Reads d offset previous ys last) :
    ∀ y ∈ ys, offset ≤ y.token.span.start := by
  induction h with
  | done => simp
  | token hspan _ _ _ _ ih =>
      refine List.forall_mem_cons.2 ⟨?_, fun y hy => ?_⟩
      · rw [hspan]
        exact Nat.le_add_right _ _
      · have := ih y hy
        omega

theorem start_lt (h : Reads d offset previous ys last) :
    ∀ y ∈ ys, y.token.span.start < offset + Text.width (Spaced.text ys last) := by
  induction h with
  | done => simp
  | token hspan _ _ hread _ ih =>
      have hpos := Text.width_pos (Lexeme.read_splits d _ hread).nonempty
      rw [Token.lexeme_text] at hpos
      rw [Spaced.text_cons, Text.width_append, Text.width_append]
      refine List.forall_mem_cons.2 ⟨?_, fun y hy => ?_⟩
      · rw [hspan]
        dsimp only
        omega
      · have := ih y hy
        omega

/-- Tokens that are read ascend. -/
theorem ascending (h : Reads d offset previous ys last) :
    ys.Pairwise fun a b => a.token.span.start < b.token.span.start := by
  induction h with
  | done => exact .nil
  | token hspan _ _ hread hrest ih =>
      refine List.pairwise_cons.2 ⟨fun z hz => ?_, ih⟩
      have hle := hrest.le_start z hz
      have hpos := Text.width_pos (Lexeme.read_splits d _ hread).nonempty
      rw [Token.lexeme_text] at hpos
      rw [hspan]
      dsimp only
      omega

end Reads

/-- The answer that puts `x` behind a marker. -/
def Marker.suffixed (x : List Char) (m : Marker) : Option String :=
  some (String.ofList (Text.suffixed x m.literal.toList))

/-- What a token becomes when `x` is put behind each of the markers: it moves by what is
put in front of it, and it is suffixed if a marker stands there. -/
def Marker.suffixedToken (x : List Char) (ms : List Marker) (t : Token) : Token :=
  let n := Text.width x * ms.countP fun m => decide (m.start < t.span.start)
  if ms.any fun m => m.start == t.span.start then t.suffixed x n else t.moved n

section SuffixedToken

variable {x : List Char} {front ms : List Marker} {t : Token}

theorem Marker.countP_start (hfront : ∀ m ∈ front, m.start < t.span.start)
    (hms : ∀ m ∈ ms, t.span.start ≤ m.start) :
    (front ++ ms).countP (fun m => decide (m.start < t.span.start)) = front.length := by
  rw [List.countP_append, List.countP_eq_length.2 (by simpa using hfront),
    List.countP_eq_zero.2 (by simpa using hms), Nat.add_zero]

/-- A token between two markers moves. -/
theorem Marker.suffixedToken_between (hfront : ∀ m ∈ front, m.start < t.span.start)
    (hms : ∀ m ∈ ms, t.span.start < m.start) :
    suffixedToken x (front ++ ms) t = t.moved (Text.width x * front.length) := by
  have hnone : (front ++ ms).any (fun m => m.start == t.span.start) = false := by
    rw [List.any_eq_false]
    intro m hm
    rw [beq_iff_eq]
    rcases List.mem_append.1 hm with hm | hm
    · exact Nat.ne_of_lt (hfront m hm)
    · exact Nat.ne_of_gt (hms m hm)
  have hle : ∀ m ∈ ms, t.span.start ≤ m.start := fun m hm => Nat.le_of_lt (hms m hm)
  rw [suffixedToken, countP_start hfront hle, hnone]
  rfl

/-- A token at a marker is suffixed. -/
theorem Marker.suffixedToken_at {m : Marker} (hfront : ∀ m ∈ front, m.start < t.span.start)
    (hm : t.span.start = m.start) (hms : ∀ m ∈ ms, t.span.start < m.start) :
    suffixedToken x (front ++ m :: ms) t = t.suffixed x (Text.width x * front.length) := by
  have hle : ∀ m' ∈ m :: ms, t.span.start ≤ m'.start := by
    intro m' hm'
    rcases List.mem_cons.1 hm' with rfl | hm'
    · exact Nat.le_of_eq hm
    · exact Nat.le_of_lt (hms m' hm')
  have hsome : (front ++ m :: ms).any (fun m => m.start == t.span.start) = true := by
    simp [hm]
  rw [suffixedToken, countP_start hfront hle, hsome]
  rfl

end SuffixedToken

theorem Marker.Covers.start_eq {m : Marker} {t : Token} (h : m.Covers t) :
    t.span.start = m.start := by
  rw [h.2]
  rfl

namespace Suffixed

variable {x : List Char} {n : Nat} {ms : List Marker} {ys zs : List Spaced} {d : Dialect}
  {offset : Nat} {previous : Option Lexeme} {last : List Char}

theorem exists_of_ascending (x : List Char) (n : Nat) {ms : List Marker} {ys : List Spaced}
    (hys : ys.Pairwise fun a b => a.token.span.start < b.token.span.start)
    (hms : ms.Pairwise fun a b => a.start < b.start)
    (hcovers : ∀ m ∈ ms, ∃ y ∈ ys, m.Covers y.token ∧ y.token.isName = true) :
    ∃ zs, Suffixed x n ms ys zs := by
  induction ys generalizing n ms with
  | nil =>
      cases ms with
      | nil => exact ⟨[], .done n⟩
      | cons m ms =>
          obtain ⟨y, hy, -⟩ := hcovers m List.mem_cons_self
          cases hy
  | cons y ys ih =>
      obtain ⟨hnext, hys⟩ := List.pairwise_cons.1 hys
      by_cases hfirst : ∃ m ∈ ms, m.Covers y.token ∧ y.token.isName = true
      · obtain ⟨m, hm, hcover, hname⟩ := hfirst
        cases ms with
        | nil => cases hm
        | cons m₀ ms =>
            obtain ⟨hlater, hapart⟩ := List.pairwise_cons.1 hms
            -- No marker stands in front of the first token, so the first one stands there.
            obtain rfl : m = m₀ := by
              rcases List.mem_cons.1 hm with hm | hm
              · exact hm
              · obtain ⟨z, hz, hcover₀, -⟩ := hcovers m₀ List.mem_cons_self
                have hlt := hlater m hm
                rw [← hcover₀.start_eq, ← hcover.start_eq] at hlt
                rcases List.mem_cons.1 hz with rfl | hz
                · omega
                · have := hnext z hz
                  omega
            obtain ⟨zs, hzs⟩ := ih (n + Text.width x) hys hapart fun m' hm' => by
              obtain ⟨z, hz, hcover', hname'⟩ := hcovers m' (List.mem_cons_of_mem _ hm')
              rcases List.mem_cons.1 hz with rfl | hz
              · have hlt := hlater m' hm'
                rw [← hcover'.start_eq, ← hcover.start_eq] at hlt
                omega
              · exact ⟨z, hz, hcover', hname'⟩
            exact ⟨_, .mark hcover hname hzs⟩
      · obtain ⟨zs, hzs⟩ := ih n hys hms fun m hm => by
          obtain ⟨z, hz, hcover⟩ := hcovers m hm
          rcases List.mem_cons.1 hz with rfl | hz
          · exact absurd ⟨m, hm, hcover⟩ hfirst
          · exact ⟨z, hz, hcover⟩
        exact ⟨_, .keep hzs⟩

/-- Replacing the markers gives the text of the suffixed list. -/
theorem foldr_eq (h : Suffixed x n ms ys zs) (hreads : Reads d offset previous ys last)
    (before : List Char) (hbefore : Text.width before = offset) :
    ms.foldr (Parsed.replaceOne (Marker.suffixed x)) (before ++ Spaced.text ys last) =
      before ++ Spaced.text zs last := by
  induction h generalizing offset previous before with
  | done => rfl
  | @keep n ms y ys zs _ ih =>
      cases hreads with
      | token _ _ _ _ hrest =>
          have hstep := ih hrest (before ++ y.gap ++ y.token.text.toList)
            (by rw [Text.width_append, Text.width_append, hbefore])
          simpa [Token.moved] using hstep
  | @mark n m ms y ys zs hcovers _ _ ih =>
      cases hreads with
      | token hspan _ _ _ hrest =>
          have hstep := ih hrest (before ++ y.gap ++ y.token.text.toList)
            (by rw [Text.width_append, Text.width_append, hbefore])
          have hm : m.span = ⟨Text.width (before ++ y.gap),
              Text.width (before ++ y.gap) + Text.width m.literal.toList⟩ := by
            rw [← hcovers.2, ← hcovers.1, hspan, Text.width_append, hbefore]
          rw [List.foldr_cons, Spaced.text_cons, ← List.append_assoc, ← List.append_assoc, hstep,
            List.append_assoc _ y.token.text.toList, hcovers.1]
          change Parsed.substitute m _ _ = _
          rw [Parsed.substitute_append hm, Spaced.text_cons, Token.suffixed, hcovers.1,
            List.append_assoc]

theorem width_eq (h : Suffixed x n ms ys zs) (hnonempty : ∀ y ∈ ys, y.token.text.toList ≠ []) :
    Text.width (Spaced.text zs last) =
      Text.width (Spaced.text ys last) + Text.width x * ms.length := by
  induction h with
  | done => rfl
  | @keep n ms y ys zs _ ih =>
      have hrest := ih (List.forall_mem_cons.1 hnonempty).2
      simp only [Spaced.text_cons, Text.width_append, Token.moved, hrest]
      omega
  | @mark n m ms y ys zs _ _ _ ih =>
      obtain ⟨hy, hys⟩ := List.forall_mem_cons.1 hnonempty
      have hrest := ih hys
      simp only [Spaced.text_cons, Text.width_append, Token.suffixed, String.toList_ofList,
        Text.width_suffixed hy, hrest, List.length_cons, Nat.mul_add]
      omega

theorem covers (h : Suffixed x n ms ys zs) : ∀ m ∈ ms, ∃ y ∈ ys, m.Covers y.token := by
  induction h with
  | done => simp
  | keep _ ih =>
      intro m hm
      obtain ⟨y, hy, hcovers⟩ := ih m hm
      exact ⟨y, List.mem_cons_of_mem _ hy, hcovers⟩
  | mark hcovers _ _ ih =>
      refine List.forall_mem_cons.2 ⟨⟨_, List.mem_cons_self, hcovers⟩, fun m hm => ?_⟩
      obtain ⟨y, hy, hcovers⟩ := ih m hm
      exact ⟨y, List.mem_cons_of_mem _ hy, hcovers⟩

theorem le_start (h : Suffixed x n ms ys zs) (hreads : Reads d offset previous ys last) :
    ∀ m ∈ ms, offset ≤ m.start := by
  intro m hm
  obtain ⟨y, hy, hcovers⟩ := h.covers m hm
  rw [← hcovers.start_eq]
  exact hreads.le_start y hy

/-- The tokens of the suffixed list, each from its own token and the markers. -/
theorem map_token (h : Suffixed x n ms ys zs) (hreads : Reads d offset previous ys last)
    {front : List Marker} (hfront : ∀ m ∈ front, m.start < offset)
    (hn : n = Text.width x * front.length) :
    zs.map Spaced.token = ys.map fun y => Marker.suffixedToken x (front ++ ms) y.token := by
  induction h generalizing offset previous front with
  | done => rfl
  | @keep n ms y ys zs hlater ih =>
      cases hreads with
      | token hspan _ _ hread hrest =>
          have hpos := Text.width_pos (Lexeme.read_splits d _ hread).nonempty
          have hstart : y.token.span.start = offset + Text.width y.gap := by rw [hspan]
          have hms := hlater.le_start hrest
          rw [Token.lexeme_text] at hpos
          have hkept := Marker.suffixedToken_between (x := x) (t := y.token)
            (fun m hm => by have := hfront m hm; omega)
            (fun m hm => by have := hms m hm; omega)
          rw [List.map_cons, List.map_cons, hkept, ← hn,
            ih hrest (fun m hm => by have := hfront m hm; omega) hn]
  | @mark n m ms y ys zs hcovers _ hlater ih =>
      cases hreads with
      | token hspan _ _ hread hrest =>
          have hpos := Text.width_pos (Lexeme.read_splits d _ hread).nonempty
          have hstart : y.token.span.start = offset + Text.width y.gap := by rw [hspan]
          have hms := hlater.le_start hrest
          have hm := hcovers.start_eq
          rw [Token.lexeme_text] at hpos
          have hmarked := Marker.suffixedToken_at (x := x)
            (fun m hm => by have := hfront m hm; omega) hm
            (fun m hm => by have := hms m hm; omega)
          have hfront' : ∀ m' ∈ front ++ [m],
              m'.start < offset + Text.width y.gap + Text.width y.token.text.toList := by
            intro m' hm'
            rcases List.mem_append.1 hm' with hm' | hm'
            · have := hfront m' hm'
              omega
            · rw [List.mem_singleton.1 hm']
              omega
          have hrest' := ih hrest hfront' (by simp [hn, Nat.mul_add])
          rw [List.append_assoc, List.singleton_append] at hrest'
          rw [List.map_cons, List.map_cons, hmarked, ← hn, hrest']

/-- The end of the text, behind all markers. -/
theorem suffixedToken_end (h : Suffixed x n ms ys zs) (hreads : Reads d 0 previous ys last) :
    Marker.suffixedToken x ms (.endAt (Text.width (Spaced.text ys last))) =
      .endAt (Text.width (Spaced.text zs last)) := by
  have hfront : ∀ m ∈ ms, m.start < Text.width (Spaced.text ys last) := by
    intro m hm
    obtain ⟨y, hy, hcovers⟩ := h.covers m hm
    have hlt := hreads.start_lt y hy
    rw [hcovers.start_eq, Nat.zero_add] at hlt
    exact hlt
  have hmoved := Marker.suffixedToken_between (x := x)
    (t := .endAt (Text.width (Spaced.text ys last))) hfront (List.forall_mem_nil _)
  rw [List.append_nil] at hmoved
  rw [hmoved, h.width_eq hreads.nonempty]
  rfl

end Suffixed

/-! ## Whole statements -/

/-- A marker of a statement covers a name. -/
theorem Record.marker_isName {env : Setting} {st : Statement} {c : Cursor} {log : List Entry}
    {r : Reading} (hrec : Record env st c log r) {m : Marker}
    (hm : m ∈ Block.markersOf st.blocks) :
    ∃ t ∈ (TokenStream.ofText env.dialect env.source).tokens, m.Covers t ∧ t.isName = true := by
  obtain ⟨⟨e, he, hmarked, hcovers⟩, -⟩ := hrec.marker_entry hm
  refine ⟨e.token, hrec.mem_tokens he, hcovers, ?_⟩
  obtain ⟨_, t⟩ := hrec.trail
  have hfits := t.fits e he
  cases hfate : e.fate with
  | owner _ =>
      rw [Entry.Fits, hfate] at hfits
      exact hfits
  | table _ =>
      rw [Entry.Fits, hfate] at hfits
      exact hfits.1
  | plain | counted | loose | schema | passed =>
      rw [Entry.isMarked, hfate] at hmarked
      cases hmarked

/-- With a suffix on every marker, the text has the tokens it had, each moved by what is put
in front of it, and names for those of the markers; unless it has become too long. -/
theorem tokenize_suffixed {config : Config} {catalogue : Catalogue} {source : String} {p : Parsed}
    (h : parse config catalogue source = .ok p) {x : String} (hx : Text.IsSuffix x.toList)
    (hkeys : ∀ m ∈ p.markers, Text.isQuoted m.literal.toList = false →
      config.dialect.keyword? (m.literal.toList ++ x.toList) = none) :
    ∃ tokens, tokenize config.dialect source = .ok tokens ∧
      (∀ m ∈ p.markers, ∃ t ∈ tokens, m.Covers t) ∧
      tokenize config.dialect (String.ofList (p.replaceMarkers (Marker.suffixed x.toList))) =
        if Span.fits (p.replaceMarkers (Marker.suffixed x.toList)) then
          .ok (tokens.map (Marker.suffixedToken x.toList p.markers))
        else .error (Error.locate .lexical (p.replaceMarkers (Marker.suffixed x.toList)) 0
          LexicalCause.oversized.detail) := by
  obtain ⟨hsource, hmarkers, r, hrun⟩ := parse_ok h
  obtain ⟨c, log, r₁, hrec, -⟩ := Setting.exists_record hrun
  have hwell := hrec.wellMarked hmarkers
  have hfailure : (TokenStream.ofText config.dialect source.toList).failure = none :=
    hrec.failure_eq
  have htokenize := hrec.tokenize_eq
  obtain ⟨ys, last, hreads, hwhole, htokens⟩ := TokenStream.reads_ofText hfailure
  have hnames : ∀ m ∈ p.markers, ∃ y ∈ ys, m.Covers y.token ∧ y.token.isName = true := by
    intro m hm
    obtain ⟨t, ht, hcovers, hname⟩ :=
      hrec.marker_isName (p.statement.collected_sublist.subset (hwell.merged.subset hm))
    change t ∈ (TokenStream.ofText config.dialect source.toList).tokens at ht
    rw [htokens, List.mem_append, List.mem_singleton] at ht
    rcases ht with ht | rfl
    · obtain ⟨y, hy, rfl⟩ := List.mem_map.1 ht
      exact ⟨y, hy, hcovers, hname⟩
    · cases hname
  obtain ⟨zs, hzs⟩ :=
    Suffixed.exists_of_ascending x.toList 0 hreads.ascending hwell.ascending hnames
  have hreads' := (hzs.rereads hx hkeys hreads fun _ => rfl).reads
  have htext : p.replaceMarkers (Marker.suffixed x.toList) = Spaced.text zs last := by
    have hfoldr := hzs.foldr_eq hreads [] rfl
    rw [List.nil_append, List.nil_append, hwhole] at hfoldr
    rw [Parsed.replaceMarkers_eq, hsource]
    exact hfoldr
  have hsame : (ys.map Spaced.token ++ [Token.endAt (Text.width source.toList)]).map
      (Marker.suffixedToken x.toList p.markers) =
        zs.map Spaced.token ++ [Token.endAt (Text.width (Spaced.text zs last))] := by
    rw [List.map_append, List.map_map, List.map_singleton, ← hwhole, hzs.suffixedToken_end hreads,
      hzs.map_token hreads (List.forall_mem_nil _) rfl]
    rfl
  rw [htokens] at htokenize
  refine ⟨_, htokenize, fun m hm => ?_, ?_⟩
  · obtain ⟨y, hy, hcovers, -⟩ := hnames m hm
    exact ⟨y.token, List.mem_append_left _ (List.mem_map_of_mem hy), hcovers⟩
  · rw [htext, hreads'.tokenize_eq, hsame]

/-- Markers in front of a point, a comment and the end of the text, one in back-quotes, and
one behind a keyword that asks for `BY`. -/
theorem tokenize_suffixed_group : ∃ p tokens,
    parse { dialect := .mysql } Catalogue.everyName
      "SELECT `u`.a FROM t,`u`-- c\nWHERE t.a>.5 GROUP BY t.b" = .ok p ∧
      tokenize .mysql "SELECT `u`.a FROM t,`u`-- c\nWHERE t.a>.5 GROUP BY t.b" = .ok tokens ∧
      p.markers.map Marker.literal = ["`u`", "t", "`u`", "t", "t"] ∧
      tokenize .mysql "SELECT `u_0`.a FROM t_0,`u_0`-- c\nWHERE t_0.a>.5 GROUP BY t_0.b" =
        .ok (tokens.map (Marker.suffixedToken "_0".toList p.markers)) := by
  have hx : Text.IsSuffix "_0".toList := ⟨rfl, List.all_eq_true.1 rfl⟩
  obtain ⟨p, h, hkeys, hmarkers, htext⟩ : ∃ p,
      parse { dialect := .mysql } Catalogue.everyName
        "SELECT `u`.a FROM t,`u`-- c\nWHERE t.a>.5 GROUP BY t.b" = .ok p ∧
      (∀ m ∈ p.markers, Text.isQuoted m.literal.toList = false →
        Dialect.keyword? .mysql (m.literal.toList ++ "_0".toList) = none) ∧
      p.markers.map Marker.literal = ["`u`", "t", "`u`", "t", "t"] ∧
      p.replaceMarkers (Marker.suffixed "_0".toList) =
        "SELECT `u_0`.a FROM t_0,`u_0`-- c\nWHERE t_0.a>.5 GROUP BY t_0.b".toList :=
    exists_of_any (by decide +kernel)
  obtain ⟨tokens, htokens, -, hsuffixed⟩ := tokenize_suffixed h hx hkeys
  rw [htext, String.ofList_toList, if_pos (by decide +kernel)] at hsuffixed
  exact ⟨p, tokens, h, htokens, hmarkers, hsuffixed⟩

end SqlMarkers
