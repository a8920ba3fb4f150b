/-
SqlMarkers.Proofs.Glyphs — tokens without a place.

A glyph is a token with the gap in front of it and without its offsets, so that a list of
glyphs can be moved about. `Glyph.Lexes d b gs behind` says that the text of the glyphs,
in front of the text `behind` and behind a token that `b` tells about, is read as just
these tokens. The tokens of a text that is read alone are such a list
(`Glyph.lexes_ofText`), and a list that is read as such makes up the tokens of its text
(`Glyph.ofText_spell`).

Two notions say where a list of glyphs can stand. `Glyph.Leads` lists are read where an
operand is due, and `Glyph.Trails` lists behind any token; both in front of every text
that parts. Their rules put lists together: keywords, words in front of a list, lists in
parentheses, lists with commas between them.
-/
import SqlMarkers.Proofs.Parting

namespace SqlMarkers

open CharClass

/-! ## Reading does not depend on most of what came before -/

/-- What stands at the start of a text: no operand ends there and no word. -/
def Lexeme.Before.fresh : Before := ⟨false, false⟩

/-- Only a `-` is read in another way behind an operand. -/
theorem Lexeme.read_behindOperand (d : Dialect) (touches : Bool) {cs : List Char}
    (hsign : peek cs ≠ '-') : read d ⟨true, touches⟩ cs = read d ⟨false, touches⟩ cs := by
  have hnumber : startsNumber ⟨true, touches⟩ cs = startsNumber ⟨false, touches⟩ cs := by
    simp only [startsNumber, beq_false_of_ne hsign, Bool.false_and]
  rw [read_eq, read_eq, hnumber]

/-- No gap starts at a token, whatever is put behind the text. -/
theorem Gap.Bare.extend {d : Dialect} {cs behind : List Char} (h : Bare d cs) (hcs : cs ≠ [])
    (hbehind : Text.parts behind = true) : Bare d (cs ++ behind) := by
  obtain ⟨c, cs, rfl⟩ := List.exists_cons_of_ne_nil hcs
  refine ⟨h.space, ?_⟩
  have hcomment := h.comment
  cases cs with
  | cons c' cs => exact hcomment
  | nil =>
      cases behind with
      | nil => exact hcomment
      | cons x behind =>
          simp only [startsComment] at hcomment
          rcases Lexeme.head_of_parts hbehind x rfl with rfl | rfl | rfl <;>
            simpa [startsComment] using hcomment

/-! ## Spellings -/

/-- The text is read as the keyword where no word goes on behind it. -/
structure Keyword.IsWord (d : Dialect) (k : Keyword) (text : List Char) : Prop where
  start : isWordStart (peek text) = true
  word : ∀ c ∈ text, isWordChar c = true
  second : peek (text.drop 1) ≠ endMark ∧ peek (text.drop 1) ≠ '\x27'
  keyword : d.keyword? text = some k
  notBy : k ≠ .BY → (peek text).toLower ≠ 'b' ∨ (peek (text.drop 1)).toLower ≠ 'y'

/-- Every word of a dialect is read as its keyword: decided word by word. -/
theorem Keyword.isWord_spelling {d : Dialect} {k : Keyword} (h : k ∈ d.vocabulary) :
    IsWord d k k.spelling.toList := by
  have hall : (Dialect.all.all fun d => d.vocabulary.all fun k =>
      let text := k.spelling.toList
      isWordStart (peek text) && text.all isWordChar &&
        (peek (text.drop 1) != endMark && peek (text.drop 1) != '\x27') &&
        d.keyword? text == some k &&
        (k == .BY || (peek text).toLower != 'b' || (peek (text.drop 1)).toLower != 'y')) = true := by
    decide +kernel
  simp only [List.all_eq_true, Bool.and_eq_true, Bool.or_eq_true, bne_iff_ne, beq_iff_eq] at hall
  obtain ⟨⟨⟨⟨hstart, hword⟩, hsecond⟩, hkeyword⟩, hby⟩ := hall d (by cases d <;> decide) k h
  refine ⟨hstart, hword, hsecond, hkeyword, fun hk => ?_⟩
  rw [or_assoc] at hby
  exact hby.resolve_left hk

namespace Keyword.IsWord

variable {d : Dialect} {k : Keyword} {text : List Char} (h : IsWord d k text)
include h

theorem bare (rest : List Char) : Gap.Bare d (text ++ rest) := by
  have hstart := h.start
  cases text with
  | nil => cases hstart
  | cons c text =>
      have hword : isWordChar c = true := h.word c List.mem_cons_self
      refine Gap.bare_cons ?_ ?_ ?_ ?_
      · by_contra hspace
        rw [Lexeme.isWordChar_of_isSpace (by simpa using hspace)] at hword
        cases hword
      all_goals
        rintro rfl
        cases hstart

theorem read {b : Lexeme.Before} {rest : List Char} (hend : isWordChar (peek rest) = false) :
    Lexeme.read d b (text ++ rest) = .ok ⟨Lexeme.wordKind d text rest, text, rest⟩ := by
  refine Lexeme.read_word d b h.start h.word hend ?_
  have hsecond := h.second
  match text with
  | [] => cases h.start
  | [c] => exact absurd rfl hsecond.1
  | c :: c' :: text => exact hsecond.2

theorem beforeBy (hk : k ≠ .BY) (rest : List Char) : Lexeme.beforeBy (text ++ rest) = false := by
  have hby := h.notBy hk
  have hsecond := h.second
  have hword := h.word
  match text with
  | [] => cases h.start
  | [c] => exact absurd rfl hsecond.1
  | c :: c' :: text =>
      have hspace : isSpace c = false := by
        by_contra hspace
        have hplain := Lexeme.isWordChar_of_isSpace (c := c) (by simpa using hspace)
        rw [hword c List.mem_cons_self] at hplain
        cases hplain
      rw [List.cons_append, List.cons_append, Lexeme.beforeBy,
        List.dropWhile_cons_of_neg (by simp [hspace])]
      rcases hby with hb | hy
      · have hb : c.toLower ≠ 'b' := hb
        simp [hb]
      · have hy : c'.toLower ≠ 'y' := hy
        simp [hy]

end Keyword.IsWord

/-- Punctuation marks and comparisons are read as operators. -/
theorem Lexeme.read_operator (d : Dialect) (b : Before) {c : Char} {cs : List Char}
    (hc : c ∈ ['(', ')', ',', '=', '<', '>']) : read d b (c :: cs) = operator (c :: cs) := by
  have hform : ∀ second, formOf d c second (startsNumber b (c :: cs)) = some .operator := by
    intro second
    simp only [List.mem_cons, List.not_mem_nil, or_false] at hc
    rcases hc with rfl | rfl | rfl | rfl | rfl | rfl <;> cases d <;> rfl
  rw [read_eq, show peek (c :: cs) = c from rfl, hform]
  rfl

/-- The marks that no other operator starts with. -/
def Symbol.isPunctuation (s : Symbol) : Prop := s = .leftParen ∨ s = .rightParen ∨ s = .comma

theorem Lexeme.operator_punctuation {s : Symbol} (h : s.isPunctuation) (rest : List Char) :
    operator (s.spelling.toList ++ rest) = .ok ⟨.symbol s, s.spelling.toList, rest⟩ := by
  rcases rest with _ | ⟨x, _ | ⟨y, rest⟩⟩
  · rcases h with rfl | rfl | rfl <;> rfl
  · rcases h with rfl | rfl | rfl <;> rfl
  · rcases h with rfl | rfl | rfl <;> rfl

/-- The symbol that a comparison is written with. -/
def Comparison.symbol : Comparison → Symbol
  | .eq => .eq
  | .notEq => .ltGt
  | .nullSafeEq => .ltEqGt
  | .lt => .lt
  | .ltEq => .ltEq
  | .gt => .gt
  | .gtEq => .gtEq

@[simp] theorem Comparison.spelling_symbol (c : Comparison) : c.symbol.spelling = c.spelling := by
  cases c <;> rfl

@[simp] theorem Comparison.ofSymbol?_symbol (c : Comparison) : ofSymbol? c.symbol = some c := by
  cases c <;> rfl

theorem Lexeme.operator_comparison (c : Comparison) (rest : List Char) :
    operator (c.symbol.spelling.toList ++ ' ' :: rest) =
      .ok ⟨.symbol c.symbol, c.symbol.spelling.toList, ' ' :: rest⟩ := by
  cases c <;> rfl

/-! ## Glyphs -/

/-- A token without its place, and the gap in front of it. -/
structure Glyph where
  gap : List Char
  kind : Kind
  text : List Char
deriving DecidableEq, Repr

namespace Glyph

/-- The text that glyphs make up. -/
def spell : List Glyph → List Char
  | [] => []
  | g :: gs => g.gap ++ (g.text ++ spell gs)

@[simp] theorem spell_nil : spell [] = [] := rfl

@[simp] theorem spell_cons (g : Glyph) (gs : List Glyph) :
    spell (g :: gs) = g.gap ++ (g.text ++ spell gs) := rfl

@[simp] theorem spell_append (gs hs : List Glyph) : spell (gs ++ hs) = spell gs ++ spell hs := by
  induction gs with
  | nil => rfl
  | cons g gs ih => simp [ih]

/-- The kind of the first token, or the end of the input. -/
def ahead : List Glyph → Kind
  | [] => .endOfInput
  | g :: _ => g.kind

@[simp] theorem ahead_cons (g : Glyph) (gs : List Glyph) : ahead (g :: gs) = g.kind := rfl

/-- The token that a glyph is at byte offset `start`. -/
def token (g : Glyph) (start : Nat) : Token :=
  ⟨g.kind, String.ofList g.text, ⟨start, start + Text.width g.text⟩⟩

/-- The tokens that glyphs are from a byte offset on, and the end of the input. -/
def place : Nat → List Glyph → List Token
  | n, [] => [.endAt n]
  | n, g :: gs =>
      g.token (n + Text.width g.gap) :: place (n + Text.width g.gap + Text.width g.text) gs

/-- What the text before a glyph tells about it, across its gap. -/
def before (g : Glyph) (b : Lexeme.Before) : Lexeme.Before :=
  ⟨b.endsOperand, g.gap.isEmpty && b.touchesWord⟩

/-- What a glyph tells about the token behind it. -/
def behind (g : Glyph) : Lexeme.Before :=
  ⟨g.kind.endsOperand, (g.text.getLast?.map isWordChar).getD false⟩

/-- The text of the glyphs, behind what `b` tells about and in front of `rest`, is read as
these tokens. -/
def Lexes (d : Dialect) : Lexeme.Before → List Glyph → List Char → Prop
  | _, [], _ => True
  | b, g :: gs, rest =>
      Gap.Closed d g.gap ∧ Gap.Bare d (g.text ++ (spell gs ++ rest)) ∧
        Lexeme.read d (g.before b) (g.text ++ (spell gs ++ rest)) =
          .ok ⟨g.kind, g.text, spell gs ++ rest⟩ ∧
        Lexes d g.behind gs rest

/-- What the last glyph tells, or what came before if there is none. -/
def leave (b : Lexeme.Before) : List Glyph → Lexeme.Before
  | [] => b
  | g :: gs => leave g.behind gs

section Lexing

variable {d : Dialect} {b : Lexeme.Before} {g : Glyph} {gs hs : List Glyph} {rest : List Char}

theorem lexes_append : Lexes d b (gs ++ hs) rest ↔
    Lexes d b gs (spell hs ++ rest) ∧ Lexes d (leave b gs) hs rest := by
  induction gs generalizing b with
  | nil => exact ⟨fun h => ⟨trivial, h⟩, fun h => h.2⟩
  | cons g gs ih =>
      simp only [List.cons_append, Lexes, leave, spell_append, List.append_assoc, ih, and_assoc]

theorem Lexes.nonempty (h : Lexes d b (g :: gs) rest) : g.text ≠ [] :=
  (Lexeme.read_splits d _ h.2.2.1).nonempty

/-- Glyphs are read alike when a text that parts is put behind. -/
theorem Lexes.extend (h : Lexes d b gs rest) {behind : List Char}
    (hbehind : Text.parts behind = true) : Lexes d b gs (rest ++ behind) := by
  induction gs generalizing b with
  | nil => trivial
  | cons g gs ih =>
      have hne : g.text ++ (spell gs ++ rest) ≠ [] := by simp [h.nonempty]
      obtain ⟨hgap, hbare, hread, htail⟩ := h
      have hread' := Lexeme.read_extend d _ hread hbehind
      have hbare' := hbare.extend hne hbehind
      simp only [List.append_assoc] at hread' hbare'
      exact ⟨hgap, hbare', hread', ih htail⟩

/-- Glyphs that are read as tokens are no ends of the input, and have texts. -/
theorem Lexes.proper (h : Lexes d b gs rest) : ∀ g ∈ gs, g.kind ≠ .endOfInput ∧ g.text ≠ [] := by
  induction gs generalizing b with
  | nil => exact fun _ hg => absurd hg List.not_mem_nil
  | cons g gs ih =>
      have hsplits := Lexeme.read_splits d _ h.2.2.1
      exact List.forall_mem_cons.2 ⟨⟨hsplits.kind_ne, hsplits.nonempty⟩, ih h.2.2.2⟩

theorem Lexes.length_le (h : Lexes d b gs rest) : gs.length ≤ (spell gs).length := by
  induction gs generalizing b with
  | nil => exact Nat.le_refl 0
  | cons g gs ih =>
      have hpos := List.length_pos_iff.2 h.nonempty
      have htail := ih h.2.2.2
      simp only [spell_cons, List.length_append, List.length_cons]
      omega

/-! ## From glyphs to tokens -/

/-- What a lexeme tells about the token behind it. -/
def seen : Option Lexeme → Lexeme.Before
  | none => .fresh
  | some l => ⟨l.kind.endsOperand, (l.text.getLast?.map isWordChar).getD false⟩

theorem after_eq (previous : Option Lexeme) (gap : List Char) :
    TokenStream.after previous (Text.width gap) =
      ⟨(seen previous).endsOperand, gap.isEmpty && (seen previous).touchesWord⟩ := by
  have hwidth : (Text.width gap == 0) = gap.isEmpty := by
    cases gap with
    | nil => rfl
    | cons c gap =>
        have hpos := c.utf8Size_pos
        simp
        omega
  cases previous with
  | none => simp [TokenStream.after, seen, Lexeme.Before.fresh]
  | some l => simp only [TokenStream.after, seen, hwidth]

/-- Glyphs that are read up to the end of a text make up its stream. -/
theorem readFrom_spell {previous : Option Lexeme} {fuel n : Nat}
    (h : Lexes d (seen previous) gs []) (hfuel : gs.length < fuel) :
    TokenStream.readFrom d fuel n previous (spell gs) = ⟨place n gs, none⟩ := by
  induction gs generalizing previous fuel n with
  | nil =>
      obtain ⟨fuel, rfl⟩ := Nat.exists_eq_add_of_lt hfuel
      have hskip : Gap.skip d [] = .passed 0 [] := by
        rw [Gap.skip, Gap.between]
      rw [TokenStream.readFrom, TokenStream.step, spell_nil, hskip]
      rfl
  | cons g gs ih =>
      obtain ⟨fuel, rfl⟩ : ∃ m, fuel = m + 1 := ⟨fuel - 1, by simp at hfuel; omega⟩
      obtain ⟨hgap, hbare, hread, htail⟩ := h
      simp only [List.append_nil] at hbare hread
      rw [before, ← after_eq] at hread
      have hrest : ∀ n, TokenStream.readFrom d fuel n (some ⟨g.kind, g.text, spell gs⟩)
          (spell gs) = ⟨place n gs, none⟩ := fun _ => ih htail (Nat.lt_of_succ_lt_succ hfuel)
      rw [TokenStream.readFrom, spell_cons, TokenStream.step_eq hgap hbare hread]
      simp only [hrest]
      rfl

/-- The tokens of a text that is made up of glyphs. -/
theorem ofText_spell (h : Lexes d .fresh gs []) (hfits : Span.fits (spell gs) = true) :
    TokenStream.ofText d (spell gs) = ⟨place 0 gs, none⟩ := by
  have hfresh : Lexes d (seen none) gs [] := h
  rw [TokenStream.ofText, if_pos hfits, readFrom_spell hfresh (Nat.lt_succ_of_le h.length_le)]

/-! ## From texts to glyphs -/

/-- The glyphs of a text behind a lexeme, at most `fuel` of them. -/
def scan (d : Dialect) : Nat → Option Lexeme → List Char → List Glyph
  | 0, _, _ => []
  | fuel + 1, previous, cs =>
      match TokenStream.step d 0 previous cs with
      | .token start l =>
          ⟨(Text.takeWidth? start cs).getD [], l.kind, l.text⟩ :: scan d fuel (some l) l.rest
      | _ => []

/-- The glyphs of a text that stands alone. -/
def ofText (d : Dialect) (text : String) : List Glyph :=
  scan d (text.toList.length + 1) none text.toList

/-- Whether a text is one token behind the other, without a gap at either end. -/
def isRow (d : Dialect) (text : String) : Bool :=
  decide (spell (ofText d text) = text.toList) &&
    match ofText d text with
    | [] => false
    | g :: _ => g.gap.isEmpty

theorem spell_ofText {text : String} (h : isRow d text = true) :
    spell (ofText d text) = text.toList := by
  rw [isRow, Bool.and_eq_true, decide_eq_true_eq] at h
  exact h.1

theorem lexes_scan {fuel : Nat} {previous : Option Lexeme} {cs : List Char}
    (h : spell (scan d fuel previous cs) = cs) :
    Lexes d (seen previous) (scan d fuel previous cs) [] := by
  induction fuel generalizing previous cs with
  | zero => trivial
  | succ fuel ih =>
      rw [scan] at h ⊢
      split at h
      · rename_i start l hstep
        obtain ⟨gap, rfl, rfl, hgap, hbare, hread⟩ := TokenStream.read_of_step hstep
        simp only [Nat.zero_add, Text.takeWidth?_width_append, Option.getD_some, spell_cons,
          List.append_cancel_left_eq] at h ⊢
        rw [after_eq] at hread
        refine ⟨hgap, ?_, ?_, ih h⟩
        · rw [h, List.append_nil]
          exact hbare
        · rw [h, List.append_nil]
          exact hread
      · trivial

/-! ## Keywords and marks -/

/-- The glyphs with a blank in front. -/
def spaced : List Glyph → List Glyph
  | [] => []
  | g :: gs => { g with gap := ' ' :: g.gap } :: gs

@[simp] theorem spaced_nil : spaced [] = [] := rfl

@[simp] theorem spaced_cons (g : Glyph) (gs : List Glyph) :
    spaced (g :: gs) = { g with gap := ' ' :: g.gap } :: gs := rfl

/-- A keyword. -/
def word (k : Keyword) : Glyph := ⟨[], .keyword k, k.spelling.toList⟩

/-- An operator or a punctuation mark. -/
def mark (s : Symbol) : Glyph := ⟨[], .symbol s, s.spelling.toList⟩

@[simp] theorem word_gap (k : Keyword) : (word k).gap = [] := rfl
@[simp] theorem word_kind (k : Keyword) : (word k).kind = .keyword k := rfl
@[simp] theorem word_text (k : Keyword) : (word k).text = k.spelling.toList := rfl
@[simp] theorem mark_gap (s : Symbol) : (mark s).gap = [] := rfl
@[simp] theorem mark_kind (s : Symbol) : (mark s).kind = .symbol s := rfl
@[simp] theorem mark_text (s : Symbol) : (mark s).text = s.spelling.toList := rfl

/-- Behind a blank it does not matter whether a word stands in front. -/
theorem Lexes.spaced (h : Lexes d ⟨b.endsOperand, false⟩ gs rest) :
    Lexes d b (Glyph.spaced gs) rest := by
  cases gs with
  | nil => trivial
  | cons g gs =>
      obtain ⟨hgap, hbare, hread, htail⟩ := h
      refine ⟨.cons (.space rfl) hgap, hbare, ?_, htail⟩
      rw [before, Bool.and_false] at hread
      exact hread

/-- A keyword in front of a text that does not go on with it. -/
theorem Lexes.word {k : Keyword} (hk : k ∈ d.vocabulary) (hplain : k ≠ .GROUP ∧ k ≠ .ORDER)
    (hend : isWordChar (peek (spell gs ++ rest)) = false)
    (h : Lexes d (Glyph.word k).behind gs rest) : Lexes d b (Glyph.word k :: gs) rest := by
  have hword := Keyword.isWord_spelling hk
  have hkind : Lexeme.wordKind d k.spelling.toList (spell gs ++ rest) = .keyword k := by
    rw [Lexeme.wordKind, hword.keyword]
    split
    · rename_i heq
      exact absurd (Option.some.inj heq) hplain.1
    · rename_i heq
      exact absurd (Option.some.inj heq) hplain.2
    · rename_i heq
      rw [Option.some.inj heq]
    · rename_i heq
      cases heq
  have hread := hword.read hend (b := (Glyph.word k).before b)
  rw [hkind] at hread
  exact ⟨.nil, hword.bare _, hread, h⟩

/-- `GROUP` or `ORDER` in front of `BY`. -/
theorem Lexes.wordBy {k : Keyword} (hk : k = .GROUP ∨ k = .ORDER)
    (hend : isWordChar (peek (spell gs ++ rest)) = false)
    (h : Lexes d (Glyph.word .BY).behind gs rest) :
    Lexes d b (Glyph.word k :: Glyph.spaced (Glyph.word .BY :: gs)) rest := by
  have hmem : k ∈ d.vocabulary := by
    rcases hk with rfl | rfl <;> cases d <;> decide
  have hword := Keyword.isWord_spelling hmem
  have hby : Lexeme.beforeBy (spell (Glyph.spaced (Glyph.word .BY :: gs)) ++ rest) = true := by
    rw [Lexeme.beforeBy_iff]
    exact ⟨[' '], 'B', 'Y', spell gs ++ rest, rfl, List.forall_mem_singleton.2 rfl, by decide, by decide, hend⟩
  have hkind : Lexeme.wordKind d k.spelling.toList
      (spell (Glyph.spaced (Glyph.word .BY :: gs)) ++ rest) = .keyword k := by
    rw [Lexeme.wordKind, hword.keyword, hby]
    rcases hk with rfl | rfl <;> rfl
  have hread := hword.read (b := (Glyph.word k).before b)
    (rfl : isWordChar (peek (spell (Glyph.spaced (Glyph.word .BY :: gs)) ++ rest)) = false)
  rw [hkind] at hread
  exact ⟨.nil, hword.bare _, hread, .spaced (.word (by cases d <;> decide) (by decide) hend h)⟩

theorem Lexes.punctuation {s : Symbol} (hs : s.isPunctuation)
    (h : Lexes d (Glyph.mark s).behind gs rest) : Lexes d b (Glyph.mark s :: gs) rest := by
  refine ⟨.nil, ?_, ?_, h⟩
  · rcases hs with rfl | rfl | rfl <;>
      exact Gap.bare_cons (by decide) (by decide) (by decide) (by decide)
  · rw [mark_text, mark_kind, ← Lexeme.operator_punctuation hs]
    rcases hs with rfl | rfl | rfl <;> exact Lexeme.read_operator d _ (by decide)

theorem Lexes.comparison (c : Comparison) (hend : peek (spell gs ++ rest) = ' ')
    (h : Lexes d (Glyph.mark c.symbol).behind gs rest) :
    Lexes d b (Glyph.mark c.symbol :: gs) rest := by
  obtain ⟨tail, htail⟩ := Lexeme.cons_of_peek (by decide) hend
  refine ⟨.nil, ?_, ?_, h⟩
  · cases c <;> exact Gap.bare_cons (by decide) (by decide) (by decide) (by decide)
  · rw [htail, mark_text, mark_kind, ← Lexeme.operator_comparison]
    cases c <;> exact Lexeme.read_operator d _ (by decide)

/-! ## Where glyphs can stand -/

/-- The glyphs are read as such behind what `b` tells about, in front of every text that
parts. -/
def Sound (d : Dialect) (b : Lexeme.Before) (gs : List Glyph) : Prop :=
  ∀ behind, Text.parts behind = true → Lexes d b gs behind

/-- The glyphs can stand where an operand is due. -/
def Leads (d : Dialect) (gs : List Glyph) : Prop := Sound d .fresh gs

/-- The glyphs can stand behind any token. -/
structure Trails (d : Dialect) (gs : List Glyph) : Prop where
  sound : ∀ b, Sound d b gs
  parts : ∀ behind, Text.parts behind = true → Text.parts (spell gs ++ behind) = true

theorem Trails.nil : Trails d [] := ⟨fun _ _ _ => trivial, fun _ h => h⟩

theorem Trails.append (hg : Trails d gs) (hh : Trails d hs) : Trails d (gs ++ hs) := by
  refine ⟨fun b behind hbehind => ?_, fun behind hbehind => ?_⟩
  · exact lexes_append.2 ⟨hg.sound b _ (hh.parts _ hbehind), hh.sound _ _ hbehind⟩
  · rw [spell_append, List.append_assoc]
    exact hg.parts _ (hh.parts _ hbehind)

theorem Sound.append (hg : Sound d b gs) (hh : Trails d hs) : Sound d b (gs ++ hs) := by
  intro behind hbehind
  exact lexes_append.2 ⟨hg _ (hh.parts _ hbehind), hh.sound _ _ hbehind⟩

/-- A text that is a row of tokens can stand where an operand is due. -/
theorem leads_ofText {text : String} (h : isRow d text = true) : Leads d (ofText d text) := by
  intro behind hbehind
  have hspell : spell (scan d (text.toList.length + 1) none text.toList) = text.toList :=
    spell_ofText h
  exact (lexes_scan hspell).extend hbehind

/-- A row of tokens can stand behind an operand, too, unless it starts with a `-`. -/
theorem sound_ofText {text : String} (h : isRow d text = true) (hsign : peek text.toList ≠ '-')
    (ends : Bool) : Sound d ⟨ends, false⟩ (ofText d text) := by
  have hleads := leads_ofText h
  cases ends with
  | false => exact hleads
  | true =>
      rw [isRow, Bool.and_eq_true, decide_eq_true_eq] at h
      intro behind hbehind
      have hlexes := hleads behind hbehind
      generalize ofText d text = gs at h hlexes
      cases gs with
      | nil => trivial
      | cons g gs =>
          have hne := hlexes.nonempty
          obtain ⟨hgap, hbare, hread, htail⟩ := hlexes
          have hfirst : peek (g.text ++ (spell gs ++ behind)) = peek text.toList := by
            obtain ⟨c, tail, hc⟩ := List.exists_cons_of_ne_nil hne
            rw [← h.1, spell_cons, List.isEmpty_iff.1 h.2, hc]
            rfl
          refine ⟨hgap, hbare, ?_, htail⟩
          rw [before, Bool.and_false, Lexeme.read_behindOperand d _ (by rw [hfirst]; exact hsign)]
          rw [before, Lexeme.Before.fresh, Bool.and_false] at hread
          exact hread

/-- Whether a text may stand behind any word: it starts neither with a sign nor with `BY`. -/
def standsAnywhere (text : String) : Bool :=
  peek text.toList != '-' && !Lexeme.beforeBy text.toList

theorem isWordChar_of_parts {behind : List Char} (h : Text.parts behind = true) :
    isWordChar (peek behind) = false :=
  Lexeme.peek_of_parts h (p := fun c => isWordChar c = false) rfl rfl rfl rfl

/-- No word goes on into glyphs that start with a blank. -/
theorem isWordChar_spaced (gs : List Glyph) {behind : List Char} (h : Text.parts behind = true) :
    isWordChar (peek (spell (spaced gs) ++ behind)) = false := by
  cases gs with
  | nil => exact isWordChar_of_parts h
  | cons g gs => rfl

/-! ### Words in front -/

/-- A keyword of the dialect that is read as one whatever follows, and that makes none of
the word in front of it. -/
def Plain (d : Dialect) (k : Keyword) : Prop :=
  k ∈ d.vocabulary ∧ k ≠ .GROUP ∧ k ≠ .ORDER ∧ k ≠ .BY

instance (d : Dialect) (k : Keyword) : Decidable (Plain d k) :=
  inferInstanceAs (Decidable (_ ∧ _))

theorem sound_word {k : Keyword} (hk : Plain d k) (h : Trails d gs) :
    Sound d b (word k :: gs) := by
  intro behind hbehind
  exact .word hk.1 ⟨hk.2.1, hk.2.2.1⟩ (isWordChar_of_parts (h.parts _ hbehind))
    (h.sound _ _ hbehind)

/-- A keyword in front of what stands where an operand is due. -/
theorem sound_clause {k : Keyword} (hk : Plain d k) (hends : (Kind.keyword k).endsOperand = false)
    (h : Leads d gs) : Sound d b (word k :: spaced gs) := by
  intro behind hbehind
  have hlead : (word k).behind.endsOperand = false := hends
  refine .word hk.1 ⟨hk.2.1, hk.2.2.1⟩ (isWordChar_spaced gs hbehind) (.spaced ?_)
  rw [hlead]
  exact h behind hbehind

/-- `GROUP BY` or `ORDER BY` in front of what stands where an operand is due. -/
theorem sound_byClause {k : Keyword} (hk : k = .GROUP ∨ k = .ORDER) (h : Leads d gs) :
    Sound d b (word k :: spaced (word .BY :: spaced gs)) := by
  intro behind hbehind
  exact .wordBy hk (isWordChar_spaced gs hbehind) (.spaced (h behind hbehind))

/-- Glyphs that can stand anywhere can do so behind a blank. -/
theorem Trails.spaced (h : ∀ ends, Sound d ⟨ends, false⟩ gs)
    (hby : Lexeme.beforeBy (spell gs) = false) : Trails d (spaced gs) := by
  refine ⟨fun b behind hbehind => .spaced (h _ behind hbehind), fun behind hbehind => ?_⟩
  cases gs with
  | nil => exact hbehind
  | cons g gs =>
      show (!Lexeme.beforeBy (spell (g :: gs) ++ behind)) = true
      rw [Lexeme.beforeBy_extend hbehind, hby]
      rfl

/-- A row of tokens behind a blank, and what follows it. -/
theorem Trails.ofText {text : String} (h : isRow d text = true)
    (hstands : standsAnywhere text = true) (hgs : Trails d gs) :
    Trails d (Glyph.spaced (Glyph.ofText d text ++ gs)) := by
  simp only [standsAnywhere, Bool.and_eq_true, bne_iff_ne, Bool.not_eq_true'] at hstands
  refine .spaced (fun ends => (sound_ofText h hstands.1 ends).append hgs) ?_
  have hparts := hgs.parts [] rfl
  rw [List.append_nil] at hparts
  rw [spell_append, spell_ofText h, Lexeme.beforeBy_extend hparts, hstands.2]

theorem beforeBy_word {k : Keyword} (hk : k ∈ d.vocabulary) (hby : k ≠ .BY) :
    Lexeme.beforeBy (spell (word k :: gs)) = false := by
  rw [spell_cons, word_gap, word_text, List.nil_append]
  exact (Keyword.isWord_spelling hk).beforeBy hby _

theorem Trails.words {k : Keyword} (hk : Plain d k) (h : Trails d gs) :
    Trails d (Glyph.spaced (word k :: gs)) :=
  .spaced (fun _ => sound_word hk h) (beforeBy_word hk.1 hk.2.2.2)

theorem Trails.word {k : Keyword} (hk : Plain d k) : Trails d (Glyph.spaced [Glyph.word k]) :=
  .words hk .nil

theorem Trails.clause {k : Keyword} (hk : Plain d k)
    (hends : (Kind.keyword k).endsOperand = false) (h : Leads d gs) :
    Trails d (Glyph.spaced (Glyph.word k :: Glyph.spaced gs)) :=
  .spaced (fun _ => sound_clause hk hends h) (beforeBy_word hk.1 hk.2.2.2)

theorem Trails.byClause {k : Keyword} (hk : k = .GROUP ∨ k = .ORDER) (h : Leads d gs) :
    Trails d (Glyph.spaced (Glyph.word k :: Glyph.spaced (Glyph.word .BY :: Glyph.spaced gs))) := by
  have hmem : k ∈ d.vocabulary := by
    rcases hk with rfl | rfl <;> cases d <;> decide
  have hby : k ≠ .BY := by
    rcases hk with rfl | rfl <;> decide
  exact .spaced (fun _ => sound_byClause hk h) (beforeBy_word hmem hby)

/-! ### Operators, parentheses and commas -/

theorem Trails.comparison (c : Comparison) (h : Leads d gs) (hgs : gs ≠ []) :
    Trails d (Glyph.spaced (Glyph.mark c.symbol :: Glyph.spaced gs)) := by
  obtain ⟨g, gs, rfl⟩ := List.exists_cons_of_ne_nil hgs
  refine .spaced (fun b behind hbehind => ?_) ?_
  · have hlead : (Glyph.mark c.symbol).behind.endsOperand = false := by cases c <;> rfl
    refine .comparison c rfl (.spaced ?_)
    rw [hlead]
    exact h behind hbehind
  · cases c <;> rfl

/-- Glyphs in parentheses. -/
def enclosed (gs : List Glyph) : List Glyph :=
  mark .leftParen :: (gs ++ [mark .rightParen])

theorem sound_enclosed (h : Leads d gs) : Sound d b (enclosed gs) := by
  intro behind hbehind
  refine .punctuation (.inl rfl) (lexes_append.2 ⟨h _ rfl, ?_⟩)
  exact .punctuation (.inr (.inl rfl)) trivial

theorem Trails.enclosed (h : Leads d gs) : Trails d (Glyph.spaced (enclosed gs)) := by
  refine .spaced (fun _ => sound_enclosed h) ?_
  simp only [Glyph.enclosed, spell_cons, mark_gap, mark_text, List.nil_append]
  cases spell (gs ++ [mark .rightParen]) <;> rfl

/-- Lists of glyphs with commas between them. -/
def commas : List (List Glyph) → List Glyph
  | [] => []
  | [x] => x
  | x :: y :: xs => x ++ mark .comma :: spaced (commas (y :: xs))

theorem Trails.comma (h : Leads d gs) : Trails d (Glyph.mark .comma :: Glyph.spaced gs) :=
  ⟨fun _ behind hbehind => .punctuation (.inr (.inr rfl)) (.spaced (h behind hbehind)),
    fun _ _ => rfl⟩

theorem leads_commas {xs : List (List Glyph)} (h : ∀ x ∈ xs, Leads d x) : Leads d (commas xs) := by
  induction xs with
  | nil => exact fun _ _ => trivial
  | cons x xs ih =>
      obtain ⟨hx, hxs⟩ := List.forall_mem_cons.1 h
      cases xs with
      | nil => exact hx
      | cons y xs => exact hx.append (.comma (ih hxs))

end Lexing

end Glyph

end SqlMarkers
