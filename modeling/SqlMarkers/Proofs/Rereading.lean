/-
SqlMarkers.Proofs.Rereading — a text that is put together from gaps and tokens reads
as these gaps and tokens.

`partition_of_tokenize` takes a text apart; this module goes the other way. A gap of the
grammar is stepped over whole, as long as no further piece of a gap follows it
(`Gap.skip_closed`, `Gap.Bare`). `Reads` lists gaps and tokens such that each token
is what the reader finds behind its gap, in front of the text of all the others.
The tokens of a stream are read in this sense (`TokenStream.reads_of_readFrom`), and
gaps and tokens that are read make up a stream (`Reads.readFrom_eq`).
-/
import SqlMarkers.Proofs.Lookahead
import SqlMarkers.Proofs.Partition

namespace SqlMarkers

open CharClass

/-! ## Gaps -/

namespace Gap

variable {d : Dialect} {gap body rest : List Char}

theorem inLine_closed (n : Nat) (h : '\n' ∉ body) :
    inLine d n (body ++ '\n' :: rest) = between d true (n + Text.width body + 1) rest := by
  induction body generalizing n with
  | nil => rfl
  | cons c body ih =>
      simp only [List.mem_cons, not_or] at h
      rw [List.cons_append, inLine, if_neg (by simpa using Ne.symm h.1), ih _ h.2,
        Text.width_cons, Nat.add_assoc n]

theorem Enclosed.tail {c : Char} (h : Enclosed (c :: body)) : Enclosed body :=
  fun hinfix => h (List.infix_cons hinfix)

theorem inBlock_closed (hint commented : Bool) (start n : Nat) (h : Enclosed body) :
    inBlock d hint commented start n (body ++ '*' :: '/' :: rest) =
      between d (commented || !hint) (n + Text.width body + 2) rest := by
  induction body generalizing n with
  | nil => rfl
  | cons a body ih =>
      obtain ⟨b, tail, htail⟩ : ∃ b tail, body ++ '*' :: '/' :: rest = b :: tail := by
        cases body <;> exact ⟨_, _, rfl⟩
      have hopen : ¬(a == '*' && b == '/') = true := by
        simp only [Bool.and_eq_true, beq_iff_eq]
        rintro ⟨rfl, rfl⟩
        cases body with
        | nil => cases htail
        | cons c body =>
            obtain ⟨rfl, -⟩ := List.cons.inj htail
            exact h ⟨[], body ++ ['*'], rfl⟩
      rw [List.cons_append, htail, inBlock, if_neg hopen, ← htail, ih _ h.tail, Text.width_cons,
        Nat.add_assoc n]

theorem between_line {mark : List Char} (hmark : LineMark d mark) (commented : Bool) (n : Nat)
    (cs : List Char) (hcs : cs ≠ []) :
    between d commented n (mark ++ cs) = inLine d (n + Text.width mark) cs := by
  obtain ⟨c, cs, rfl⟩ := List.exists_cons_of_ne_nil hcs
  cases hmark with
  | dashes => rfl
  | slashes => rfl
  | hash hhash =>
      rw [List.singleton_append, between, if_neg (by decide), if_pos (by simp [hhash])]
      rfl

theorem between_space {c : Char} (hspace : isSpace c = true) (commented : Bool) (n : Nat)
    (rest : List Char) : between d commented n ([c] ++ rest) =
      between d commented (n + Text.width [c]) rest := by
  rw [Text.width_cons, utf8Size_of_isSpace hspace]
  cases rest with
  | nil => simp [between, hspace]
  | cons b rest => rw [List.singleton_append, between, if_pos hspace]; rfl

/-- A line comment is stepped over up to its line end. -/
theorem between_lineComment {mark : List Char} (hmark : LineMark d mark) (hbody : '\n' ∉ body)
    (commented : Bool) (n : Nat) (rest : List Char) :
    between d commented n (mark ++ body ++ ['\n'] ++ rest) =
      between d true (n + Text.width (mark ++ body ++ ['\n'])) rest := by
  have hline := between_line hmark commented n (body ++ '\n' :: rest) (by simp)
  simp only [List.append_assoc, List.singleton_append]
  rw [hline, inLine_closed _ hbody]
  simp only [Text.width_append, ← Nat.add_assoc]
  rfl

/-- A block is stepped over up to its closing mark. -/
theorem between_block (hbody : Enclosed body) (commented : Bool) (n : Nat) (rest : List Char) :
    between d commented n (['/', '*'] ++ body ++ ['*', '/'] ++ rest) =
      between d (commented || !(d.features.hints && body.head? == some '!'))
        (n + Text.width (['/', '*'] ++ body ++ ['*', '/'])) rest := by
  have hmark : (peek (body ++ '*' :: '/' :: rest) == '!') = (body.head? == some '!') := by
    cases body <;> rfl
  have hinner : inBlock d (d.features.hints && peek (body ++ '*' :: '/' :: rest) == '!') commented n
      (n + 2) (body ++ '*' :: '/' :: rest) = _ := inBlock_closed _ commented n (n + 2) hbody
  have hwidth : Text.width (['/', '*'] ++ body ++ ['*', '/']) = 2 + Text.width body + 2 := by
    simp only [Text.width_append]
    rfl
  rw [hwidth, ← Nat.add_assoc, ← Nat.add_assoc, ← hmark, ← hinner]
  simp only [List.append_assoc, List.cons_append, List.nil_append]
  rfl

/-- A piece of a gap is stepped over, wherever it stands and whatever follows it. -/
theorem between_piece {piece : List Char} (h : Piece d piece) (commented : Bool) :
    ∃ commented', ∀ n rest, between d commented n (piece ++ rest) =
      between d commented' (n + Text.width piece) rest := by
  cases h with
  | space hspace => exact ⟨_, between_space hspace commented⟩
  | line hmark hbody => exact ⟨_, between_lineComment hmark hbody commented⟩
  | comment _ hbody => exact ⟨_, between_block hbody commented⟩
  | hint _ _ hbody => exact ⟨_, between_block hbody commented⟩

theorem between_closed (h : Closed d gap) (commented : Bool) (n : Nat) (rest : List Char) :
    ∃ commented', between d commented n (gap ++ rest) =
      between d commented' (n + Text.width gap) rest := by
  induction h generalizing commented n with
  | nil => exact ⟨commented, rfl⟩
  | @cons piece gap hpiece _ ih =>
      obtain ⟨c, hstep⟩ := between_piece hpiece commented
      obtain ⟨c', hrest⟩ := ih c (n + Text.width piece)
      refine ⟨c', ?_⟩
      rw [List.append_assoc, hstep, hrest, Text.width_append, Nat.add_assoc]

/-- The text does not start with a piece of a gap. -/
structure Bare (d : Dialect) (cs : List Char) : Prop where
  space : isSpace (peek cs) = false
  comment : startsComment d cs = false

theorem between_bare (h : Bare d rest) (commented : Bool) (n : Nat) :
    between d commented n rest = .passed n rest := by
  obtain ⟨hspace, hcomment⟩ := h
  match rest with
  | [] => rw [between]
  | [c] =>
      have hc : isSpace c = false := hspace
      simp only [startsComment] at hcomment
      rw [between, hc, hcomment]
      rfl
  | a :: b :: cs =>
      have ha : isSpace a = false := hspace
      simp only [startsComment, Bool.or_eq_false_iff] at hcomment
      obtain ⟨⟨⟨hdashes, hslashes⟩, hblock⟩, hhash⟩ := hcomment
      rw [between, ha, hdashes, hslashes, hblock, hhash]
      rfl

/-- A step forward passes more than nothing. -/
theorem Outcome.Skips.ne_passed {front : List Char} {n m : Nat} {cs cs' : List Char}
    (hlt : n < m) {o : Outcome} (h : o.Skips d front m cs) : o ≠ .passed n cs' := by
  rintro rfl
  obtain ⟨gap, -, hn, -, -⟩ := h
  omega

theorem bare_of_between {commented : Bool} {n : Nat}
    (h : between d commented n rest = .passed n rest) : Bare d rest := by
  match rest with
  | [] => exact ⟨rfl, rfl⟩
  | [c] =>
      rw [between] at h
      split at h
      · cases h
      · rename_i hc
        simp only [Bool.or_eq_true, not_or, Bool.not_eq_true] at hc
        exact ⟨hc.1, hc.2⟩
  | a :: b :: cs =>
      rw [between] at h
      split at h
      · exact absurd h ((between_skips d commented (n + 1) (b :: cs)).ne_passed (by omega))
      · rename_i hspace
        split at h
        · rename_i hhash
          simp only [Bool.and_eq_true] at hhash
          exact absurd h ((inLine_skips d (n + 1) (b :: cs) (.hash hhash.2)
            List.not_mem_nil).ne_passed (by omega))
        · rename_i hhash
          split at h
          · exact absurd h ((inLine_skips d (n + 2) cs .dashes List.not_mem_nil).ne_passed
              (by omega))
          · rename_i hline
            split at h
            · exact absurd h ((inBlock_skips d _ commented n (n + 2) cs
                (open_take_one cs)).ne_passed (by omega))
            · rename_i hblock
              simp only [Bool.or_eq_true, not_or, Bool.not_eq_true] at hspace hhash hline hblock
              refine ⟨hspace, ?_⟩
              simp only [startsComment, hline.1, hline.2, hblock, hhash, Bool.or_self]

/-- A gap is stepped over whole if no piece of a gap follows it. -/
theorem skip_closed (hgap : Closed d gap) (hrest : Bare d rest) :
    skip d (gap ++ rest) = .passed (Text.width gap) rest := by
  obtain ⟨c, hskip⟩ := between_closed hgap false 0 rest
  rw [skip, hskip, between_bare hrest, Nat.zero_add]

/-- What follows a gap that was stepped over does not start with a piece of a gap. -/
theorem bare_of_skip {cs : List Char} {n : Nat} (h : skip d cs = .passed n rest) :
    Bare d rest := by
  by_cases hrest : rest = []
  · rw [hrest]
    exact ⟨rfl, rfl⟩
  · obtain ⟨gap, rfl, rfl, -, hclosed⟩ := skip_gap h
    obtain ⟨c, hskip⟩ := between_closed (hclosed hrest) false 0 rest
    rw [skip, hskip, Nat.zero_add] at h
    exact bare_of_between h

/-- Whether a gap starts in front of a token depends on no more than the first character
behind it. -/
theorem Bare.regraft {front behind : List Char} (h : Bare d (front ++ behind)) (hfront : front ≠ [])
    (hhead : rest.head? = behind.head?) : Bare d (front ++ rest) := by
  obtain ⟨a, front, rfl⟩ := List.exists_cons_of_ne_nil hfront
  refine ⟨h.space, ?_⟩
  have hcomment := h.comment
  cases front with
  | cons b front => exact hcomment
  | nil =>
      cases behind with
      | nil =>
          cases rest with
          | nil => exact hcomment
          | cons c rest => cases hhead
      | cons b behind =>
          cases rest with
          | nil => cases hhead
          | cons c rest =>
              obtain rfl : c = b := by simpa using hhead
              exact hcomment

/-- A text that starts neither with a space character nor with the mark of a comment. -/
theorem bare_cons {c : Char} {cs : List Char} (hspace : isSpace c = false) (hdash : c ≠ '-')
    (hslash : c ≠ '/') (hhash : c ≠ '#') : Bare d (c :: cs) := by
  refine ⟨hspace, ?_⟩
  cases cs <;> simp [startsComment, hdash, hslash, hhash]

theorem bare_by (d : Dialect) {c : Char} (h : c.toLower = 'b') (cs : List Char) :
    Bare d (c :: cs) := by
  refine bare_cons ?_ ?_ ?_ ?_
  · rw [← isSpace_toLower, h]
    rfl
  all_goals
    rintro rfl
    cases h

theorem closed_spaces {spaces : List Char} (h : ∀ c ∈ spaces, isSpace c = true) :
    Closed d spaces := by
  induction spaces with
  | nil => exact .nil
  | cons c spaces ih =>
      obtain ⟨hc, hspaces⟩ := List.forall_mem_cons.1 h
      exact .cons (.space hc) (ih hspaces)

end Gap

/-! ## Texts that are put together -/

/-- The lexeme that a token is, in front of `rest`. -/
def Token.lexeme (t : Token) (rest : List Char) : Lexeme := ⟨t.kind, t.text.toList, rest⟩

@[simp] theorem Token.lexeme_text (t : Token) (rest : List Char) :
    (t.lexeme rest).text = t.text.toList := rfl

@[simp] theorem Token.lexeme_rest (t : Token) (rest : List Char) : (t.lexeme rest).rest = rest := rfl

/-- Gaps and tokens that stand one behind the other from byte `offset` on and that are
read as such behind the token `previous`, up to a last gap. -/
inductive Reads (d : Dialect) : Nat → Option Lexeme → List Spaced → List Char → Prop
  | done {offset : Nat} {previous : Option Lexeme} {last : List Char} :
      Gap.skip d last = .passed (Text.width last) [] → Reads d offset previous [] last
  | token {offset : Nat} {previous : Option Lexeme} {x : Spaced} {xs : List Spaced}
      {last : List Char} :
      x.token.span = ⟨offset + Text.width x.gap,
        offset + Text.width x.gap + Text.width x.token.text.toList⟩ →
      Gap.Closed d x.gap →
      Gap.Bare d (x.token.text.toList ++ Spaced.text xs last) →
      Lexeme.read d (TokenStream.after previous (Text.width x.gap))
        (x.token.text.toList ++ Spaced.text xs last) =
          .ok (x.token.lexeme (Spaced.text xs last)) →
      Reads d (offset + Text.width x.gap + Text.width x.token.text.toList)
        (some (x.token.lexeme (Spaced.text xs last))) xs last →
      Reads d offset previous (x :: xs) last

namespace TokenStream

variable {d : Dialect} {offset : Nat} {previous : Option Lexeme}

/-- Behind a gap, one step gives the token that is read there. -/
theorem step_eq {gap cs : List Char} {l : Lexeme} (hgap : Gap.Closed d gap) (hbare : Gap.Bare d cs)
    (hread : Lexeme.read d (after previous (Text.width gap)) cs = .ok l) :
    step d offset previous (gap ++ cs) = .token (offset + Text.width gap) l := by
  have hsplit := Lexeme.read_splits d _ hread
  have hcs : cs ≠ [] := by
    rw [← hsplit.whole]
    simp [hsplit.nonempty]
  obtain ⟨c, tail, rfl⟩ := List.exists_cons_of_ne_nil hcs
  rw [step, Gap.skip_closed hgap hbare]
  simp only [hread]

/-- A step that gives a token steps over a gap and reads the token behind it. -/
theorem read_of_step {start : Nat} {cs : List Char} {l : Lexeme}
    (h : step d offset previous cs = .token start l) :
    ∃ gap, gap ++ (l.text ++ l.rest) = cs ∧ start = offset + Text.width gap ∧
      Gap.Closed d gap ∧ Gap.Bare d (l.text ++ l.rest) ∧
      Lexeme.read d (after previous (Text.width gap)) (l.text ++ l.rest) = .ok l := by
  unfold step at h
  split at h
  · cases h
  · cases h
  · rename_i skipped rest hrest hskip
    obtain ⟨gap, hgap, rfl, -, hclosed⟩ := Gap.skip_gap hskip
    split at h
    · rename_i l' hread
      cases h
      rw [(Lexeme.read_splits d _ hread).whole]
      exact ⟨gap, hgap, rfl, hclosed hrest, Gap.bare_of_skip hskip, hread⟩
    · cases h

/-- A step that finds no token steps over all that is left. -/
theorem skip_of_step {stop : Nat} {cs : List Char} (h : step d offset previous cs = .finished stop) :
    Gap.skip d cs = .passed (Text.width cs) [] ∧ stop = offset + Text.width cs := by
  obtain ⟨rfl, -⟩ := step_finished h
  unfold step at h
  split at h
  · cases h
  · rename_i skipped hskip
    obtain ⟨gap, hgap, rfl, -, -⟩ := Gap.skip_gap hskip
    rw [List.append_nil] at hgap
    rw [hskip, hgap]
    exact ⟨rfl, rfl⟩
  · split at h <;> cases h

end TokenStream

/-- The token at the end of a text. -/
def Token.endAt (offset : Nat) : Token := ⟨.endOfInput, "", ⟨offset, offset⟩⟩

theorem Token.tokenAt_lexeme {t : Token} {start : Nat}
    (h : t.span = ⟨start, start + Text.width t.text.toList⟩) (rest : List Char) :
    TokenStream.tokenAt start (t.lexeme rest) = t := by
  rw [TokenStream.tokenAt, lexeme_text, String.ofList_toList, ← h]
  rfl

/-- Gaps and tokens that are read make up a stream. -/
theorem Reads.readFrom_eq {d : Dialect} {offset fuel : Nat} {previous : Option Lexeme}
    {xs : List Spaced} {last : List Char} (h : Reads d offset previous xs last)
    (hfuel : xs.length < fuel) :
    TokenStream.readFrom d fuel offset previous (Spaced.text xs last) =
      ⟨xs.map Spaced.token ++ [.endAt (offset + Text.width (Spaced.text xs last))], none⟩ := by
  induction h generalizing fuel with
  | @done offset previous last hskip =>
      obtain ⟨fuel, rfl⟩ := Nat.exists_eq_add_of_lt hfuel
      rw [TokenStream.readFrom, TokenStream.step, Spaced.text_nil, hskip]
      rfl
  | @token offset previous x xs last hspan hgap hbare hread _ ih =>
      obtain ⟨fuel, rfl⟩ : ∃ n, fuel = n + 1 := ⟨fuel - 1, by simp at hfuel; omega⟩
      have hrest := ih (Nat.lt_of_succ_lt_succ hfuel)
      rw [TokenStream.readFrom, Spaced.text_cons, TokenStream.step_eq hgap hbare hread]
      simp only [Token.tokenAt_lexeme hspan, Token.lexeme_text, Token.lexeme_rest, hrest]
      simp [Nat.add_assoc]

/-- The tokens of a stream are read one behind the other. -/
theorem TokenStream.reads_of_readFrom {d : Dialect} {fuel offset : Nat} {previous : Option Lexeme}
    {cs : List Char} (h : (readFrom d fuel offset previous cs).failure = none) :
    ∃ xs last, Reads d offset previous xs last ∧ Spaced.text xs last = cs ∧
      (readFrom d fuel offset previous cs).tokens =
        xs.map Spaced.token ++ [.endAt (offset + Text.width cs)] := by
  induction fuel generalizing offset previous cs with
  | zero => cases h
  | succ fuel ih =>
      rw [readFrom] at h ⊢
      split at h
      · rename_i stop hstep
        obtain ⟨hskip, rfl⟩ := skip_of_step hstep
        exact ⟨[], cs, .done hskip, rfl, rfl⟩
      · cases h
      · rename_i start l hstep
        obtain ⟨gap, rfl, rfl, hgap, hbare, hread⟩ := read_of_step hstep
        obtain ⟨xs, last, hreads, hwhole, htokens⟩ := ih h
        have htext : (tokenAt (offset + Text.width gap) l).text.toList = l.text := by simp [tokenAt]
        have hlexeme : (tokenAt (offset + Text.width gap) l).lexeme (Spaced.text xs last) = l := by
          rw [Token.lexeme, htext, hwhole]
          rfl
        refine ⟨⟨gap, tokenAt (offset + Text.width gap) l⟩ :: xs, last, .token ?_ hgap ?_ ?_ ?_, ?_, ?_⟩
        · rw [htext]
          rfl
        · rw [htext, hwhole]
          exact hbare
        · rw [htext, hlexeme, hwhole]
          exact hread
        · rw [htext, hlexeme]
          exact hreads
        · rw [Spaced.text_cons, htext, hwhole]
        · simp only [htokens]
          simp [Nat.add_assoc]

/-- Where the word `BY` comes next, it is the next token, and it comes next in front of
every text that does not go on with it. -/
theorem Reads.first_of_beforeBy {d : Dialect} {offset : Nat} {previous : Option Lexeme}
    {y : Spaced} {ys : List Spaced} {last : List Char} (h : Reads d offset previous (y :: ys) last)
    (hby : Lexeme.beforeBy (Spaced.text (y :: ys) last) = true) :
    y.token.kind = .keyword .BY ∧ (∀ c ∈ y.gap, isSpace c = true) ∧
      ∀ rest, peek rest = peek (Spaced.text ys last) →
        Lexeme.beforeBy (y.gap ++ (y.token.text.toList ++ rest)) = true := by
  cases h with
  | token _ hgap hbare hread _ =>
      obtain ⟨spaces, b, c, rest, htext, hspaces, hb, hc, hend⟩ := Lexeme.beforeBy_iff.1 hby
      rw [Spaced.text_cons] at htext
      -- The gap in front of the token is the space in front of the word.
      have hskip := Gap.skip_closed (Gap.closed_spaces hspaces) (Gap.bare_by d hb (c :: rest))
      rw [← htext, Gap.skip_closed hgap hbare] at hskip
      obtain ⟨-, hrest⟩ := Gap.Outcome.passed.inj hskip
      rw [hrest] at htext hread
      obtain rfl : y.gap = spaces := List.append_cancel_right htext
      rw [Lexeme.read_by d _ hb hc hend] at hread
      obtain ⟨hkind, hword, rfl⟩ := Lexeme.mk.inj (Except.ok.inj hread)
      refine ⟨hkind.symm, hspaces, fun rest hpeek => Lexeme.beforeBy_iff.2 ?_⟩
      exact ⟨y.gap, b, c, rest, by rw [← hword]; rfl, hspaces, hb, hc, hpeek ▸ hend⟩

/-! ## Whole texts -/

theorem TokenStream.reads_ofText {d : Dialect} {source : List Char}
    (h : (ofText d source).failure = none) :
    ∃ xs last, Reads d 0 none xs last ∧ Spaced.text xs last = source ∧
      (ofText d source).tokens = xs.map Spaced.token ++ [.endAt (Text.width source)] := by
  by_cases hfits : Span.fits source = true
  · rw [ofText, if_pos hfits] at h ⊢
    obtain ⟨xs, last, hreads, hwhole, htokens⟩ := reads_of_readFrom h
    rw [Nat.zero_add] at htokens
    exact ⟨xs, last, hreads, hwhole, htokens⟩
  · rw [ofText, if_neg hfits] at h
    cases h

namespace Reads

variable {d : Dialect} {offset : Nat} {previous : Option Lexeme} {xs : List Spaced}
  {last : List Char}

theorem tail {x : Spaced} (h : Reads d offset previous (x :: xs) last) :
    Reads d (offset + Text.width x.gap + Text.width x.token.text.toList)
      (some (x.token.lexeme (Spaced.text xs last))) xs last := by
  cases h with
  | token _ _ _ _ hrest => exact hrest

theorem nonempty (h : Reads d offset previous xs last) :
    ∀ x ∈ xs, x.token.text.toList ≠ [] := by
  induction h with
  | done => simp
  | token _ _ _ hread _ ih =>
      exact List.forall_mem_cons.2 ⟨(Lexeme.read_splits d _ hread).nonempty, ih⟩

theorem length_le (h : Reads d offset previous xs last) :
    xs.length ≤ (Spaced.text xs last).length := by
  have hnonempty := h.nonempty
  clear h
  induction xs with
  | nil => exact Nat.zero_le _
  | cons x xs ih =>
      obtain ⟨hx, hxs⟩ := List.forall_mem_cons.1 hnonempty
      have hpos := List.length_pos_iff.2 hx
      have hrest := ih hxs
      rw [Spaced.text_cons, List.length_append, List.length_append, List.length_cons]
      omega

/-- The tokens of a text that is put together from gaps and tokens that are read, if
its offsets fit into spans. -/
theorem tokenize_eq (h : Reads d 0 none xs last) :
    tokenize d (String.ofList (Spaced.text xs last)) =
      if Span.fits (Spaced.text xs last) then
        .ok (xs.map Spaced.token ++ [.endAt (Text.width (Spaced.text xs last))])
      else .error (Error.locate .lexical (Spaced.text xs last) 0 LexicalCause.oversized.detail) := by
  have hread := h.readFrom_eq (Nat.lt_succ_of_le h.length_le)
  rw [tokenize, String.toList_ofList, TokenStream.ofText, hread, Nat.zero_add]
  by_cases hfits : Span.fits (Spaced.text xs last) = true
  · simp only [if_pos hfits]
  · simp only [if_neg hfits]

end Reads

end SqlMarkers
