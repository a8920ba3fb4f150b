/-
SqlMarkers.Proofs.Positions — where errors point.

The tokens of a text end in front of the first piece that is none: a block without end,
or text that no token starts with (`Broken`, `TokenStream.breaks_ofText`). A lexical error
points at the first byte of that piece, behind all tokens. Only in a national string it points
one byte further, at the opening quote. A grammar error points at a token that the
reader had come to when it halted. Both places are character boundaries, so an error shows
the text from its offset on (`position_of_parse`).
-/
import SqlMarkers.Proofs.Cuts
import SqlMarkers.Proofs.Unclosed

namespace SqlMarkers

open CharClass

/-! ## Pieces that are no token -/

/-- A piece of text that no token starts with, where the text in front tells `b`. The
fault is found for a cause, and points a number of bytes behind the front of the piece. -/
inductive Broken (d : Dialect) (b : Lexeme.Before) : List Char → LexicalCause → Nat → Prop
  /-- A comment or a hint without end. -/
  | block {hint : Bool} {block : List Char} (commented : Bool) : Gap.OpenBlock d hint block →
      Broken d b block (Gap.blockCause hint commented) 0
  | lexeme {piece : List Char} {cause : LexicalCause} : piece ≠ [] →
      Lexeme.read d b piece = .error ⟨cause, 0⟩ → Broken d b piece cause 0
  /-- A national string without end. Its quote stands behind the mark. -/
  | national {mark : Char} {body : List Char} : mark = 'N' ∨ mark = 'n' →
      Lexeme.read d b (mark :: '\x27' :: body) = .error ⟨.unterminatedString, 1⟩ →
      Broken d b (mark :: '\x27' :: body) .unterminatedString 1

namespace Lexeme

/-- The mark and the quote of a national string. -/
theorem exists_national {d : Dialect} {number : Bool} {cs : List Char}
    (h : formOf d (peek cs) (peek (cs.drop 1)) number = some .nationalString) :
    ∃ mark body, cs = mark :: '\x27' :: body ∧ (mark = 'N' ∨ mark = 'n') := by
  unfold formOf at h
  split_ifs at h with hvariable hnational <;> cases h
  simp only [Bool.and_eq_true, Bool.or_eq_true, beq_iff_eq] at hnational
  obtain ⟨⟨-, hmark⟩, hquote⟩ := hnational
  rcases cs with _ | ⟨mark, _ | ⟨quote, body⟩⟩
  · rcases hmark with hmark | hmark <;> cases hmark
  · cases hquote
  · obtain rfl : quote = '\x27' := hquote
    exact ⟨mark, body, rfl, hmark⟩

theorem broken_of_read {d : Dialect} {b : Before} {cs : List Char} {slip : Slip} (hcs : cs ≠ [])
    (h : read d b cs = .error slip) : Broken d b cs slip.cause slip.skip := by
  obtain ⟨cause, skip⟩ := slip
  rcases slip_of_read h with hslip | ⟨f, hform, hsplit⟩
  · cases hslip
    exact .lexeme hcs h
  · obtain ⟨hcause, hskip⟩ := slip_of_split hsplit
    dsimp only at hcause hskip ⊢
    by_cases hf : f = .nationalString
    · subst hf
      obtain ⟨mark, body, rfl, hmark⟩ := exists_national hform
      obtain rfl := List.mem_singleton.1 hcause
      rw [if_pos rfl] at hskip
      subst hskip
      exact .national hmark h
    · rw [if_neg hf] at hskip
      subst hskip
      exact .lexeme hcs h

end Lexeme

/-! ## What stands in front of a piece -/

/-- The tokens of a text, whose first byte has the number `offset`, end with `front`, and a
gap leads from there to `piece`. -/
structure Leads (d : Dialect) (offset : Nat) (cs : List Char) (ts : List Token)
    (front gap piece : List Char) : Prop where
  whole : front ++ (gap ++ piece) = cs
  closed : Gap.Closed d gap
  last : (ts.getLast?.map fun t => t.span.stop).getD offset = offset + Text.width front
  behind : ∀ t ∈ ts, t.span.stop ≤ offset + Text.width front

/-- What tokens and the gap behind them tell about the next token. -/
def TokenStream.behind (previous : Option Lexeme) (ts : List Token) (gap : List Char) :
    Lexeme.Before :=
  after ((ts.getLast?.map fun t => t.lexeme []).or previous) (Text.width gap)

/-- The fault of a text: the piece that it points into stands behind its tokens and a gap. -/
def LexicalFault.Breaks (d : Dialect) (offset : Nat) (previous : Option Lexeme) (cs : List Char)
    (ts : List Token) (f : LexicalFault) : Prop :=
  ∃ front gap piece skip, Leads d offset cs ts front gap piece ∧
    Broken d (TokenStream.behind previous ts gap) piece f.cause skip ∧
      f.offset = offset + Text.width front + Text.width gap + skip

theorem Leads.cons {d : Dialect} {offset next : Nat} {cs start front gap piece : List Char}
    {t : Token} {ts : List Token} (h : Leads d next cs ts front gap piece)
    (hnext : next = offset + Text.width start) (ht : t.span.stop = next) :
    Leads d offset (start ++ cs) (t :: ts) (start ++ front) gap piece where
  whole := by rw [List.append_assoc, h.whole]
  closed := h.closed
  last := by
    rw [Text.width_append, ← Nat.add_assoc, ← hnext, ← h.last, List.getLast?_cons]
    cases ts.getLast? <;> simp [ht]
  behind := by
    rw [Text.width_append, ← Nat.add_assoc, ← hnext]
    refine List.forall_mem_cons.2 ⟨?_, h.behind⟩
    rw [ht]
    exact Nat.le_add_right _ _

namespace TokenStream

variable {d : Dialect} {offset : Nat} {previous : Option Lexeme} {cs : List Char}
  {f : LexicalFault}

theorem behind_cons (start : Nat) (l : Lexeme) (ts : List Token) (gap : List Char) :
    behind previous (tokenAt start l :: ts) gap = behind (some l) ts gap := by
  rw [behind, behind, List.getLast?_cons]
  cases ts.getLast? with
  | none => simp [after, tokenAt, Token.lexeme]
  | some t => rfl

theorem breaks_of_step (h : step d offset previous cs = .failed f) :
    f.Breaks d offset previous cs [] := by
  have hnone : ∀ {gap piece : List Char}, Gap.Closed d gap →
      Leads d offset (gap ++ piece) [] [] gap piece := fun hgap => ⟨rfl, hgap, rfl, nofun⟩
  unfold step at h
  split at h
  · rename_i hskip
    cases h
    obtain ⟨gap, block, hint, commented, rfl, hgap, hblock, rfl, rfl, -⟩ := Gap.skip_unclosed hskip
    exact ⟨[], gap, block, 0, hnone hgap, .block commented hblock, rfl⟩
  · cases h
  · rename_i skipped rest hrest hskip
    split at h
    · cases h
    · rename_i slip hread
      cases h
      obtain ⟨gap, rfl, rfl, -, hclosed⟩ := Gap.skip_gap hskip
      exact ⟨[], gap, rest, slip.skip, hnone (hclosed hrest), Lexeme.broken_of_read hrest hread, rfl⟩

theorem breaks_readFrom {fuel : Nat} (hfuel : cs.length < fuel)
    (h : (readFrom d fuel offset previous cs).failure = some f) :
    f.Breaks d offset previous cs (readFrom d fuel offset previous cs).tokens := by
  induction fuel generalizing offset previous cs with
  | zero => exact absurd hfuel (Nat.not_lt_zero _)
  | succ fuel ih =>
      rw [readFrom] at h ⊢
      split at h
      · cases h
      · rename_i hstep
        cases h
        exact breaks_of_step hstep
      · rename_i start l hstep
        obtain ⟨gap, rfl, rfl, -, -, hread⟩ := read_of_step hstep
        have hlength := List.length_pos_iff.2 (Lexeme.read_splits d _ hread).nonempty
        simp only [List.length_append] at hfuel
        obtain ⟨front, gap', piece, skip, hleads, hbroken, hoffset⟩ := ih (by omega) h
        have hwidth : offset + Text.width gap + Text.width l.text =
            offset + Text.width (gap ++ l.text) := by rw [Text.width_append, Nat.add_assoc]
        refine ⟨gap ++ l.text ++ front, gap', piece, skip, ?_, ?_, ?_⟩
        · rw [← List.append_assoc]
          exact hleads.cons hwidth rfl
        · rw [behind_cons]
          exact hbroken
        · rw [hoffset, hwidth, Text.width_append (gap ++ l.text), ← Nat.add_assoc offset]

/-- A text whose offsets fit into spans has tokens up to its first broken piece. -/
theorem breaks_ofText {source : List Char} (hfits : Span.fits source = true)
    (h : (ofText d source).failure = some f) :
    f.Breaks d 0 none source (ofText d source).tokens := by
  rw [ofText, if_pos hfits] at h ⊢
  exact breaks_readFrom (Nat.lt_succ_self _) h

/-- The end of the input stands at the end of the text. -/
theorem start_of_isEnd {source : List Char} {t : Token} (ht : t ∈ (ofText d source).tokens)
    (hend : t.isEnd = true) : t.span.start = Text.width source := by
  cases hfailure : (ofText d source).failure with
  | none =>
      obtain ⟨xs, last, hreads, -, htokens⟩ := reads_ofText hfailure
      rw [htokens, List.mem_append, List.mem_map, List.mem_singleton] at ht
      rcases ht with ⟨x, hx, rfl⟩ | rfl
      · have hmem : x.token ∈ (ofText d source).tokens := by
          rw [htokens]
          exact List.mem_append_left _ (List.mem_map_of_mem hx)
        obtain ⟨-, -, -, -, hkind⟩ := (laid_ofText d source).mem hmem
        exact absurd (hkind.1 (by simpa [Token.isEnd] using hend)) (hreads.nonempty x hx)
      · rfl
  | some fault =>
      obtain ⟨ts, hts, ⟨-, htokens⟩ | ⟨hnone, -⟩⟩ := ends_ofText d source
      · rw [hts t (htokens ▸ ht)] at hend
        cases hend
      · rw [hnone] at hfailure
        cases hfailure

end TokenStream

/-! ## Errors -/

/-- The offset of an error is a boundary of the text, and its excerpt is what follows, as
far as an excerpt goes. -/
def Error.Shows (source : List Char) (e : Error) : Prop :=
  ∃ before after, before ++ after = source ∧ e.offset = Text.width before ∧
    e.excerpt = String.ofList (after.take 24)

/-- A lexical error points at the piece that the tokens of the text and a gap lead to. Of
a text whose offsets do not fit into spans nothing is read. -/
def Error.AtPiece (d : Dialect) (source : List Char) (e : Error) : Prop :=
  (∃ front gap piece cause skip,
    Leads d 0 source (TokenStream.ofText d source).tokens front gap piece ∧
    Broken d (TokenStream.behind none (TokenStream.ofText d source).tokens gap) piece cause skip ∧
    e.offset = Text.width front + Text.width gap + skip ∧ e.detail = cause.detail) ∨
  (Span.fits source = false ∧ e.offset = 0 ∧ e.detail = LexicalCause.oversized.detail)

/-- A grammar error points at a token that the reader had come to when it halted. -/
def Error.AtToken (env : Setting) (e : Error) : Prop :=
  ∃ cause c t, env.Halts (.grammar e.offset cause) c ∧ e.detail = cause.detail ∧ c.Met env t ∧
    e.offset = t.span.start ∧ (t.isEnd = true → e.offset = Text.width env.source)

theorem Error.shows_locate (kind : ErrorKind) (front rest : List Char) (detail : String) :
    (locate kind (front ++ rest) (Text.width front) detail).Shows (front ++ rest) := by
  refine ⟨front, rest, rfl, rfl, ?_⟩
  simp only [locate, Text.tailFrom_width_append]
  rfl

/-- The place a broken piece is reported at lies in it. -/
theorem Broken.exists_front {d : Dialect} {b : Lexeme.Before} {piece : List Char}
    {cause : LexicalCause} {skip : Nat} (h : Broken d b piece cause skip) :
    ∃ front rest, front ++ rest = piece ∧ Text.width front = skip := by
  cases h with
  | block => exact ⟨[], _, rfl, rfl⟩
  | lexeme => exact ⟨[], _, rfl, rfl⟩
  | @national mark body hmark =>
      refine ⟨[mark], '\x27' :: body, rfl, ?_⟩
      rcases hmark with rfl | rfl <;> rfl

theorem LexicalFault.position {d : Dialect} {source : List Char} {f : LexicalFault}
    (h : (TokenStream.ofText d source).failure = some f) :
    (Error.locate .lexical source f.offset f.cause.detail).Shows source ∧
      (Error.locate .lexical source f.offset f.cause.detail).AtPiece d source := by
  by_cases hfits : Span.fits source = true
  · obtain ⟨front, gap, piece, skip, hleads, hbroken, hoffset⟩ :=
      TokenStream.breaks_ofText hfits h
    rw [Nat.zero_add] at hoffset
    refine ⟨?_, .inl ⟨front, gap, piece, f.cause, skip, hleads, hbroken, hoffset, rfl⟩⟩
    obtain ⟨begun, rest, rfl, rfl⟩ := hbroken.exists_front
    rw [hoffset, ← hleads.whole, ← Text.width_append, ← Text.width_append, ← List.append_assoc gap,
      ← List.append_assoc front, ← List.append_assoc front]
    exact Error.shows_locate _ _ _ _
  · rw [TokenStream.ofText, if_neg hfits] at h
    cases h
    exact ⟨Error.shows_locate .lexical [] source _, .inr ⟨Bool.eq_false_iff.2 hfits, rfl, rfl⟩⟩

theorem Setting.Halts.position {env : Setting} {offset : Nat} {cause : GrammarCause} {c : Cursor}
    (h : env.Halts (.grammar offset cause) c) :
    (Error.locate .grammar env.source offset cause.detail).Shows env.source ∧
      (Error.locate .grammar env.source offset cause.detail).AtToken env := by
  obtain ⟨⟨t, ht, rfl⟩, -⟩ := h.stops
  have hmem := List.mem_of_mem_take ht
  refine ⟨?_, cause, c, t, h, rfl, ht, rfl, TokenStream.start_of_isEnd hmem⟩
  obtain ⟨before, after, hsource, hspan, -⟩ :=
    (TokenStream.laid_ofText env.dialect env.source).mem hmem
  rw [hspan, ← hsource, Nat.zero_add]
  exact Error.shows_locate _ _ _ _

/-- Every error points where its kind says, and shows the text from there on. -/
theorem position_of_parse {config : Config} {catalogue : Catalogue} {source : String} {e : Error}
    (h : parse config catalogue source = .error (.error e)) :
    e.Shows source.toList ∧
      match e.kind with
      | .lexical => e.AtPiece config.dialect source.toList
      | .grammar => e.AtToken (config.setting catalogue source) := by
  cases hread : (config.setting catalogue source).run with
  | ok result =>
      rw [parse_of_run hread] at h
      cases h
  | error f =>
      rw [parse_of_error hread] at h
      rcases Setting.halts_of_run hread with ⟨fault, hfault, rfl⟩ | ⟨c, hhalts⟩
      · cases h
        exact LexicalFault.position hfault
      · have hstops := hhalts.stops
        cases f with
        | lexical offset cause =>
            obtain ⟨fault, hfault, rfl, rfl⟩ := hstops
            cases h
            exact LexicalFault.position hfault
        | grammar offset cause =>
            cases h
            exact hhalts.position
        | undecodable => cases h
        | overflow | stalled => exact hstops.elim

/-- A national string without end: the error points at its quote, behind its mark. -/
theorem position_of_national :
    parse { dialect := .mysql } Catalogue.everyName "SELECT N'a, b" =
        .error (.error ⟨.lexical, 8, "unterminated string literal", "'a, b"⟩) ∧
      Error.Shows "SELECT N'a, b".toList
        ⟨.lexical, 8, "unterminated string literal", "'a, b"⟩ ∧
      Error.AtPiece .mysql "SELECT N'a, b".toList
        ⟨.lexical, 8, "unterminated string literal", "'a, b"⟩ := by
  have h : parse { dialect := .mysql } Catalogue.everyName "SELECT N'a, b" =
      .error (.error ⟨.lexical, 8, "unterminated string literal", "'a, b"⟩) :=
    error_of_run (by decide +kernel)
  exact ⟨h, position_of_parse h⟩

end SqlMarkers
