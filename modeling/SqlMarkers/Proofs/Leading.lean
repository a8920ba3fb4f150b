/-
SqlMarkers.Proofs.Leading — white space, comments and hints in front of a statement.

A closed gap in front of a text only moves what is read: the tokens stand as many bytes
further on as the gap is wide (`TokenStream.ofText_leading`), and with them the statement,
its markers and its faults (`parse_leading`).

There is one exception. A block without end that is marked as a hint is called a hint as
long as no comment came before it. So where a text starts with such a block, behind
nothing but white space and hints (`Gap.OpenHint`), a comment in front of the text changes
what the block is called.
-/
import SqlMarkers.Proofs.Shifting.Statement
import SqlMarkers.Proofs.Termination
import SqlMarkers.Proofs.Unclosed

namespace SqlMarkers

/-! ## Gaps -/

namespace Gap

variable {d : Dialect} {hint : Bool} {gap block cs : List Char}

/-- An outcome of stepping over a gap, `n` bytes further on. -/
def Outcome.shift (n : Nat) : Outcome → Outcome
  | .passed skipped rest => .passed (skipped + n) rest
  | .unclosed skipped cause again => .unclosed (skipped + n) cause again

/-- The text starts with a block that has no end and is marked as a hint, behind white
space and other hints. -/
def OpenHint (d : Dialect) (cs : List Char) : Prop :=
  ∃ gap block, gap ++ block = cs ∧ Uncommented d gap ∧ OpenBlock d true block

theorem OpenHint.prepend (hgap : Uncommented d gap) (h : OpenHint d cs) :
    OpenHint d (gap ++ cs) := by
  obtain ⟨front, block, rfl, hfront, hblock⟩ := h
  exact ⟨gap ++ front, block, List.append_assoc .., hgap.append hfront, hblock⟩

theorem between_shift (d : Dialect) (commented : Bool) (n k : Nat) (cs : List Char) :
    between d commented (n + k) cs = (between d commented n cs).shift k := by
  induction hlength : cs.length using Nat.strongRecOn generalizing cs commented n with
  | ind length ih =>
    cases front d cs with
    | bare hbare =>
        rw [between_bare hbare, between_bare hbare]
        rfl
    | lastLine hmark hbody =>
        rw [between_lastLine hmark hbody, between_lastLine hmark hbody, Nat.add_right_comm n,
          Nat.add_right_comm _ k]
        rfl
    | openBlock hblock =>
        rw [between_openBlock hblock, between_openBlock hblock]
        rfl
    | @piece piece rest hpiece =>
        obtain ⟨c, hstep⟩ := between_piece hpiece commented
        rw [hstep, hstep, Nat.add_right_comm]
        have hshort : rest.length < length := hlength ▸ hpiece.length_lt rest
        exact ih _ hshort c _ rest rfl

/-- Whether a comment came before makes a difference for a hint without end only. -/
theorem between_remembered (h : ¬OpenHint d cs) (n : Nat) :
    between d true n cs = between d false n cs := by
  induction hlength : cs.length using Nat.strongRecOn generalizing cs n with
  | ind length ih =>
    cases front d cs with
    | bare hbare => rw [between_bare hbare, between_bare hbare]
    | lastLine hmark hbody => rw [between_lastLine hmark hbody, between_lastLine hmark hbody]
    | @openBlock hint _ hblock =>
        rw [between_openBlock hblock, between_openBlock hblock]
        cases hint with
        | true => exact absurd ⟨[], cs, rfl, .nil, hblock⟩ h
        | false => rfl
    | @piece piece rest hpiece =>
        have hshort : rest.length < length := hlength ▸ hpiece.length_lt rest
        cases hpiece with
        | space hspace =>
            rw [between_space hspace, between_space hspace]
            exact ih _ hshort (fun hrest => h (hrest.prepend (.space hspace .nil))) _ rfl
        | line hmark hbody =>
            rw [between_lineComment hmark hbody, between_lineComment hmark hbody]
        | comment hplain hbody =>
            rw [between_block hbody, between_block hbody, hplain]
            rfl
        | @hint body hhints hhead hbody =>
            have hquiet : Uncommented d (['/', '*'] ++ body ++ ['*', '/']) := by
              simpa using Uncommented.hint hhints hhead hbody .nil
            rw [between_uncommented hquiet, between_uncommented hquiet]
            exact ih _ hshort (fun hrest => h (hrest.prepend hquiet)) _ rfl

/-- A closed gap in front moves what is stepped over, except that a comment in it may
change what a hint without end is called. -/
theorem skip_leading (hgap : Closed d gap) (h : Uncommented d gap ∨ ¬OpenHint d cs) :
    skip d (gap ++ cs) = (skip d cs).shift (Text.width gap) := by
  rw [skip, skip, ← between_shift]
  by_cases hquiet : Uncommented d gap
  · exact between_uncommented hquiet false 0 cs
  · rw [between_commented hgap hquiet]
    exact between_remembered (h.resolve_left hquiet) _

/-- Where a text starts with a hint without end, and what that is called behind a comment. -/
theorem skip_openHint (h : OpenHint d cs) : ∃ skipped,
    skip d cs = .unclosed skipped .unterminatedHint .unterminatedHint ∧
      ∀ gap, Closed d gap → ¬Uncommented d gap → skip d (gap ++ cs) =
        .unclosed (skipped + Text.width gap) .unterminatedComment .unterminatedHint := by
  obtain ⟨front, block, rfl, hfront, hblock⟩ := h
  refine ⟨Text.width front, ?_, fun gap hgap hcommented => ?_⟩
  · rw [skip, between_uncommented hfront, between_openBlock hblock, Nat.zero_add]
    rfl
  · rw [skip, between_commented hgap hcommented, between_uncommented hfront,
      between_openBlock hblock, Nat.zero_add, Nat.add_comm]
    rfl

theorem Bare.not_openHint (h : Bare d cs) : ¬OpenHint d cs := by
  intro hhint
  obtain ⟨skipped, hskip, -⟩ := skip_openHint hhint
  rw [skip, between_bare h] at hskip
  cases hskip

end Gap

/-! ## Tokens -/

theorem Span.fits_of_append {front cs : List Char} (h : fits (front ++ cs) = true) :
    fits cs = true := by
  rw [fits_iff, Text.width_append] at *
  omega

namespace TokenStream

variable {d : Dialect} {gap cs : List Char}

/-- A step of reading, `n` bytes further on. -/
def Step.shift (n : Nat) : Step → Step
  | .token start l => .token (start + n) l
  | .finished offset => .finished (offset + n)
  | .failed fault => .failed (fault.shift n)

theorem step_shift (d : Dialect) (offset n : Nat) (previous : Option Lexeme) (cs : List Char) :
    step d (offset + n) previous cs = (step d offset previous cs).shift n := by
  have hmove : ∀ k, offset + n + k = offset + k + n := fun k => Nat.add_right_comm offset n k
  unfold step
  cases Gap.skip d cs with
  | unclosed skipped cause again =>
      dsimp only
      rw [hmove]
      rfl
  | passed skipped rest =>
      cases rest with
      | nil => exact congrArg Step.finished (hmove skipped)
      | cons c rest =>
          dsimp only
          rw [hmove]
          cases Lexeme.read d (after previous skipped) (c :: rest) with
          | ok l => rfl
          | error slip =>
              dsimp only
              rw [Nat.add_right_comm (offset + skipped)]
              rfl

/-- Behind a closed gap the first token stands further on. -/
theorem step_leading (hgap : Gap.Closed d gap)
    (h : Gap.Uncommented d gap ∨ ¬Gap.OpenHint d cs) :
    step d 0 none (gap ++ cs) = (step d 0 none cs).shift (Text.width gap) := by
  rw [← step_shift]
  unfold step
  rw [Gap.skip_leading hgap h]
  have hmove : ∀ k, 0 + (k + Text.width gap) = 0 + Text.width gap + k := fun k => by omega
  cases Gap.skip d cs with
  | unclosed skipped cause again =>
      dsimp only [Gap.Outcome.shift]
      rw [hmove]
  | passed skipped rest =>
      cases rest with
      | nil => exact congrArg Step.finished (hmove skipped)
      | cons c rest =>
          dsimp only [Gap.Outcome.shift]
          rw [hmove]
          rfl

theorem readFrom_shift (d : Dialect) (n fuel offset : Nat) (previous : Option Lexeme)
    (cs : List Char) :
    readFrom d fuel (offset + n) previous cs = (readFrom d fuel offset previous cs).shift n := by
  induction fuel generalizing offset previous cs with
  | zero => rfl
  | succ fuel ih =>
      rw [readFrom, step_shift, readFrom]
      cases step d offset previous cs with
      | finished stop => rfl
      | failed fault => rfl
      | token start l =>
          dsimp only [Step.shift]
          rw [Nat.add_right_comm start, ih, tokenAt, Nat.add_right_comm start]
          rfl

/-- Behind a closed gap all tokens stand further on. -/
theorem ofText_leading (hgap : Gap.Closed d gap)
    (h : Gap.Uncommented d gap ∨ ¬Gap.OpenHint d cs) (hfits : Span.fits (gap ++ cs) = true) :
    ofText d (gap ++ cs) = (ofText d cs).shift (Text.width gap) := by
  rw [ofText, ofText, if_pos hfits, if_pos (Span.fits_of_append hfits), readFrom, readFrom, step_leading hgap h]
  cases hstep : step d 0 none cs with
  | finished stop => rfl
  | failed fault => rfl
  | token start l =>
      have hshorter := length_lt_of_step hstep
      have hmore : readFrom d (gap ++ cs).length (start + Text.width l.text) (some l) l.rest =
          readFrom d cs.length (start + Text.width l.text) (some l) l.rest :=
        readFrom_congr (by rw [List.length_append]; omega) hshorter
      dsimp only [Step.shift]
      rw [Nat.add_right_comm start, readFrom_shift, hmore, tokenAt, Nat.add_right_comm start]
      rfl

end TokenStream

/-! ## Statements -/

/-- Behind `gap` the text of a setting is found further on. -/
theorem Setting.behind_leading (env : Setting) (gap : List Char) :
    env.Behind (Text.width gap) { env with source := gap ++ env.source } where
  dialect := rfl
  catalogue := rfl
  limit := rfl
  text start stop := by rw [Reader.sourceText, Reader.sourceText, Text.slice?_shift]

/-- Behind a closed gap the same statement or fault is read further on. -/
theorem readStatement_leading {config : Config} {gap cs : List Char} (catalogue : Catalogue)
    (hgap : Gap.Closed config.dialect gap)
    (h : Gap.Uncommented config.dialect gap ∨ ¬Gap.OpenHint config.dialect cs)
    (hfits : Span.fits (gap ++ cs) = true) :
    readStatement config catalogue (gap ++ cs) =
      match readStatement config catalogue cs with
      | .ok s => .ok (s.shift (Text.width gap))
      | .error f => .error (f.shift (Text.width gap)) := by
  have hbehind := Setting.behind_leading ⟨cs, config.dialect, catalogue, config.maxDepth⟩ gap
  exact hbehind.read (TokenStream.ofText_leading hgap h hfits)

/-- Nothing is read behind a block without end. -/
theorem readStatement_unclosed {config : Config} {catalogue : Catalogue} {cs : List Char}
    {skipped : Nat} {cause again : LexicalCause} (hfits : Span.fits cs = true)
    (h : Gap.skip config.dialect cs = .unclosed skipped cause again) :
    readStatement config catalogue cs = .error (.lexical skipped cause) := by
  have hstep : TokenStream.step config.dialect 0 none cs =
      .failed ⟨0 + skipped, 0 + skipped, cause, again⟩ := by
    rw [TokenStream.step, h]
  have hcursor : Cursor.ofText config.dialect cs = .error (.lexical (0 + skipped) cause) := by
    rw [Cursor.ofText, TokenStream.ofText, if_pos hfits, TokenStream.readFrom, hstep]
    rfl
  rw [readStatement, Setting.read, Setting.run, hcursor, Nat.zero_add]
  rfl

/-- An error behind a text that is `n` bytes wide. -/
def Error.shift (n : Nat) (e : Error) : Error := { e with offset := e.offset + n }

/-- A failure behind a text that is `n` bytes wide. -/
def Failure.shift (n : Nat) : Failure → Failure
  | .error e => .error (e.shift n)
  | .undecodable => .undecodable

/-- A parsed statement behind the text `gap`. -/
def Parsed.behind (gap : List Char) (p : Parsed) : Parsed where
  source := gap ++ p.source
  statement := p.statement.shift (Text.width gap)
  markers := p.markers.map (Marker.shift (Text.width gap))

/-- What parsing gives behind the text `gap`, if only places change. -/
def resultBehind (gap : List Char) : Except Failure Parsed → Except Failure Parsed
  | .ok p => .ok (p.behind gap)
  | .error f => .error (f.shift (Text.width gap))

/-- An error shows the same text behind another one. -/
theorem Error.locate_behind (kind : ErrorKind) (gap cs : List Char) (offset : Nat)
    (detail : String) : locate kind (gap ++ cs) (offset + Text.width gap) detail =
      (locate kind cs offset detail).shift (Text.width gap) := by
  rw [locate, Text.tailFrom_shift]
  rfl

theorem Fault.toFailure_behind {f : Fault} (hf : f ≠ .stalled) (gap cs : List Char) :
    (f.shift (Text.width gap)).toFailure (gap ++ cs) =
      (f.toFailure cs).shift (Text.width gap) := by
  cases f with
  | lexical offset cause => exact congrArg Failure.error (Error.locate_behind ..)
  | grammar offset cause => exact congrArg Failure.error (Error.locate_behind ..)
  | undecodable => rfl
  | overflow => rfl
  | stalled => exact absurd rfl hf

variable {config : Config} {gap source : String} (catalogue : Catalogue)

theorem parse_behind (hgap : Gap.Closed config.dialect gap.toList)
    (h : Gap.Uncommented config.dialect gap.toList ∨
      ¬Gap.OpenHint config.dialect source.toList)
    (hfits : Span.fits (gap ++ source).toList = true) :
    parse config catalogue (gap ++ source) =
      resultBehind gap.toList (parse config catalogue source) := by
  rw [String.toList_append] at hfits
  rw [parse, String.toList_append, readStatement_leading catalogue hgap h hfits, parse]
  cases hread : readStatement config catalogue source.toList with
  | ok s =>
      dsimp only [resultBehind]
      rw [Statement.shift_allMarkers]
      rfl
  | error f =>
      have hf : f ≠ .stalled := fun hf =>
        (config.setting catalogue source).read_ne_stalled (hf ▸ hread)
      exact congrArg Except.error (Fault.toFailure_behind hf ..)

/-- A text that starts with a hint without end is refused there, and behind a comment the
same hint is called a comment. -/
theorem parse_openHint (hgap : Gap.Closed config.dialect gap.toList)
    (hcommented : ¬Gap.Uncommented config.dialect gap.toList)
    (hsource : Gap.OpenHint config.dialect source.toList)
    (hfits : Span.fits (gap ++ source).toList = true) :
    ∃ offset, parse config catalogue source =
        .error (Fault.toFailure source.toList (.lexical offset .unterminatedHint)) ∧
      parse config catalogue (gap ++ source) =
        .error (Fault.toFailure (gap ++ source).toList
          (.lexical (offset + Text.width gap.toList) .unterminatedComment)) := by
  rw [String.toList_append] at hfits
  obtain ⟨offset, halone, hbehind⟩ := Gap.skip_openHint hsource
  refine ⟨offset, ?_, ?_⟩
  · rw [parse, readStatement_unclosed (Span.fits_of_append hfits) halone]
  · rw [parse, String.toList_append, readStatement_unclosed hfits (hbehind _ hgap hcommented)]

/-- What stands in front of a statement changes nothing but places, except where a comment
comes before a hint without end. -/
theorem parse_leading (hgap : Gap.Closed config.dialect gap.toList)
    (hfits : Span.fits (gap ++ source).toList = true) :
    parse config catalogue (gap ++ source) =
        resultBehind gap.toList (parse config catalogue source) ↔
      Gap.Uncommented config.dialect gap.toList ∨
        ¬Gap.OpenHint config.dialect source.toList := by
  constructor
  · intro hsame
    by_contra hnot
    obtain ⟨hcommented, hhint⟩ := not_or.1 hnot
    obtain ⟨offset, halone, hbehind⟩ :=
      parse_openHint catalogue hgap hcommented (not_not.1 hhint) hfits
    rw [halone, hbehind] at hsame
    have hdetail := congrArg Error.detail (Failure.error.inj (Except.error.inj hsame))
    change LexicalCause.unterminatedComment.detail = LexicalCause.unterminatedHint.detail at hdetail
    exact absurd hdetail (by decide)
  · intro h
    exact parse_behind catalogue hgap h hfits

theorem closed_comment : Gap.Closed .mysql "/* c */".toList := by
  have hbody : Gap.Enclosed " c ".toList := by
    unfold Gap.Enclosed
    decide
  exact .cons (.comment rfl hbody) .nil

/-- A comment in front of a query moves it, and its marker with it. -/
theorem parse_leading_query :
    Gap.Closed .mysql "/* c */".toList ∧ Span.fits ("/* c */" ++ "SELECT a FROM t").toList = true ∧
      parse { dialect := .mysql } Catalogue.everyName ("/* c */" ++ "SELECT a FROM t") =
        resultBehind "/* c */".toList
          (parse { dialect := .mysql } Catalogue.everyName "SELECT a FROM t") := by
  have hbare : Gap.Bare .mysql "SELECT a FROM t".toList := ⟨rfl, rfl⟩
  refine ⟨closed_comment, rfl, (parse_leading _ closed_comment rfl).2 (.inr ?_)⟩
  exact hbare.not_openHint

/-- Behind a comment a hint without end is called a comment. -/
theorem parse_commented_hint :
    Gap.Closed .mysql "/* c */".toList ∧ Span.fits ("/* c */" ++ "/*! x").toList = true ∧
      parse { dialect := .mysql } Catalogue.everyName ("/* c */" ++ "/*! x") ≠
        resultBehind "/* c */".toList (parse { dialect := .mysql } Catalogue.everyName "/*! x") := by
  refine ⟨closed_comment, rfl, fun hsame => ?_⟩
  have halone : readStatement { dialect := .mysql } Catalogue.everyName "/*! x".toList =
      .error (.lexical 0 .unterminatedHint) := readStatement_unclosed rfl rfl
  have hbehind : readStatement { dialect := .mysql } Catalogue.everyName
      ("/* c */" ++ "/*! x").toList = .error (.lexical 7 .unterminatedComment) :=
    readStatement_unclosed rfl rfl
  rw [parse, parse, halone, hbehind] at hsame
  have hdetail := congrArg Error.detail (Failure.error.inj (Except.error.inj hsame))
  exact absurd hdetail (by decide)

end SqlMarkers
