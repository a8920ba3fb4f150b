/-
SqlMarkers.Proofs.Advances — a cursor moves on as a reader of bytes does.

A cursor holds all tokens of a statement from the start. `Bytewise.advance` keeps no more than
an offset and the current token, and reads the next token where it is needed. When that fails
it has stepped over the gap already and stays in front of the faulty piece, so a second
try starts there. `Meets` relates the two: either the reader stands behind its current
token, or it stands in front of the piece that failed, or at the end. In each of these
states a step of the cursor and one of the reader end alike and keep the relation
(`Meets.next`); the fault that a second try meets is the one that `LexicalFault.again`
foretells.
-/
import SqlMarkers.Proofs.Bytewise
import SqlMarkers.Proofs.Unclosed

namespace SqlMarkers.Bytewise

/-- The state of a reader of bytes. -/
structure Place where
  offset : Nat
  current : Token
deriving DecidableEq, Repr

/-- The offset at which stepping over the gap at an offset ends, at a token, at the end of the
text or in front of a block without end. -/
def haltAt (d : Dialect) (source : List Char) (offset : Nat) : Nat :=
  let ahead := bytesFrom source offset
  match Gap.skip d ahead with
  | .passed _ behind => offset + (ahead.length - behind.length)
  | .unclosed skipped _ _ =>
      match Text.takeWidth? skipped ahead with
      | some gap => offset + gap.length
      | none => offset

/-- Reads the next token. Where there is none, the reader stays in front of the piece that is
no token. -/
def advance (d : Dialect) (source : List Char) : EStateM Failure Place Unit := fun p =>
  match skipAt d source p.offset with
  | .error f => .error f { p with offset := haltAt d source p.offset }
  | .ok start =>
      match tokenAt d source p.current.kind start with
      | .ok t => .ok () ⟨t.span.stop, t⟩
      | .error f => .error f { p with offset := start }

variable {d : Dialect} {source front gap cs rest block : List Char} {hint : Bool}

theorem haltAt_unclosed {skipped : Nat} {cause again : LexicalCause}
    (h : Gap.skip d cs = .unclosed skipped cause again) :
    haltAt d (front ++ cs) (Text.width front) = Text.width front + skipped := by
  have hbytes := Gap.skip_bytes d cs
  rw [h] at hbytes
  generalize hskip : Gap.skip d (Text.bytes cs) = o at hbytes
  cases hbytes with
  | unclosed cause again hat =>
      obtain ⟨gap, rfl, rfl, rfl⟩ := hat
      rw [Text.bytes_append] at hskip
      simp only [haltAt, bytesFrom_width, Text.bytes_append, hskip, Text.takeWidth?_width_append,
        Text.length_bytes]

/-- What stops reading in front of `cs`, behind the gap `gap` and the token `previous`. -/
inductive Stops (d : Dialect) (offset : Nat) (previous : Option Lexeme) (gap cs : List Char) :
    LexicalFault → Prop
  | block {hint : Bool} : Gap.OpenBlock d hint cs → Stops d offset previous gap cs
      ⟨offset, offset, Gap.blockCause hint false, Gap.blockCause hint false⟩
  | token {slip : Slip} : Gap.Bare d cs → cs ≠ [] →
      Lexeme.read d (TokenStream.after previous (Text.width gap)) cs = .error slip →
      Stops d offset previous gap cs ⟨offset, offset + slip.skip, slip.cause, slip.cause⟩

/-- The reader of bytes stands where the cursor does. -/
inductive Meets (d : Dialect) (source : List Char) : Place → Cursor → Prop
  /-- Behind the current token. -/
  | behind {front cs : List Char} {previous : Option Lexeme} {t : Token} {fuel lastEnd : Nat} :
      front ++ cs = source → Follows front previous t.kind → cs.length < fuel →
      Meets d source ⟨Text.width front, t⟩
        ⟨t, (TokenStream.readFrom d fuel (Text.width front) previous cs).tokens,
          (TokenStream.readFrom d fuel (Text.width front) previous cs).failure, lastEnd⟩
  /-- In front of a piece that is no token. -/
  | stopped {front gap cs : List Char} {previous : Option Lexeme} {t : Token} {f : LexicalFault}
      {lastEnd : Nat} :
      front ++ (gap ++ cs) = source → Follows front previous t.kind → Gap.Closed d gap →
      Stops d (Text.width front + Text.width gap) previous gap cs f →
      Meets d source ⟨Text.width front + Text.width gap, t⟩ ⟨t, [], some f, lastEnd⟩
  /-- At the end of the text. -/
  | done {lastEnd : Nat} :
      Meets d source ⟨Text.width source, .endAt (Text.width source)⟩
        ⟨.endAt (Text.width source), [], none, lastEnd⟩

theorem Meets.current_eq {p : Place} {c : Cursor} (h : Meets d source p c) :
    p.current = c.current := by
  cases h <;> rfl

/-- A step of the cursor and one of the reader end alike. -/
inductive Same (d : Dialect) (source : List Char) :
    EStateM.Result Fault Cursor Unit → EStateM.Result Failure Place Unit → Prop
  | ok {c : Cursor} {p : Place} : Meets d source p c → Same d source (.ok () c) (.ok () p)
  | error {f : LexicalFault} {g : Failure} {c : Cursor} {p : Place} :
      g = fault source f.offset f.cause → Meets d source p c →
      Same d source (.error f.toFault c) (.error g p)

theorem advance_ok {offset start : Nat} {current t : Token}
    (hskip : skipAt d source offset = .ok start)
    (ht : tokenAt d source current.kind start = .ok t) :
    advance d source ⟨offset, current⟩ = .ok () ⟨t.span.stop, t⟩ := by
  simp only [advance, hskip, ht]

theorem advance_error {offset start : Nat} {current : Token} {f : Failure}
    (hskip : skipAt d source offset = .ok start)
    (ht : tokenAt d source current.kind start = .error f) :
    advance d source ⟨offset, current⟩ = .error f ⟨start, current⟩ := by
  simp only [advance, hskip, ht]

/-- At a block without end the reader stays in front of it. -/
theorem advance_unclosed {t : Token} {skipped : Nat} {cause again : LexicalCause}
    (h : Gap.skip d cs = .unclosed skipped cause again) :
    advance d (front ++ cs) ⟨Text.width front, t⟩ =
      .error (fault (front ++ cs) (Text.width front + skipped) cause)
        ⟨Text.width front + skipped, t⟩ := by
  simp only [advance, skipAt_unclosed h, haltAt_unclosed h]

theorem skipAt_bare (h : Gap.Bare d cs) :
    skipAt d (front ++ cs) (Text.width front) = .ok (Text.width front) := by
  have hnone : Gap.skip d ([] ++ cs) = .passed (Text.width []) cs := Gap.skip_closed .nil h
  exact skipAt_passed hnone

theorem tokenAt_end (d : Dialect) (source : List Char) (kind : Kind) :
    tokenAt d source kind (Text.width source) = .ok (.endAt (Text.width source)) := by
  have hnone : bytesFrom source (Text.width source) = [] := by
    have hbytes := bytesFrom_width source []
    rwa [List.append_nil, Text.bytes_nil] at hbytes
  rw [tokenAt, hnone]

/-- A fault behind a token leaves the cursor and the reader alike. -/
theorem Meets.same_fault {t : Token} {start offset lastEnd : Nat} {cause again : LexicalCause}
    {p : Place} (h : Meets d source p ⟨t, [], some ⟨start, offset, again, again⟩, t.span.stop⟩) :
    Same d source (Cursor.next ⟨t, [], some ⟨start, offset, cause, again⟩, lastEnd⟩)
      (.error (fault source offset cause) p) :=
  .error rfl h

/-- Behind a token, the next one is read. -/
theorem same_behind {front cs : List Char} {previous : Option Lexeme} {t : Token}
    {fuel lastEnd : Nat} (hfollows : Follows front previous t.kind) (hfuel : cs.length < fuel + 1)
    (hfits : Text.width (front ++ cs) ≤ Span.limit) :
    Same d (front ++ cs)
      (Cursor.next ⟨t, (TokenStream.readFrom d (fuel + 1) (Text.width front) previous cs).tokens,
        (TokenStream.readFrom d (fuel + 1) (Text.width front) previous cs).failure, lastEnd⟩)
      (advance d (front ++ cs) ⟨Text.width front, t⟩) := by
  cases hskip : Gap.skip d cs with
  | unclosed skipped cause again =>
      simp only [TokenStream.readFrom, TokenStream.step, hskip, advance_unclosed hskip]
      obtain ⟨gap, block, hint, commented, rfl, hgap, hblock, rfl, rfl, rfl⟩ :=
        Gap.skip_unclosed hskip
      refine Meets.same_fault ?_
      exact .stopped rfl hfollows hgap (.block hblock)
  | passed skipped rest =>
      obtain ⟨gap, rfl, rfl, -, hclosed⟩ := Gap.skip_gap hskip
      have hpassed : skipAt d (front ++ (gap ++ rest)) (Text.width front) = .ok _ :=
        skipAt_passed hskip
      cases rest with
      | nil =>
          have hwidth : Text.width (front ++ (gap ++ [])) = Text.width front + Text.width gap := by
            rw [List.append_nil, Text.width_append]
          have hend := tokenAt_end d (front ++ (gap ++ [])) t.kind
          rw [hwidth] at hend
          simp only [TokenStream.readFrom, TokenStream.step, hskip, advance_ok hpassed hend]
          rw [← hwidth]
          exact .ok .done
      | cons c rest =>
          have hgap := hclosed (List.cons_ne_nil c rest)
          have hread := tokenAt_eq hfollows hgap hfits (List.cons_ne_nil c rest)
          cases hl : Lexeme.read d (TokenStream.after previous (Text.width gap)) (c :: rest) with
          | error slip =>
              rw [hl] at hread
              simp only [TokenStream.readFrom, TokenStream.step, hskip, hl,
                advance_error hpassed hread]
              refine Meets.same_fault ?_
              exact .stopped rfl hfollows hgap
                (.token (Gap.bare_of_skip hskip) (List.cons_ne_nil c rest) hl)
          | ok l =>
              rw [hl] at hread
              simp only [TokenStream.readFrom, TokenStream.step, hskip, hl,
                advance_ok hpassed hread]
              have hsplit := Lexeme.read_splits d _ hl
              have hwhole : front ++ gap ++ l.text ++ l.rest = front ++ (gap ++ c :: rest) := by
                rw [List.append_assoc, List.append_assoc, hsplit.whole]
              have hshort : l.rest.length < fuel := by
                have hlength := congrArg List.length hsplit.whole
                have htext := List.length_pos_iff.2 hsplit.nonempty
                rw [List.length_append] at hlength hfuel
                omega
              have hmore : Meets d (front ++ (gap ++ c :: rest))
                  ⟨_, TokenStream.tokenAt (Text.width front + Text.width gap) l⟩
                  ⟨_, _, _, t.span.stop⟩ :=
                .behind hwhole (.token (front ++ gap) hsplit.nonempty) hshort
              rw [Text.width_append, Text.width_append] at hmore
              exact .ok hmore

theorem Meets.next {p : Place} {c : Cursor} (h : Meets d source p c)
    (hfits : Text.width source ≤ Span.limit) :
    Same d source (Cursor.next c) (advance d source p) := by
  cases h with
  | @behind front cs previous t fuel lastEnd hsource hfollows hfuel =>
      subst hsource
      obtain ⟨fuel, rfl⟩ := Nat.exists_eq_succ_of_ne_zero (Nat.ne_zero_of_lt hfuel)
      exact same_behind hfollows hfuel hfits
  | @stopped front gap cs previous t f lastEnd hsource hfollows hgap hstops =>
      subst hsource
      cases hstops with
      | block hblock =>
          have hskip : Gap.skip d cs = _ := Gap.between_openBlock hblock false 0
          have herror : advance d (front ++ gap ++ cs) ⟨Text.width (front ++ gap), t⟩ = _ :=
            advance_unclosed hskip
          rw [List.append_assoc, Text.width_append, Nat.add_zero] at herror
          rw [herror]
          refine Meets.same_fault ?_
          exact .stopped rfl hfollows hgap (.block hblock)
      | token hbare hne hread =>
          have hskip : skipAt d (front ++ gap ++ cs) (Text.width (front ++ gap)) = _ :=
            skipAt_bare hbare
          have htoken := tokenAt_eq hfollows hgap hfits hne
          rw [List.append_assoc, Text.width_append] at hskip
          rw [hread] at htoken
          rw [advance_error hskip htoken]
          refine Meets.same_fault ?_
          exact .stopped rfl hfollows hgap (.token hbare hne hread)
  | done =>
      have hbare : Gap.Bare d [] := ⟨rfl, rfl⟩
      have hskip : skipAt d (source ++ []) (Text.width source) = _ := skipAt_bare hbare
      rw [List.append_nil] at hskip
      rw [advance_ok hskip (tokenAt_end d source _)]
      exact .ok .done

/-! ## From the start of a text -/

/-- One try of the reader, whether it succeeds or fails. -/
def tryOn (d : Dialect) (source : List Char) (p : Place) : Place :=
  match advance d source p with
  | .ok _ p' | .error _ p' => p'

/-- The reader after `n` tries from the start of a text. -/
def reader (d : Dialect) (source : List Char) (n : Nat) : Place :=
  (tryOn d source)^[n] ⟨0, .endAt 0⟩

/-- After some number of tries the reader stands where the cursor does. -/
def Followed (d : Dialect) (source : List Char) (c : Cursor) : Prop :=
  Text.width source ≤ Span.limit ∧ ∃ n, Meets d source (reader d source n) c

theorem Followed.next {c c' : Cursor} (h : Followed d source c)
    (hnext : (∃ a, Cursor.next c = .ok a c') ∨ ∃ f, Cursor.next c = .error f c') :
    Followed d source c' := by
  obtain ⟨hfits, n, hn⟩ := h
  refine ⟨hfits, n + 1, ?_⟩
  have hsame := hn.next hfits
  rw [reader, Function.iterate_succ_apply', ← reader, tryOn]
  generalize Cursor.next c = result at hsame hnext
  generalize advance d source (reader d source n) = answer at hsame
  cases hsame with
  | ok hmeets =>
      obtain ⟨_, hok⟩ | ⟨_, herror⟩ := hnext
      · cases hok
        exact hmeets
      · cases herror
  | error _ hmeets =>
      obtain ⟨_, hok⟩ | ⟨_, herror⟩ := hnext
      · cases hok
      · cases herror
        exact hmeets

theorem followed_ofText {c : Cursor} (h : Cursor.ofText d source = .ok c) :
    Followed d source c := by
  rw [Cursor.ofText, TokenStream.ofText] at h
  split at h
  · rename_i hfits
    -- In front of the first token the reader takes the end of the input for the token before.
    have hmeets : Meets d source ⟨Text.width [], .endAt 0⟩ ⟨.endAt 0, _, _, 0⟩ :=
      .behind (List.nil_append source) .start (Nat.lt_succ_self _)
    have hstart : Followed d source _ := ⟨(Span.fits_iff source).1 hfits, 0, hmeets⟩
    rw [Text.width_nil] at hstart
    generalize TokenStream.readFrom d (source.length + 1) 0 none source = stream at h hstart
    obtain ⟨_ | ⟨t, ts⟩, failure⟩ := stream
    · cases failure <;> cases h
    · cases h
      exact hstart.next (.inl ⟨(), rfl⟩)
  · cases h

end SqlMarkers.Bytewise
