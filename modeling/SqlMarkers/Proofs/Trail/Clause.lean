/-
SqlMarkers.Proofs.Trail.Clause — the trails of select items, of paging and of
`ORDER BY` and `GROUP BY`.

Each lemma starts at a reading that was reached with the parts `h` in hand and tells what is in
hand behind a run that gave a result: `h` and the parts of that result. Where the result may be
kept as text after all, nothing of it is in hand before that is known; the parts found on the
way belong to the text then.

How much the lemmas say of the edge follows from the last token. A closing parenthesis or a
number leaves nothing open (`Settled`); behind a name it was looked for a `.` or not
(`Running`, `Rested`).
-/
import SqlMarkers.Proofs.Trail.Source
import SqlMarkers.Reader.Item
import SqlMarkers.Reader.Paging

namespace SqlMarkers.Reader

variable {env : Setting} {inner : Inner} {s r r' : Reading} {h : List Part}

/-! ## Select items -/

/-- Nothing is in hand behind an operand, and it is in the middle of nothing but itself. -/
theorem fullOperand_yields (hi : inner.Tracked env) (hr : Reached env s h r) {u : Unit}
    (hn : Yields (fullOperand inner) r u r') : Running env s h r' := by
  obtain ⟨_, r₁, hoperand, hn⟩ := yields_bind.1 hn
  obtain ⟨_, hcont, -⟩ := yields_map.1 hn
  exact (continuation_yields hi (operand_yields hi hr hoperand) hcont).1.running

/-- A reader of a tail that tells whether it found anything. -/
def Tail (env : Setting) (s : Reading) (h : List Part) (r : Reading) (found : Bool)
    (r' : Reading) : Prop :=
  (found = true ∧ Running env s h r') ∨ (found = false ∧ r = r')

/-- A tail that found nothing did not move. -/
theorem Tail.reached {found : Bool} (ht : Tail env s h r found r') (hr : Reached env s h r) :
    Reached env s h r' := by
  rcases ht with ⟨-, hr'⟩ | ⟨-, rfl⟩
  · exact hr'.reached
  · exact hr

/-- The operators behind a select item. The invariant of the loop tells the two cases apart: if no
round was taken, the reading is the one at the start, with all that is known of it. -/
theorem comparisonTail_yields (hi : inner.Tracked env) (hr : Reached env s h r) {found : Bool}
    (hn : Yields (comparisonTail env inner) r found r') : Tail env s h r found r' := by
  refine repeatStep_yields (Tail env s h r) (Tail env s h r) ?_ (.inr ⟨rfl, rfl⟩) hn
  intro found r₁ round r₂ htail hround
  have hr₁ := htail.reached hr
  -- Every operator is a plain token with an operand behind it.
  have hoperand : r₁.cursor.current.kind.isPlain = true →
      Yields (do next; fullOperand inner; return .again true : Reader (Round Bool Bool)) r₁ round
        r₂ → round.Meets (Tail env s h r) (Tail env s h r) r₂ := by
    intro hplain hround
    obtain ⟨_, r₃, hnext, hround⟩ := yields_bind.1 hround
    obtain ⟨_, hfull, rfl⟩ := yields_map.1 hround
    exact .inl ⟨rfl, fullOperand_yields hi (hr₁.next hplain hnext).reached hfull⟩
  have hstop : Yields (pure (.stop found) : Reader (Round Bool Bool)) r₁ round r₂ →
      round.Meets (Tail env s h r) (Tail env s h r) r₂ := by
    intro hround
    obtain ⟨rfl, rfl⟩ := yields_pure.1 hround
    exact htail
  replace hround := bind_current hround
  split at hround
  · rename_i mark hk
    rcases yields_ite.1 hround with ⟨hcomp, hround⟩ | ⟨-, hround⟩
    · refine hoperand ?_ hround
      rw [hk]
      cases mark <;> simp_all [Symbol.isComparison, Kind.isPlain]
    · exact hstop hround
  · rename_i hk
    obtain ⟨_, r₃, hnext, hround⟩ := yields_bind.1 hround
    obtain ⟨_, r₄, hnot, hround⟩ := yields_bind.1 hround
    obtain ⟨_, hop, rfl⟩ := yields_map.1 hround
    have hr₄ := (hr₁.nextOf hk hnext rfl).skipKeyword hnot
    exact .inl ⟨rfl, operand_yields hi hr₄.reached hop⟩
  · rename_i hk
    obtain ⟨negates, r₃, hpeek, hround⟩ := yields_bind.1 hround
    obtain ⟨_, hpeek, -⟩ := yields_map.1 hpeek
    obtain ⟨-, rfl⟩ := peek_yields hpeek
    rcases yields_ite.1 hround with ⟨-, hround⟩ | ⟨-, hround⟩
    · obtain ⟨_, hnext, rfl⟩ := yields_map.1 hround
      exact .inl ⟨rfl, (hr₁.nextMarkOf hk hnext rfl rfl).running⟩
    · exact hstop hround
  · rename_i hk
    exact hoperand (by rw [hk]; rfl) hround
  · rename_i hk
    exact hoperand (by rw [hk]; rfl) hround
  · rename_i hk
    obtain ⟨_, r₃, hnext, hround⟩ := yields_bind.1 hround
    obtain ⟨_, r₄, hlow, hround⟩ := yields_bind.1 hround
    obtain ⟨_, r₅, hand, hround⟩ := yields_bind.1 hround
    obtain ⟨_, hhigh, rfl⟩ := yields_map.1 hround
    have hr₄ := fullOperand_yields hi (hr₁.nextOf hk hnext rfl).reached hlow
    have hr₅ := hr₄.reached.acceptKeyword hand
    exact .inl ⟨rfl, fullOperand_yields hi hr₅.reached hhigh⟩
  · rcases yields_ite.1 hround with ⟨hregexp, hround⟩ | ⟨-, hround⟩
    · exact hoperand (isPlain_of_isRegexp hregexp) hround
    · exact hstop hround

/-- An expression is put in hand as it was read. If comparisons follow, it is taken out again, and
the whole text is put in hand instead. -/
theorem expressionItem_yields (hi : inner.Tracked env) (hr : Reached env s h r) {i : SelectItem}
    (hn : Yields (expressionItem env inner) r i r') : Rested env s (h ++ i.parts) r' := by
  replace hn := bind_here hn
  obtain ⟨x, r₁, hexpr, hn⟩ := yields_bind.1 hn
  have hr₁ := expression_yields hi hr hexpr
  obtain ⟨found, r₂, htail, hn⟩ := yields_bind.1 hn
  -- The expression is kept as it is, or becomes part of a kept text.
  rcases comparisonTail_yields hi (hr₁.drop x).reached htail with ⟨rfl, hr₂⟩ | ⟨rfl, rfl⟩
  · rw [if_pos rfl] at hn
    obtain ⟨kept, r₃, hkeep, hn⟩ := yields_bind.1 hn
    obtain ⟨name, halias, rfl⟩ := yields_map.1 hn
    exact (optionalAlias_yields (hr₂.verbatimFrom hkeep).rested halias).1
  · rw [if_neg Bool.false_ne_true] at hn
    obtain ⟨name, halias, rfl⟩ := yields_map.1 (bind_pure hn)
    exact (optionalAlias_yields hr₁.1.rested halias).1

/-- The name of the function is plain, and its arguments end with a parenthesis. An aggregate by
itself has no parts; one that goes on is kept as text. -/
theorem aggregateItem_yields (hi : inner.Tracked env) (hr : Reached env s h r)
    (hplain : r.cursor.current.kind.isPlain = true) {a : Aggregate} {i : SelectItem}
    (hn : Yields (aggregateItem env inner a) r i r') : Rested env s (h ++ i.parts) r' := by
  replace hn := bind_here hn
  obtain ⟨_, r₁, hnext, hn⟩ := yields_bind.1 hn
  obtain ⟨arguments, r₂, hparens, hn⟩ := yields_bind.1 hn
  have hr₂ := parentheses_yields hi (hr.next hplain hnext).reached hparens
  obtain ⟨goesOn, r₃, hcont, hn⟩ := yields_bind.1 hn
  have hr₃ := continuation_yields hi hr₂.running hcont
  have hkept : ∀ {r₄ start}, Running env s h r₄ → Yields (do
      let e ← verbatimFrom env start
      return .expr e (← optionalAlias env)) r₄ i r' → Rested env s (h ++ i.parts) r' := by
    intro r₄ start hr₄ hn
    obtain ⟨kept, r₅, hkeep, hn⟩ := yields_bind.1 hn
    obtain ⟨name, halias, rfl⟩ := yields_map.1 hn
    exact (optionalAlias_yields (hr₄.verbatimFrom hkeep).rested halias).1
  rcases yields_ite.1 hn with ⟨-, hn⟩ | ⟨-, hn⟩
  · exact hkept hr₃.1.running (bind_pure hn)
  · obtain ⟨found, r₄, htail, hn⟩ := yields_bind.1 hn
    rcases comparisonTail_yields hi hr₃.reached htail with ⟨rfl, hr₄⟩ | ⟨rfl, rfl⟩
    · exact hkept hr₄ hn
    · replace hn := bind_lastEnd (Counter.bind_down hn)
      obtain ⟨name, halias, rfl⟩ := yields_map.1 hn
      simpa [SelectItem.parts] using (optionalAlias_yields hr₃.1.rested halias).1

/-- A look at an aggregate function moves nothing; its name is a plain token. -/
theorem aggregateAt?_yields {found : Option Aggregate} (hn : Yields aggregateAt? r found r') :
    r = r' ∧ (found ≠ none → r.cursor.current.kind.isPlain = true) := by
  replace hn := bind_current hn
  rcases yields_ite.1 hn with ⟨hk, hn⟩ | ⟨-, hn⟩
  · obtain ⟨t, r₁, hpeek, hn⟩ := yields_bind.1 hn
    obtain ⟨-, rfl⟩ := peek_yields hpeek
    refine ⟨?_, fun _ => by rw [hk]; rfl⟩
    rcases yields_ite.1 hn with ⟨-, hn⟩ | ⟨-, hn⟩ <;> exact (yields_pure.1 hn).2
  · obtain ⟨rfl, rfl⟩ := yields_pure.1 hn
    exact ⟨rfl, fun hne => absurd rfl hne⟩

/-- A look at `owner.*` moves nothing. Where it is found, the three tokens are known, and the owner
can be noted before it is consumed. -/
theorem atOwnedStar_yields {b : Bool} (hn : Yields atOwnedStar r b r') :
    r = r' ∧ (b = true → r.cursor.current.isName = true ∧
      (∃ t, r.cursor.lookAhead 1 = .ok t ∧ t.isSymbol .dot = true) ∧
      ∃ t, r.cursor.lookAhead 2 = .ok t ∧ t.isSymbol .star = true) := by
  replace hn := bind_current hn
  rcases yields_ite.1 hn with ⟨hname, hn⟩ | ⟨-, hn⟩
  · obtain ⟨t, _, hpeek, hn⟩ := yields_bind.1 hn
    obtain ⟨ht, rfl⟩ := peekNth_yields hpeek
    rcases yields_ite.1 hn with ⟨hdot, hn⟩ | ⟨-, hn⟩
    · obtain ⟨u, hpeek, rfl⟩ := yields_map.1 hn
      obtain ⟨hu, rfl⟩ := peekNth_yields hpeek
      exact ⟨rfl, fun hstar => ⟨hname, ⟨t, ht, hdot⟩, u, hu, hstar⟩⟩
    · obtain ⟨rfl, rfl⟩ := yields_pure.1 hn
      exact ⟨rfl, fun hb => by cases hb⟩
  · obtain ⟨rfl, rfl⟩ := yields_pure.1 hn
    exact ⟨rfl, fun hb => by cases hb⟩

/-- `owner.*` notes the owner before it consumes it. -/
theorem ownedStar_yields (hr : Reached env s h r) (hname : r.cursor.current.isName = true)
    {dot star : Token} (hdot : r.cursor.lookAhead 1 = .ok dot) (hisDot : dot.isSymbol .dot = true)
    (hstar : r.cursor.lookAhead 2 = .ok star) (hisStar : star.isSymbol .star = true)
    {r₀ r₁ r₂ : Reading} (hnote : Yields (noteOwner r.cursor.current) r () r₀)
    (hn₁ : Yields next r₀ () r₁) (hn₂ : Yields next r₁ () r₂) (hn₃ : Yields next r₂ () r') :
    Settled env s h r' := by
  obtain ⟨name, hdecoded, rfl⟩ := yields_noteOwner.1 hnote
  obtain ⟨c₁, hc₁, rfl⟩ := yields_onCursor.1 hn₁
  have hcur₁ : c₁.current = dot := Cursor.current_of_next hc₁ hdot
  have hat : c₁.current.isSymbol .dot = true := hcur₁ ▸ hisDot
  have hnext : Yields next r () (r.moved c₁) := yields_onCursor.2 ⟨c₁, hc₁, rfl⟩
  have hr₁ := hr.owner hname hdecoded hnext hat
  obtain ⟨c₂, hc₂, rfl⟩ := yields_onCursor.1 hn₂
  have hcur₂ : c₂.current = star :=
    Cursor.current_of_next hc₂ ((Cursor.lookAhead_of_next hc₁ 1).trans hstar)
  have hr₂ := hr₁.dot hat hn₂
  refine hr₂.reached.nextMarkOf (k := .symbol .star) ?_ hn₃ rfl rfl
  show c₂.current.kind = .symbol .star
  rw [hcur₂]
  exact Token.isSymbol_iff.1 hisStar

/-- A select item puts its parts in hand. -/
theorem selectItem_yields (hi : inner.Tracked env) (hr : Reached env s h r) {i : SelectItem}
    (hn : Yields (selectItem env inner) r i r') : Rested env s (h ++ i.parts) r' := by
  replace hn := bind_current hn
  rcases yields_ite.1 hn with ⟨hstar, hn⟩ | ⟨-, hn⟩
  · obtain ⟨_, hnext, rfl⟩ := yields_map.1 hn
    simpa [SelectItem.parts] using hr.nextOf (Token.isSymbol_iff.1 hstar) hnext rfl
  · obtain ⟨owned, _, hat, hn⟩ := yields_bind.1 hn
    obtain ⟨rfl, howned⟩ := atOwnedStar_yields hat
    rcases yields_ite.1 hn with ⟨htrue, hn⟩ | ⟨-, hn⟩
    · obtain ⟨hname, ⟨dot, hdot, hisDot⟩, star, hstar, hisStar⟩ := howned htrue
      obtain ⟨_, r₁, hnote, hn⟩ := yields_bind.1 hn
      obtain ⟨_, r₂, hn₁, hn⟩ := yields_bind.1 hn
      obtain ⟨_, r₃, hn₂, hn⟩ := yields_bind.1 hn
      obtain ⟨_, r₄, hn₃, hn⟩ := yields_bind.1 hn
      obtain ⟨name, _, hdecoded, hn⟩ := yields_bind.1 hn
      obtain ⟨-, rfl⟩ := yields_nameOf.1 hdecoded
      replace hn := bind_lastEnd hn
      obtain ⟨rfl, rfl⟩ := yields_pure.1 hn
      simpa [SelectItem.parts] using
        (ownedStar_yields hr hname hdot hisDot hstar hisStar hnote hn₁ hn₂ hn₃).rested
    · obtain ⟨found, _, hat, hn⟩ := yields_bind.1 hn
      obtain ⟨rfl, hplain⟩ := aggregateAt?_yields hat
      split at hn
      · exact aggregateItem_yields hi hr (hplain (by simp)) hn
      · exact expressionItem_yields hi hr hn

/-! ## Paging -/

/-- A placeholder is counted and put in hand; an integer has no parts. -/
theorem pagingValue_yields (hr : Reached env s h r) {v : PagingValue}
    (hn : Yields pagingValue r v r') : Settled env s (h ++ v.parts) r' := by
  replace hn := bind_current hn
  have hliteral : ∀ {k : Kind} {i : Int}, r.cursor.current.kind = k → k.isPlain = true →
      k.isName = false → Yields (do
        next
        return PagingValue.literal i r.cursor.current.span) r v r' →
      Settled env s (h ++ v.parts) r' := by
    intro k i hk hplain hname hn
    obtain ⟨_, hnext, rfl⟩ := yields_map.1 hn
    simpa [PagingValue.parts] using hr.nextMarkOf hk hnext hplain hname
  split at hn
  · rename_i hk
    obtain ⟨index, r₁, hcount, hn⟩ := yields_bind.1 hn
    obtain ⟨rfl, rfl⟩ := yields_nextParameter hcount
    obtain ⟨_, hnext, rfl⟩ := yields_map.1 hn
    obtain ⟨c, hc, rfl⟩ := yields_onCursor.1 hnext
    exact hr.count (Token.isSymbol_iff.2 hk) (yields_onCursor.2 ⟨c, hc, rfl⟩)
  · rename_i hk
    split at hn
    · exact hliteral hk rfl rfl hn
    · exact (yields_failAt.1 hn).elim
  · rename_i hk
    split at hn
    · exact hliteral hk rfl rfl hn
    · exact (yields_failAt.1 hn).elim
  · exact (yields_failExpected.1 hn).elim

/-- The part of `OFFSET ... FETCH` behind the offset. -/
theorem fetch_yields {offset : Option PagingValue}
    (hr : Rested env s (h ++ offset.toList.flatMap PagingValue.parts) r) {p : Paging}
    (hn : Yields (do
      if ← skipKeyword .FETCH then
        if !(← skipAnyOf [.FIRST, .NEXT]) then failExpected "FIRST or NEXT"
        let count ← pagingValue
        if !(← skipAnyOf [.ROW, .ROWS]) then failExpected "ROW or ROWS"
        let _ ← acceptKeyword .ONLY
        return { form := .offsetFetch, offset, rowCount := some count }
      else return { form := .offsetFetch, offset }) r p r') :
    Rested env s (h ++ p.parts) r' := by
  obtain ⟨hasFetch, r₁, hskip, hn⟩ := yields_bind.1 hn
  have hr₁ := hr.skipKeyword hskip
  rcases yields_ite.1 hn with ⟨-, hn⟩ | ⟨-, hn⟩
  · obtain ⟨first, r₂, hfirst, hn⟩ := yields_bind.1 hn
    have hr₂ := hr₁.skipAnyOf hfirst
    rcases yields_ite.1 hn with ⟨-, hn⟩ | ⟨-, hn⟩
    · exact (bind_failExpected hn).elim
    · obtain ⟨count, r₃, hcount, hn⟩ := yields_bind.1 hn
      have hr₃ := pagingValue_yields hr₂.reached hcount
      obtain ⟨rows, r₄, hrows, hn⟩ := yields_bind.1 hn
      have hr₄ := hr₃.rested.skipAnyOf hrows
      rcases yields_ite.1 hn with ⟨-, hn⟩ | ⟨-, hn⟩
      · exact (bind_failExpected hn).elim
      · obtain ⟨_, honly, rfl⟩ := yields_map.1 hn
        simpa [Paging.parts] using hr₄.reached.acceptKeyword honly
  · obtain ⟨rfl, rfl⟩ := yields_pure.1 hn
    simpa [Paging.parts] using hr₁

/-- The offset is in hand before the count, as in the tree. -/
theorem offsetFetch_yields (hr : Rested env s h r) {p : Paging}
    (hn : Yields offsetFetch r p r') : Rested env s (h ++ p.parts) r' := by
  obtain ⟨hasOffset, r₁, hskip, hn⟩ := yields_bind.1 hn
  have hr₁ := hr.skipKeyword hskip
  rcases yields_ite.1 hn with ⟨-, hn⟩ | ⟨-, hn⟩
  · obtain ⟨v, r₂, hvalue, hn⟩ := yields_bind.1 hn
    obtain ⟨_, r₃, hrows, hn⟩ := yields_bind.1 hn
    refine fetch_yields ?_ (bind_pure hn)
    simpa using (pagingValue_yields hr₁.reached hvalue).rested.skipAnyOf hrows
  · refine fetch_yields ?_ (bind_pure hn)
    simpa using hr₁

/-- A paging clause puts the parts of its values in hand. In `LIMIT offset, count` the offset comes
first in the text and last in the tree, so the parts are permuted there. -/
theorem optionalPaging_yields (hr : Rested env s h r) {p : Option Paging}
    (hn : Yields optionalPaging r p r') : Rested env s (h ++ Paging.partsIn p) r' := by
  replace hn := bind_current hn
  split at hn
  · rename_i hk
    obtain ⟨_, r₁, hnext, hn⟩ := yields_bind.1 hn
    obtain ⟨first, r₂, hfirst, hn⟩ := yields_bind.1 hn
    have hr₂ := pagingValue_yields (hr.reached.nextOf hk hnext rfl).reached hfirst
    obtain ⟨comma, r₃, hcomma, hn⟩ := yields_bind.1 hn
    have hr₃ := hr₂.rested.skip (skipPlain_yields (by simp [Kind.isPlain]) hcomma)
    rcases yields_ite.1 hn with ⟨-, hn⟩ | ⟨-, hn⟩
    · obtain ⟨count, hcount, rfl⟩ := yields_map.1 hn
      simpa [Paging.partsIn, Paging.parts] using (pagingValue_yields hr₃.reached hcount).rested
    · obtain ⟨hasOffset, r₄, hskip, hn⟩ := yields_bind.1 hn
      have hr₄ := hr₃.skipKeyword hskip
      rcases yields_ite.1 hn with ⟨-, hn⟩ | ⟨-, hn⟩
      · obtain ⟨offset, hoffset, rfl⟩ := yields_map.1 hn
        -- Here the offset stands behind the count.
        refine (pagingValue_yields hr₄.reached hoffset).rested.perm ?_
        simpa [Paging.partsIn, Paging.parts] using List.perm_append_comm.append_left h
      · obtain ⟨rfl, rfl⟩ := yields_pure.1 hn
        simpa [Paging.partsIn, Paging.parts] using hr₄
  · obtain ⟨p₁, hfetch, rfl⟩ := yields_map.1 hn
    simpa [Paging.partsIn] using offsetFetch_yields hr hfetch
  · obtain ⟨p₁, hfetch, rfl⟩ := yields_map.1 hn
    simpa [Paging.partsIn] using offsetFetch_yields hr hfetch
  · obtain ⟨rfl, rfl⟩ := yields_pure.1 hn
    simpa [Paging.partsIn] using hr

/-- The count of `TOP`, in parentheses or not. -/
theorem topCount_yields {β : Type} {f : PagingValue → Reader β} {b : β} (hr : Reached env s h r)
    (hn : Yields (if r.cursor.current.isSymbol .leftParen then do
        let opening ← acceptSymbol .leftParen
        let v ← pagingValue
        close opening
        let v ← pure v
        f v
      else do
        let v ← pagingValue
        f v) r b r') :
    ∃ v r₁, Settled env s (h ++ v.parts) r₁ ∧ Yields (f v) r₁ b r' := by
  rcases yields_ite.1 hn with ⟨-, hn⟩ | ⟨-, hn⟩
  · obtain ⟨opening, r₁, hopen, hn⟩ := yields_bind.1 hn
    obtain ⟨v, r₂, hvalue, hn⟩ := yields_bind.1 hn
    obtain ⟨_, r₃, hclose, hn⟩ := yields_bind.1 hn
    have hr₂ := pagingValue_yields (hr.openParen hopen).reached hvalue
    exact ⟨v, r₃, hr₂.reached.close hclose, bind_pure hn⟩
  · obtain ⟨v, r₁, hvalue, hn⟩ := yields_bind.1 hn
    exact ⟨v, r₁, pagingValue_yields hr hvalue, hn⟩

/-- `TOP` puts the parts of its count in hand. -/
theorem optionalTop_yields (hr : Rested env s h r) {p : Option Paging}
    (hn : Yields (optionalTop env) r p r') : Rested env s (h ++ Paging.partsIn p) r' := by
  rcases yields_ite.1 hn with ⟨-, hn⟩ | ⟨-, hn⟩
  · obtain ⟨rfl, rfl⟩ := yields_pure.1 hn
    simpa [Paging.partsIn] using hr
  · obtain ⟨top, r₁, hskip, hn⟩ := yields_bind.1 hn
    have hr₁ := hr.skipKeyword hskip
    rcases yields_ite.1 hn with ⟨-, hn⟩ | ⟨-, hn⟩
    · obtain ⟨rfl, rfl⟩ := yields_pure.1 hn
      simpa [Paging.partsIn] using hr₁
    · replace hn := bind_atSymbol hn
      obtain ⟨count, r₂, hr₂, hn⟩ := topCount_yields hr₁.reached hn
      obtain ⟨percent, r₃, hpercent, hn⟩ := yields_bind.1 hn
      have hr₃ := hr₂.rested.skipKeyword hpercent
      replace hn := bind_atKeyword hn
      obtain ⟨withTies, hties, hn⟩ := peekBehind_yields hn
      rcases yields_ite.1 hn with ⟨htrue, hn⟩ | ⟨-, hn⟩
      · obtain ⟨hwith, t, ht, hkey⟩ := hties htrue
        obtain ⟨_, r₄, hn₁, hn⟩ := yields_bind.1 hn
        obtain ⟨_, hn₂, rfl⟩ := yields_map.1 hn
        have hr₅ := hr₃.reached.nextTwo (by rw [hwith]; rfl) ht
          (by rw [Token.isKeyword_iff.1 hkey]; rfl) hn₁ hn₂
        simpa [Paging.partsIn, Paging.parts] using hr₅
      · obtain ⟨rfl, rfl⟩ := yields_pure.1 hn
        simpa [Paging.partsIn, Paging.parts] using hr₃

/-! ## Orders -/

theorem optionalDirection_yields (hr : Rested env s h r) {d : Option Direction}
    (hn : Yields optionalDirection r d r') : Rested env s h r' := by
  replace hn := bind_current hn
  split at hn
  · rename_i hk
    obtain ⟨_, hnext, -⟩ := yields_map.1 hn
    exact hr.reached.nextOf hk hnext rfl
  · rename_i hk
    obtain ⟨_, hnext, -⟩ := yields_map.1 hn
    exact hr.reached.nextOf hk hnext rfl
  · obtain ⟨-, rfl⟩ := yields_pure.1 hn
    exact hr

theorem optionalNulls_yields (hr : Rested env s h r) {n : Option NullsPlace}
    (hn : Yields optionalNulls r n r') : Rested env s h r' := by
  obtain ⟨found, r₁, hskip, hn⟩ := yields_bind.1 hn
  have hr₁ := hr.skipKeyword hskip
  rcases yields_ite.1 hn with ⟨-, hn⟩ | ⟨-, hn⟩
  · replace hn := bind_current hn
    split at hn
    · rename_i hk
      obtain ⟨_, hnext, -⟩ := yields_map.1 hn
      exact hr₁.reached.nextOf hk hnext rfl
    · rename_i hk
      obtain ⟨_, hnext, -⟩ := yields_map.1 hn
      exact hr₁.reached.nextOf hk hnext rfl
    · exact (yields_failExpected.1 hn).elim
  · obtain ⟨-, rfl⟩ := yields_pure.1 hn
    exact hr₁

/-- An entry has the parts of its expression; the words behind it are plain. -/
theorem orderItem_yields (hi : inner.Tracked env) (hr : Reached env s h r) {o : OrderItem}
    (hn : Yields (orderItem env inner) r o r') : Rested env s (h ++ o.expr.parts) r' := by
  obtain ⟨x, r₁, hexpr, hn⟩ := yields_bind.1 hn
  obtain ⟨direction, r₂, hdirection, hn⟩ := yields_bind.1 hn
  obtain ⟨nulls, hnulls, rfl⟩ := yields_map.1 hn
  have hr₁ := (expression_yields hi hr hexpr).1.rested
  exact optionalNulls_yields (optionalDirection_yields hr₁ hdirection) hnulls

/-- The entries put their parts in hand one by one. -/
theorem orderItems_yields (hi : inner.Tracked env) (hr : Reached env s h r) {os : List OrderItem}
    (hn : Yields (commaSeparated (orderItem env inner)) r os r') :
    Rested env s (h ++ OrderItem.partsIn os) r' :=
  commaSeparated_yields Rested.reached (fun hr hn => orderItem_yields hi hr hn) hr hn

theorem orderBy_yields (hi : inner.Tracked env) (hr : Rested env s h r) {os : List OrderItem}
    (hn : Yields (orderBy env inner) r os r') : Rested env s (h ++ OrderItem.partsIn os) r' := by
  obtain ⟨found, r₁, hskip, hn⟩ := yields_bind.1 hn
  have hr₁ := hr.skipKeyword hskip
  rcases yields_ite.1 hn with ⟨-, hn⟩ | ⟨-, hn⟩
  · obtain ⟨_, r₂, hby, hn⟩ := yields_bind.1 hn
    exact orderItems_yields hi (hr₁.reached.acceptKeyword hby).reached hn
  · obtain ⟨rfl, rfl⟩ := yields_pure.1 hn
    simpa [OrderItem.partsIn] using hr₁

/-- `WITH ROLLUP` behind the entries is two plain tokens. -/
theorem groupBy_yields (hi : inner.Tracked env) (hr : Rested env s h r) {os : List OrderItem}
    (hn : Yields (groupBy env inner) r os r') : Rested env s (h ++ OrderItem.partsIn os) r' := by
  obtain ⟨found, r₁, hskip, hn⟩ := yields_bind.1 hn
  have hr₁ := hr.skipKeyword hskip
  rcases yields_ite.1 hn with ⟨-, hn⟩ | ⟨-, hn⟩
  · obtain ⟨_, r₂, hby, hn⟩ := yields_bind.1 hn
    obtain ⟨items, r₃, hitems, hn⟩ := yields_bind.1 hn
    have hr₃ := orderItems_yields hi (hr₁.reached.acceptKeyword hby).reached hitems
    replace hn := bind_atKeyword hn
    obtain ⟨rollup, hrollup, hn⟩ := peekBehind_yields hn
    rcases yields_ite.1 hn with ⟨htrue, hn⟩ | ⟨-, hn⟩
    · obtain ⟨hwith, t, ht, hkey⟩ := hrollup htrue
      obtain ⟨_, r₄, hn₁, hn⟩ := yields_bind.1 hn
      obtain ⟨_, hn₂, rfl⟩ := yields_map.1 hn
      exact hr₃.reached.nextTwo (by rw [hwith]; rfl) ht
        (by rw [Token.isKeyword_iff.1 hkey]; rfl) hn₁ hn₂
    · obtain ⟨rfl, rfl⟩ := yields_pure.1 hn
      exact hr₃
  · obtain ⟨rfl, rfl⟩ := yields_pure.1 hn
    simpa [OrderItem.partsIn] using hr₁

end SqlMarkers.Reader
