/-
SqlMarkers.Proofs.Gaps — what may stand between two tokens.

`Gap.Piece` is the grammar of a single piece of a gap: a space character, a line
comment with its line end, a block comment, or a hint where the dialect has
hints. A gap is `Gap.Closed` if it is made of such pieces. Only the last gap of
a text may also end with a line comment that has no line end (`Gap.Final`).

The grammar knows nothing of how a gap is stepped over. `Gap.skip_gap` says
that `Gap.skip` steps over gaps of this grammar and nothing else. Its proof
follows the three functions that step over a gap; what was consumed of the
piece they are in the middle of is the `front` of `Outcome.Skips`.
-/
import SqlMarkers.Gap

namespace SqlMarkers.Gap

open CharClass

/-! ## The grammar of gaps -/

/-- The marks that start a line comment. -/
inductive LineMark (d : Dialect) : List Char → Prop
  | dashes : LineMark d ['-', '-']
  | slashes : LineMark d ['/', '/']
  | hash : d.features.hashComments = true → LineMark d ['#']

/-- The inside of a block, which the first closing mark ends. -/
def Enclosed (body : List Char) : Prop := ¬['*', '/'] <:+: body ++ ['*']

/-- A piece of a gap. -/
inductive Piece (d : Dialect) : List Char → Prop
  | space {c : Char} : isSpace c = true → Piece d [c]
  | line {mark body : List Char} :
      LineMark d mark → '\n' ∉ body → Piece d (mark ++ body ++ ['\n'])
  | comment {body : List Char} :
      (d.features.hints && body.head? == some '!') = false → Enclosed body →
      Piece d (['/', '*'] ++ body ++ ['*', '/'])
  | hint {body : List Char} :
      d.features.hints = true → body.head? = some '!' → Enclosed body →
      Piece d (['/', '*'] ++ body ++ ['*', '/'])

/-- A gap that is made of complete pieces. -/
inductive Closed (d : Dialect) : List Char → Prop
  | nil : Closed d []
  | cons {piece gap : List Char} : Piece d piece → Closed d gap → Closed d (piece ++ gap)

/-- A gap at the end of a text, where a line comment needs no line end. -/
inductive Final (d : Dialect) : List Char → Prop
  | closed {gap : List Char} : Closed d gap → Final d gap
  | openLine {gap mark body : List Char} :
      Closed d gap → LineMark d mark → '\n' ∉ body → Final d (gap ++ (mark ++ body))

theorem Final.cons {d : Dialect} {piece gap : List Char} (hpiece : Piece d piece)
    (h : Final d gap) : Final d (piece ++ gap) := by
  cases h with
  | closed hgap => exact .closed (.cons hpiece hgap)
  | openLine hgap hmark hbody =>
      rw [← List.append_assoc]
      exact .openLine (.cons hpiece hgap) hmark hbody

/-! ## Stepping over a gap -/

theorem utf8Size_of_isSpace {c : Char} (h : isSpace c = true) : c.utf8Size = 1 := by
  simp only [isSpace, Char.toNat, Bool.or_eq_true, Bool.and_eq_true, decide_eq_true_eq,
    beq_iff_eq] at h
  rw [Char.utf8Size_eq_one_iff, UInt32.le_iff_toNat_le]
  change c.val.toNat ≤ 127
  omega

/-- An outcome that was reached `n` bytes into a gap and with `front` consumed of the
piece that is stepped over: if the gap ends, then `cs` is the rest of the gap and
what follows it. -/
def Outcome.Skips (d : Dialect) (front : List Char) (n : Nat) (cs : List Char) : Outcome → Prop
  | .passed skipped rest => ∃ gap, gap ++ rest = cs ∧ skipped = n + Text.width gap ∧
      Final d (front ++ gap) ∧ (rest ≠ [] → Closed d (front ++ gap))
  | .unclosed _ _ _ => True

namespace Outcome.Skips

variable {d : Dialect} {front : List Char} {n : Nat} {c : Char} {cs : List Char} {o : Outcome}

/-- One more character of the piece. -/
theorem cons (h : o.Skips d (front ++ [c]) (n + c.utf8Size) cs) : o.Skips d front n (c :: cs) := by
  cases o with
  | unclosed => trivial
  | passed skipped rest =>
      obtain ⟨gap, rfl, rfl, hfinal, hclosed⟩ := h
      rw [List.append_assoc, List.singleton_append] at hfinal hclosed
      exact ⟨c :: gap, rfl, by rw [Text.width_cons, Nat.add_assoc], hfinal, hclosed⟩

/-- A piece ends, and the gap goes on behind it. -/
theorem piece (hpiece : Piece d front) (h : o.Skips d [] n cs) : o.Skips d front n cs := by
  cases o with
  | unclosed => trivial
  | passed skipped rest =>
      obtain ⟨gap, hcs, hskipped, hfinal, hclosed⟩ := h
      exact ⟨gap, hcs, hskipped, hfinal.cons hpiece, fun hrest => .cons hpiece (hclosed hrest)⟩

/-- The gap ends here. -/
theorem stop (d : Dialect) (n : Nat) (cs : List Char) : (passed n cs).Skips d [] n cs :=
  ⟨[], rfl, rfl, .closed .nil, fun _ => .nil⟩

/-- The text ends in a line comment. -/
theorem openLine {mark body : List Char} (hmark : LineMark d mark) (hbody : '\n' ∉ body)
    (n : Nat) : (passed n []).Skips d (mark ++ body) n [] := by
  refine ⟨[], rfl, rfl, ?_, fun hrest => absurd rfl hrest⟩
  rw [List.append_nil]
  exact .openLine .nil hmark hbody

end Outcome.Skips

/-- Two characters that do not close a block leave it open behind the first. -/
theorem not_closed_append {body : List Char} {a b : Char} (hbody : ¬['*', '/'] <:+: body ++ [a])
    (hab : ¬(a = '*' ∧ b = '/')) : ¬['*', '/'] <:+: body ++ [a] ++ [b] := by
  rw [List.infix_concat_iff]
  rintro (⟨before, hlast⟩ | hinside)
  · rw [List.append_assoc] at hlast
    have htwo : ['*', '/'] = [a, b] := List.append_inj_right' hlast rfl
    simp only [List.cons.injEq, and_true] at htwo
    exact hab ⟨htwo.1.symm, htwo.2.symm⟩
  · exact hbody hinside

/-- A block is open behind the mark that starts it. -/
theorem open_take_one (cs : List Char) : ¬['*', '/'] <:+: [] ++ cs.take 1 := by
  intro hinfix
  have hlength := hinfix.length_le
  simp only [List.nil_append, List.length_cons, List.length_nil, List.length_take] at hlength
  omega

/-- A block that is closed is a hint or a comment. -/
theorem piece_of_block {d : Dialect} {body : List Char} (hbody : Enclosed body) :
    Piece d (['/', '*'] ++ body ++ ['*', '/']) := by
  cases hhint : d.features.hints && body.head? == some '!' with
  | false => exact .comment hhint hbody
  | true =>
      simp only [Bool.and_eq_true, beq_iff_eq] at hhint
      exact .hint hhint.1 hhint.2 hbody

mutual

theorem between_skips (d : Dialect) (commented : Bool) (n : Nat) :
    ∀ cs, (between d commented n cs).Skips d [] n cs
  | [] => by
      rw [between]
      exact .stop d n []
  | [c] => by
      rw [between]
      split
      · rename_i hc
        simp only [Bool.or_eq_true, Bool.and_eq_true, beq_iff_eq] at hc
        rcases hc with hspace | ⟨rfl, hhash⟩
        · refine .cons (.piece (.space hspace) ?_)
          rw [utf8Size_of_isSpace hspace]
          exact .stop d (n + 1) []
        · exact .cons (.openLine (.hash hhash) List.not_mem_nil (n + 1))
      · exact .stop d n [c]
  | a :: b :: cs => by
      rw [between]
      split
      · rename_i ha
        refine .cons (.piece (.space ha) ?_)
        rw [utf8Size_of_isSpace ha]
        exact between_skips d commented (n + 1) (b :: cs)
      · split
        · rename_i ha
          simp only [Bool.and_eq_true, beq_iff_eq] at ha
          obtain ⟨rfl, hhash⟩ := ha
          have hline := inLine_skips d (n + 1) (b :: cs) (.hash hhash) List.not_mem_nil
          exact .cons hline
        · split
          · rename_i hab
            simp only [Bool.or_eq_true, Bool.and_eq_true, beq_iff_eq] at hab
            rcases hab with ⟨rfl, rfl⟩ | ⟨rfl, rfl⟩
            · have hline := inLine_skips d (n + 2) cs .dashes List.not_mem_nil
              exact .cons (.cons hline)
            · have hline := inLine_skips d (n + 2) cs .slashes List.not_mem_nil
              exact .cons (.cons hline)
          · split
            · rename_i hab
              simp only [Bool.and_eq_true, beq_iff_eq] at hab
              obtain ⟨rfl, rfl⟩ := hab
              exact .cons (.cons (inBlock_skips d _ commented n (n + 2) cs (open_take_one cs)))
            · exact .stop d n (a :: b :: cs)

theorem inLine_skips (d : Dialect) (n : Nat) : ∀ cs {mark body : List Char},
    LineMark d mark → '\n' ∉ body → (inLine d n cs).Skips d (mark ++ body) n cs
  | [], _, _, hmark, hbody => by
      rw [inLine]
      exact .openLine hmark hbody n
  | c :: cs, mark, body, hmark, hbody => by
      rw [inLine]
      split
      · rename_i hc
        obtain rfl : c = '\n' := by simpa using hc
        exact .cons (.piece (.line hmark hbody) (between_skips d true (n + 1) cs))
      · rename_i hc
        have hbody' : '\n' ∉ body ++ [c] := by
          simp only [List.mem_append, List.mem_singleton, not_or]
          exact ⟨hbody, fun heq => hc (by simp [← heq])⟩
        refine .cons ?_
        rw [List.append_assoc]
        exact inLine_skips d (n + c.utf8Size) cs hmark hbody'

/-- The block is open in front of `cs`: no closing mark ends in its next character. -/
theorem inBlock_skips (d : Dialect) (hint commented : Bool) (start n : Nat) :
    ∀ cs {body : List Char}, ¬['*', '/'] <:+: body ++ cs.take 1 →
      (inBlock d hint commented start n cs).Skips d (['/', '*'] ++ body) n cs
  | [], _, _ => by
      rw [inBlock]
      trivial
  | [_], _, _ => by
      rw [inBlock]
      trivial
  | a :: b :: cs, body, hopen => by
      rw [inBlock]
      split
      · rename_i hab
        simp only [Bool.and_eq_true, beq_iff_eq] at hab
        obtain ⟨rfl, rfl⟩ := hab
        refine .cons (.cons ?_)
        rw [List.append_assoc (['/', '*'] ++ body)]
        exact .piece (piece_of_block hopen) (between_skips d _ (n + 2) cs)
      · rename_i hab
        simp only [Bool.and_eq_true, beq_iff_eq] at hab
        refine .cons ?_
        rw [List.append_assoc]
        exact inBlock_skips d hint commented start (n + a.utf8Size) (b :: cs)
          (not_closed_append hopen hab)

end

/-- What is stepped over in front of a token is a gap; what is stepped over at the end
of a text may be cut off in a line comment. -/
theorem skip_gap {d : Dialect} {cs rest : List Char} {skipped : Nat}
    (h : skip d cs = .passed skipped rest) :
    ∃ gap, gap ++ rest = cs ∧ skipped = Text.width gap ∧ Final d gap ∧
      (rest ≠ [] → Closed d gap) := by
  have hskips := between_skips d false 0 cs
  rw [skip] at h
  rw [h] at hskips
  obtain ⟨gap, hcs, hskipped, hfinal, hclosed⟩ := hskips
  rw [Nat.zero_add] at hskipped
  exact ⟨gap, hcs, hskipped, hfinal, hclosed⟩

end SqlMarkers.Gap
