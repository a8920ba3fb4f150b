/-
SqlMarkers.Proofs.Unclosed — blocks without end.

A text starts with a token, with a piece of a gap, with a last line comment or with a block
that has no end (`Gap.starts`), so stepping over a gap fails for one reason only: it met
such a block behind some pieces (`Gap.skip_unclosed`). What the block is called depends on the
pieces. An open hint is called so behind white space and other hints (`Gap.between_uncommented`),
and an open comment once a comment came before it (`Gap.between_commented`).
-/
import SqlMarkers.Proofs.Respacing

namespace SqlMarkers.Gap

open CharClass

variable {d : Dialect} {hint : Bool} {gap piece body block cs rest : List Char}

/-! ## Open blocks -/

/-- A block that has no end; `hint` tells whether it is marked as a hint. -/
def OpenBlock (d : Dialect) (hint : Bool) (block : List Char) : Prop :=
  ∃ body, block = '/' :: '*' :: body ∧ ¬['*', '/'] <:+: body ∧
    hint = (d.features.hints && peek body == '!')

theorem inBlock_open (hint commented : Bool) (start n : Nat) (h : ¬['*', '/'] <:+: body) :
    inBlock d hint commented start n body =
      .unclosed start (blockCause hint commented) (blockCause hint false) := by
  induction body generalizing n with
  | nil => rw [inBlock]
  | cons a body ih =>
      cases body with
      | nil => rw [inBlock]
      | cons b body =>
          have hab : ¬(a == '*' && b == '/') = true := by
            simp only [Bool.and_eq_true, beq_iff_eq]
            rintro ⟨rfl, rfl⟩
            exact h ⟨[], body, rfl⟩
          rw [inBlock, if_neg hab]
          exact ih _ fun hinfix => h (List.infix_cons hinfix)

theorem between_openBlock (h : OpenBlock d hint block) (commented : Bool) (n : Nat) :
    between d commented n block =
      .unclosed n (blockCause hint commented) (blockCause hint false) := by
  obtain ⟨body, rfl, hopen, rfl⟩ := h
  exact inBlock_open _ commented n (n + 2) hopen

/-- The first closing mark ends a block. -/
theorem exists_enclosed (h : ['*', '/'] <:+: cs) :
    ∃ body rest, cs = body ++ '*' :: '/' :: rest ∧ Enclosed body := by
  induction cs with
  | nil => cases List.infix_nil.1 h
  | cons c cs ih =>
      by_cases hfirst : ['*', '/'] <+: c :: cs
      · obtain ⟨rest, hrest⟩ := hfirst
        refine ⟨[], rest, hrest.symm, fun hinfix => ?_⟩
        have hlength := hinfix.length_le
        simp at hlength
      · obtain ⟨body, rest, rfl, hbody⟩ := ih ((List.infix_cons_iff.1 h).resolve_left hfirst)
        refine ⟨c :: body, rest, rfl, fun hinfix => ?_⟩
        rcases List.infix_cons_iff.1 hinfix with hmark | hinfix
        · -- A mark that starts at `c` goes on inside `body`, because a star stands behind it.
          refine hfirst ?_
          obtain ⟨rfl, hslash⟩ := List.cons_prefix_cons.1 hmark
          cases body with
          | nil => cases (List.cons_prefix_cons.1 hslash).1
          | cons b body =>
              obtain ⟨rfl, -⟩ := List.cons_prefix_cons.1 hslash
              exact ⟨body ++ '*' :: '/' :: rest, rfl⟩
        · exact hbody hinfix

/-! ## What a text starts with -/

/-- The ways in which a text starts. -/
inductive Front (d : Dialect) : List Char → Prop
  /-- A token, or nothing. -/
  | bare {cs : List Char} : Bare d cs → Front d cs
  | piece {piece : List Char} (rest : List Char) : Piece d piece → Front d (piece ++ rest)
  /-- A line comment that ends with the text. -/
  | lastLine {mark body : List Char} : LineMark d mark → '\n' ∉ body → Front d (mark ++ body)
  | openBlock {hint : Bool} {block : List Char} : OpenBlock d hint block → Front d block

theorem front_of_block (d : Dialect) (body : List Char) : Front d ('/' :: '*' :: body) := by
  by_cases h : ['*', '/'] <:+: body
  · obtain ⟨inner, rest, rfl, hinner⟩ := exists_enclosed h
    have hpiece := Front.piece rest (piece_of_block (d := d) hinner)
    simpa using hpiece
  · exact .openBlock ⟨body, rfl, h, rfl⟩

theorem front_of_line {mark : List Char} (hmark : LineMark d mark) (body : List Char) :
    Front d (mark ++ body) := by
  by_cases h : '\n' ∈ body
  · obtain ⟨line, rest, rfl, hline⟩ := List.eq_append_cons_of_mem h
    have hpiece := Front.piece rest (.line hmark hline)
    simpa using hpiece
  · exact .lastLine hmark h

theorem front (d : Dialect) (cs : List Char) : Front d cs := by
  by_cases hspace : isSpace (peek cs) = true
  · cases cs with
    | nil => cases hspace
    | cons c cs => exact .piece cs (.space hspace)
  · by_cases hcomment : startsComment d cs = true
    · match cs with
      | [] => cases hcomment
      | [a] =>
          simp only [startsComment, Bool.and_eq_true, beq_iff_eq] at hcomment
          obtain ⟨rfl, hhash⟩ := hcomment
          exact front_of_line (.hash hhash) []
      | a :: b :: cs =>
          simp only [startsComment, Bool.or_eq_true, Bool.and_eq_true, beq_iff_eq] at hcomment
          rcases hcomment with ((⟨rfl, rfl⟩ | ⟨rfl, rfl⟩) | ⟨rfl, rfl⟩) | ⟨rfl, hhash⟩
          · exact front_of_line .dashes cs
          · exact front_of_line .slashes cs
          · exact front_of_block d cs
          · exact front_of_line (.hash hhash) (b :: cs)
    · exact .bare ⟨by simpa using hspace, by simpa using hcomment⟩

/-! ## Stepping over a gap that does not end -/

theorem Piece.length_lt (h : Piece d piece) (rest : List Char) :
    rest.length < (piece ++ rest).length := by
  have hnonempty : piece ≠ [] := by cases h <;> simp
  have hpos := List.length_pos_iff.2 hnonempty
  rw [List.length_append]
  omega

theorem between_unclosed {commented : Bool} {n skipped : Nat} {cause again : LexicalCause}
    (h : between d commented n cs = .unclosed skipped cause again) :
    ∃ gap block hint commented', gap ++ block = cs ∧ Closed d gap ∧ OpenBlock d hint block ∧
      skipped = n + Text.width gap ∧ cause = blockCause hint commented' ∧
      again = blockCause hint false := by
  induction hlength : cs.length using Nat.strongRecOn generalizing cs commented n with
  | ind length ih =>
    cases front d cs with
    | bare hbare =>
        rw [between_bare hbare] at h
        cases h
    | lastLine hmark hbody =>
        rw [between_lastLine hmark hbody] at h
        cases h
    | openBlock hblock =>
        rw [between_openBlock hblock] at h
        cases h
        exact ⟨[], cs, _, commented, rfl, .nil, hblock, rfl, rfl, rfl⟩
    | @piece piece rest hpiece =>
        obtain ⟨c, hstep⟩ := between_piece hpiece commented
        rw [hstep] at h
        have hshort : rest.length < length := hlength ▸ hpiece.length_lt rest
        obtain ⟨gap, block, hint, c', rfl, hgap, hblock, rfl, hcause, hagain⟩ :=
          ih _ hshort h rfl
        exact ⟨piece ++ gap, block, hint, c', List.append_assoc .., .cons hpiece hgap, hblock,
          by rw [Text.width_append, Nat.add_assoc], hcause, hagain⟩

/-- Stepping over a gap fails at a block without end behind some pieces. -/
theorem skip_unclosed {skipped : Nat} {cause again : LexicalCause}
    (h : skip d cs = .unclosed skipped cause again) :
    ∃ gap block hint commented, gap ++ block = cs ∧ Closed d gap ∧ OpenBlock d hint block ∧
      skipped = Text.width gap ∧ cause = blockCause hint commented ∧
      again = blockCause hint false := by
  obtain ⟨gap, block, hint, commented, hcs, hgap, hblock, hskipped, hcause, hagain⟩ :=
    between_unclosed h
  exact ⟨gap, block, hint, commented, hcs, hgap, hblock, by rw [hskipped, Nat.zero_add], hcause,
    hagain⟩

theorem OpenBlock.hints (h : OpenBlock d true block) : d.features.hints = true := by
  obtain ⟨body, -, -, hhint⟩ := h
  exact (Bool.and_eq_true_iff.1 hhint.symm).1

/-! ## Comments in front of a block -/

/-- A gap that holds no comment, only white space and hints. -/
inductive Uncommented (d : Dialect) : List Char → Prop
  | nil : Uncommented d []
  | space {c : Char} {gap : List Char} :
      isSpace c = true → Uncommented d gap → Uncommented d (c :: gap)
  | hint {body gap : List Char} : d.features.hints = true → body.head? = some '!' →
      Enclosed body → Uncommented d gap → Uncommented d (['/', '*'] ++ body ++ ['*', '/'] ++ gap)

theorem Uncommented.append {more : List Char} (h : Uncommented d gap) (hmore : Uncommented d more) :
    Uncommented d (gap ++ more) := by
  induction h with
  | nil => exact hmore
  | space hspace _ ih => exact .space hspace ih
  | hint hhints hhead hbody _ ih =>
      rw [List.append_assoc]
      exact .hint hhints hhead hbody ih

theorem between_uncommented (h : Uncommented d gap) (commented : Bool) (n : Nat)
    (rest : List Char) :
    between d commented n (gap ++ rest) = between d commented (n + Text.width gap) rest := by
  induction h generalizing n with
  | nil => rfl
  | @space c gap hspace _ ih =>
      have hstep := between_space (d := d) hspace commented n (gap ++ rest)
      rw [List.cons_append, ← List.singleton_append, hstep, ih, Nat.add_assoc, ← Text.width_append]
      rfl
  | @hint body gap hhints hhead hbody _ ih =>
      have hstep := between_block (d := d) hbody commented n (gap ++ rest)
      have hmark : (commented || !(d.features.hints && body.head? == some '!')) = commented := by
        rw [hhints, hhead]
        exact Bool.or_false commented
      rw [hmark, ih, Nat.add_assoc, ← Text.width_append] at hstep
      rw [List.append_assoc _ gap, hstep]

/-- A comment in a gap is remembered to its end. -/
theorem between_commented (hgap : Closed d gap) (h : ¬Uncommented d gap) (commented : Bool)
    (n : Nat) (rest : List Char) :
    between d commented n (gap ++ rest) = between d true (n + Text.width gap) rest := by
  induction hgap generalizing commented n with
  | nil => exact absurd .nil h
  | @cons piece gap hpiece hgap ih =>
      -- Behind a comment it makes no difference what the rest of the gap holds.
      have hremembered : ∀ n, between d true n (gap ++ rest) =
          between d true (n + Text.width gap) rest := fun n => by
        by_cases hquiet : Uncommented d gap
        · exact between_uncommented hquiet true n rest
        · exact ih hquiet true n
      rw [List.append_assoc, Text.width_append, ← Nat.add_assoc]
      cases hpiece with
      | space hspace =>
          rw [between_space hspace]
          exact ih (fun hquiet => h (.space hspace hquiet)) commented _
      | line hmark hbody =>
          rw [between_lineComment hmark hbody]
          exact hremembered _
      | comment hplain hbody =>
          rw [between_block hbody, hplain, Bool.not_false, Bool.or_true]
          exact hremembered _
      | hint hhints hhead hbody =>
          rw [between_block hbody]
          exact ih (fun hquiet => h (.hint hhints hhead hbody hquiet)) _ _

end SqlMarkers.Gap
