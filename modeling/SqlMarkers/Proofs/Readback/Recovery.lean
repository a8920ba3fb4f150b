/-
SqlMarkers.Proofs.Readback.Recovery — parts of a statement that are read back.

`Reader.Recovers env depth m render follow x gs` says that the glyphs `gs` make up the text
of `x`, that they can stand where an operand is due, and that the reader `m` reads them as
something with that text, in front of every token that `follow` admits. Leaves recover by
running their readers alone; readers of larger parts recover from those of smaller ones.
-/
import SqlMarkers.Proofs.Legible

namespace SqlMarkers

open Glyph

/-- The glyphs make up the text of `x` and are read as something with this text. -/
structure Reader.Recovers {α : Type} (env : Setting) (depth : Nat) (m : Reader α)
    (render : α → String) (follow : Kind → Bool) (x : α) (gs : List Glyph) : Prop where
  spells : spell gs = (render x).toList
  nonempty : gs ≠ []
  leads : Leads env.dialect gs
  attains : ∀ {r hs}, follow (ahead hs) = true → r.At env depth (gs ++ hs) →
    Attains m r fun a r' => render a = render x ∧ r'.At env depth hs

namespace Glyph

theorem spell_spaced {gs : List Glyph} (h : gs ≠ []) : spell (spaced gs) = ' ' :: spell gs := by
  obtain ⟨g, gs, rfl⟩ := List.exists_cons_of_ne_nil h
  rfl

@[simp] theorem ahead_append {gs : List Glyph} (h : gs ≠ []) (hs : List Glyph) :
    ahead (gs ++ hs) = ahead gs := by
  obtain ⟨g, gs, rfl⟩ := List.exists_cons_of_ne_nil h
  rfl

@[simp] theorem length_spaced (gs : List Glyph) : (spaced gs).length = gs.length := by
  cases gs <;> rfl

@[simp] theorem spaced_eq_nil {gs : List Glyph} : spaced gs = [] ↔ gs = [] := by
  cases gs <;> simp

@[simp] theorem ahead_spaced (gs : List Glyph) : ahead (spaced gs) = ahead gs := by
  cases gs <;> rfl

theorem enclosed_append (gs hs : List Glyph) :
    enclosed gs ++ hs = mark .leftParen :: (gs ++ (mark .rightParen :: hs)) := by
  simp [enclosed]

theorem ofText_ne_nil {d : Dialect} {text : String} (h : isRow d text = true) :
    ofText d text ≠ [] := by
  intro hnil
  simp [isRow, hnil] at h

/-- Glyphs for each part of a list, as a function of the part. -/
theorem exists_glyphs {α : Type} {xs : List α} {P : α → List Glyph → Prop}
    (h : ∀ x ∈ xs, ∃ gs, P x gs) : ∃ glyphs : α → List Glyph, ∀ x ∈ xs, P x (glyphs x) := by
  refine Classical.skolem (p := fun x gs => x ∈ xs → P x gs).1 fun x => ?_
  by_cases hx : x ∈ xs
  · obtain ⟨gs, hgs⟩ := h x hx
    exact ⟨gs, fun _ => hgs⟩
  · exact ⟨[], fun h => absurd h hx⟩

end Glyph

theorem Reader.Recovers.weaken {α : Type} {env : Setting} {depth : Nat} {m : Reader α}
    {render : α → String} {follow follow' : Kind → Bool} {x : α} {gs : List Glyph}
    (h : Recovers env depth m render follow x gs) (hfollow : ∀ k, follow' k = true → follow k = true) :
    Recovers env depth m render follow' x gs :=
  ⟨h.spells, h.nonempty, h.leads, fun hk hat => h.attains (hfollow _ hk) hat⟩

/-- What is read back has a text. -/
theorem Reader.Recovers.text_ne {α : Type} {env : Setting} {depth : Nat} {m : Reader α}
    {render : α → String} {follow : Kind → Bool} {x : α} {gs : List Glyph}
    (h : Recovers env depth m render follow x gs) : render x ≠ "" := by
  intro hempty
  have hspells := h.spells
  have hleads : Lexes env.dialect .fresh gs [] := h.leads [] rfl
  obtain ⟨g, gs, rfl⟩ := List.exists_cons_of_ne_nil h.nonempty
  rw [hempty] at hspells
  exact hleads.nonempty (List.append_eq_nil_iff.1 (List.append_eq_nil_iff.1 hspells).2).1

namespace Reader

section Leaves

variable {env : Setting} {depth levels : Nat} {inner : Inner}

theorem isRow_of_recovers {α : Type} {m : Setting → Inner → Reader α} {render : α → String}
    {d : Dialect} {n : Nat} {text : String} (h : recovers m render d n text = true) :
    isRow d text = true := by
  rw [recovers, Bool.and_eq_true] at h
  exact h.1

theorem expr_recovers (hin : inner.Admits env depth levels) {e : Expr}
    (h : e.legible env.dialect levels = true) :
    Recovers env depth (expression env inner) Render.expr Kind.stopsOperand e
      (Glyph.ofText env.dialect (Render.expr e)) :=
  have hrow := isRow_of_recovers h
  ⟨spell_ofText hrow, ofText_ne_nil hrow, leads_ofText hrow, attains_expression hin h⟩

theorem comparand_recovers (hin : inner.Admits env depth levels) {e : Expr}
    (h : e.legibleComparand env.dialect levels = true) :
    Recovers env depth (comparand env inner) Render.expr Kind.stopsOperand e
      (Glyph.ofText env.dialect (Render.expr e)) :=
  have hrow := isRow_of_recovers h
  ⟨spell_ofText hrow, ofText_ne_nil hrow, leads_ofText hrow, attains_comparand hin h⟩

theorem item_recovers (hin : inner.Admits env depth levels) {x : SelectItem}
    (h : x.legible env.dialect levels = true) :
    Recovers env depth (selectItem env inner) Render.item Kind.stopsItem x
      (Glyph.ofText env.dialect (Render.item x)) :=
  have hrow := isRow_of_recovers h
  ⟨spell_ofText hrow, ofText_ne_nil hrow, leads_ofText hrow, attains_selectItem hin h⟩

theorem column_recovers (env : Setting) (depth : Nat) {name : String}
    (h : legibleColumn env.dialect name = true) :
    Recovers env depth usingColumn Render.name (fun _ => true) name
      (Glyph.ofText env.dialect (Render.name name)) :=
  have hrow := isRow_of_recovers h
  ⟨spell_ofText hrow, ofText_ne_nil hrow, leads_ofText hrow, fun _ => attains_usingColumn h⟩

theorem pagingValue_recovers (env : Setting) (depth : Nat) {v : PagingValue}
    (h : v.legible env.dialect = true) :
    Recovers env depth pagingValue Render.pagingValue (fun _ => true) v
      (Glyph.ofText env.dialect (Render.pagingValue v)) :=
  have hrow := isRow_of_recovers h
  ⟨spell_ofText hrow, ofText_ne_nil hrow, leads_ofText hrow, fun _ => attains_pagingValue h⟩

end Leaves

/-! ## One level down -/

section Nesting

variable {α : Type} {env : Setting} {depth : Nat} {inner : Inner} {m : Reader α}
  {render : α → String} {follow : Kind → Bool} {x : α} {gs : List Glyph}

/-- What recovers one level down does so behind the check of the limit. -/
theorem Recovers.nested (h : Recovers env (depth + 1) m render follow x gs)
    (hdepth : depth < env.limit) : Recovers env depth (Reader.nested env m) render follow x gs := by
  refine ⟨h.spells, h.nonempty, h.leads, fun {r hs} hfollow hat => ?_⟩
  have hdeeper : r.deeper.At env (depth + 1) (gs ++ hs) :=
    ⟨hat.tokens, hat.failure,
      congrArg (fun x : Nesting => { x with depth := x.depth + 1 }) hat.level⟩
  have hlimit : ¬env.limit ≤ r.nesting.depth := by
    rw [hat.level]
    exact Nat.not_le.2 hdepth
  rcases (h.attains hfollow hdeeper).outcome with ⟨a, r', hm, ha, hat'⟩ | ⟨e, r', hm, he⟩
  · refine .yields (a := a) (s := r'.shallower) ?_ ⟨ha, hat'.tokens, hat'.failure, ?_⟩
    · rw [Yields, Reader.nested, if_neg hlimit, show m r.deeper = .ok a r' from hm]
    · exact congrArg (fun x : Nesting => { x with depth := x.depth - 1 }) hat'.level
  · refine .unmet (e := e) (s := r'.shallower) ?_ he
    rw [Reader.nested, if_neg hlimit, hm]

/-- A nested query has a scope of its own, which is none of the cursor. -/
theorem Recovers.embed {q : Query} (h : Recovers env depth inner.query Render.query follow q gs) :
    Recovers env depth inner.embed Render.query follow q gs := by
  refine ⟨h.spells, h.nonempty, h.leads, fun {r hs} hfollow hat => ?_⟩
  rcases (h.attains (r := { r with draft := Draft.startingAt r.draft.parameters }) hfollow
    (hat.congr rfl rfl)).outcome with ⟨q', r', hq, hrender, hat'⟩ | ⟨e, r', hq, he⟩
  · refine .yields (a := q') (s := r.leave r' q') ?_ ⟨hrender, hat'.congr rfl rfl⟩
    rw [Yields, Inner.embed, show inner.query _ = .ok q' r' from hq]
    rfl
  · refine .unmet (e := e) (s := r') ?_ he
    rw [Inner.embed, hq]

end Nesting

/-! ## Lists with commas -/

section Lists

variable {α : Type} {env : Setting} {depth : Nat} {entry : Reader α} {render : α → String}
  {xs : List α}

/-- The text of a list of parts with commas between them. -/
def listText (render : α → String) (xs : List α) : String := Render.commaList (xs.map render)

theorem ne_nil_of_listText {text : String} (h : listText render xs = text) (hne : text ≠ "") :
    xs ≠ [] := by
  rintro rfl
  exact hne h.symm

theorem spell_commas {glyphs : α → List Glyph}
    (h : ∀ x ∈ xs, spell (glyphs x) = (render x).toList ∧ glyphs x ≠ []) :
    spell (commas (xs.map glyphs)) = (listText render xs).toList ∧
      (xs ≠ [] → commas (xs.map glyphs) ≠ []) := by
  induction xs with
  | nil => exact ⟨rfl, fun h => absurd rfl h⟩
  | cons x xs ih =>
      obtain ⟨hx, hxs⟩ := List.forall_mem_cons.1 h
      cases xs with
      | nil => exact ⟨by simpa [listText, Render.commaList, commas] using hx.1, fun _ => hx.2⟩
      | cons y xs =>
          obtain ⟨hspell, hne⟩ := ih hxs
          refine ⟨?_, fun _ => by simp [commas]⟩
          have hspaced := spell_spaced (hne (by simp))
          simp only [List.map_cons, commas, listText, Render.commaList, spell_append, spell_cons,
            mark_gap, mark_text, String.intercalate_cons_cons, String.toList_append]
            at hspell hspaced ⊢
          rw [hspaced, hspell, hx.1]
          simp
          rfl

/-- A list recovers if each of its parts does, in front of a comma or, for the last one, of
what follows the list. Its glyphs are those of the first part and what can stand behind it. -/
theorem commaSeparated_splits (follow : α → Kind → Bool) (P : α → List Glyph → Prop) (hne : xs ≠ [])
    (hxs : ∀ x ∈ xs, ∃ gs, Recovers env depth entry render (follow x) x gs ∧ P x gs)
    (hcomma : ∀ x, follow x (.symbol .comma) = true) :
    ∃ x gs tail, xs.head? = some x ∧ P x gs ∧ gs ≠ [] ∧ Trails env.dialect tail ∧
      Recovers env depth (commaSeparated entry) (listText render)
        (fun k => xs.getLast?.all (follow · k) && k != .symbol .comma) xs (gs ++ tail) := by
  obtain ⟨glyphs, hglyphs⟩ := exists_glyphs hxs
  have hspell := spell_commas fun x hx => ⟨(hglyphs x hx).1.spells, (hglyphs x hx).1.nonempty⟩
  have hleads : ∀ ys : List α, ys ⊆ xs → Leads env.dialect (commas (ys.map glyphs)) := by
    refine fun ys hys => leads_commas fun gs hgs => ?_
    obtain ⟨x, hx, rfl⟩ := List.mem_map.1 hgs
    exact (hglyphs x (hys hx)).1.leads
  have hrecovers : Recovers env depth (commaSeparated entry) (listText render)
      (fun k => xs.getLast?.all (follow · k) && k != .symbol .comma) xs
      (commas (xs.map glyphs)) := by
    refine ⟨hspell.1, hspell.2 hne, hleads xs (List.Subset.refl _), fun {r hs} hfollow hat => ?_⟩
    rw [Bool.and_eq_true, bne_iff_ne] at hfollow
    have hentry : ∀ x ∈ xs, ∀ r hs', r.At env depth (glyphs x ++ hs') →
        (ahead hs' = .symbol .comma ∨ (hs' = hs ∧ xs.getLast? = some x)) →
        Attains entry r fun a r' => render a = render x ∧ r'.At env depth hs' := by
      intro x hx r hs' hat hend
      refine (hglyphs x hx).1.attains ?_ hat
      rcases hend with hend | ⟨rfl, hlast⟩
      · rw [hend]
        exact hcomma x
      · have hall := hfollow.1
        rw [hlast] at hall
        exact hall
    refine (attains_commaSeparated hne hentry hfollow.2 hat).mono ?_
    rintro as r' ⟨has, hr⟩
    refine ⟨?_, hr⟩
    rw [listText, has, listText]
  obtain ⟨x, xs, rfl⟩ := List.exists_cons_of_ne_nil hne
  have hx := hglyphs x List.mem_cons_self
  cases xs with
  | nil => exact ⟨x, glyphs x, [], rfl, hx.2, hx.1.nonempty, .nil, by simpa [commas] using hrecovers⟩
  | cons y xs =>
      exact ⟨x, glyphs x, _, rfl, hx.2, hx.1.nonempty,
        .comma (hleads (y :: xs) (List.subset_cons_self _ _)), hrecovers⟩

/-- A list recovers, and begins like its first part. -/
theorem commaSeparated_recovers (follow : α → Kind → Bool) (first : Kind → Prop) (hne : xs ≠ [])
    (hxs : ∀ x ∈ xs, ∃ gs, Recovers env depth entry render (follow x) x gs ∧ first (ahead gs))
    (hcomma : ∀ x, follow x (.symbol .comma) = true) :
    ∃ gs, Recovers env depth (commaSeparated entry) (listText render)
      (fun k => xs.getLast?.all (follow · k) && k != .symbol .comma) xs gs ∧ first (ahead gs) := by
  obtain ⟨x, gs, tail, -, hfirst, hgs, -, hrecovers⟩ :=
    commaSeparated_splits follow (fun _ gs => first (ahead gs)) hne hxs hcomma
  refine ⟨gs ++ tail, hrecovers, ?_⟩
  rw [ahead_append hgs]
  exact hfirst

/-- A list whose parts may all stand in front of the same tokens. -/
theorem list_recovers (follow : Kind → Bool) (first : Kind → Prop) (hne : xs ≠ [])
    (hxs : ∀ x ∈ xs, ∃ gs, Recovers env depth entry render follow x gs ∧ first (ahead gs))
    (hcomma : follow (.symbol .comma) = true) :
    ∃ gs, Recovers env depth (commaSeparated entry) (listText render)
      (fun k => follow k && k != .symbol .comma) xs gs ∧ first (ahead gs) := by
  obtain ⟨gs, hgs, hfirst⟩ := commaSeparated_recovers (fun _ => follow) first hne hxs fun _ => hcomma
  refine ⟨gs, hgs.weaken fun k hk => ?_, hfirst⟩
  rw [Bool.and_eq_true] at hk ⊢
  refine ⟨?_, hk.2⟩
  cases xs.getLast? with
  | none => rfl
  | some x => exact hk.1

end Lists

end Reader

end SqlMarkers
