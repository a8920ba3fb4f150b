/-
SqlMarkers.Proofs.Replay.Alone — texts that can be read back alone.

The smallest parts of a statement that are rendered as one text are its leaves:
expressions, select items, tables, aliases, columns and paging values. A leaf recovers
(`Reader.recovers`) if its text is a row of tokens and, read alone, gives a leaf that is
rendered as the same text again. This can be decided by running the reader. What is nested in
a leaf is read by readers that may not look behind its text (`Inner.fencedUpTo`).

What recovers alone does so wherever its text is followed by a token that cannot go on with
it (`Reader.attains_of_alone`).
-/
import SqlMarkers.Proofs.Fence.Query
import SqlMarkers.Proofs.Replay.Item

namespace SqlMarkers

open Glyph

/-- A text that is read alone, where `n` levels may be nested. -/
def Setting.lone (d : Dialect) (n : Nat) (text : String) : Setting :=
  { source := text.toList, dialect := d, catalogue := .everyName, limit := n }

namespace Reader

variable {α : Type}

/-- What a text is read as alone, if the reader comes to its end. -/
def alone (m : Setting → Inner → Reader α) (d : Dialect) (n : Nat) (text : String) : Option α :=
  match Cursor.ofText d text.toList with
  | .error _ => none
  | .ok c =>
      match m (.lone d n text) (.fencedUpTo (.lone d n text) n) (Reading.start c) with
      | .ok a r => if r.cursor.current.isEnd then some a else none
      | .error _ _ => none

/-- Whether a text is a row of tokens that the reader, alone, reads as something that is
rendered as the same text. -/
def recovers (m : Setting → Inner → Reader α) (render : α → String) (d : Dialect) (n : Nat)
    (text : String) : Bool :=
  isRow d text && ((alone m d n text).map render == some text)

theorem yields_of_alone {m : Setting → Inner → Reader α} {d : Dialect} {n : Nat} {text : String}
    {a : α} (h : alone m d n text = some a) :
    ∃ c u, Cursor.ofText d text.toList = .ok c ∧
      Yields (m (.lone d n text) (.fencedUpTo (.lone d n text) n)) (Reading.start c) a u ∧
      u.cursor.current.isEnd = true := by
  unfold alone at h
  split at h
  · cases h
  · rename_i c hc
    split at h
    · rename_i b u hm
      split at h
      · rename_i hend
        cases h
        exact ⟨c, u, hc, hm, hend⟩
      · cases h
    · cases h

end Reader

/-- The cursor in front of a row of tokens. -/
theorem Cursor.rest_of_isRow {d : Dialect} {text : String} {c : Cursor} (hrow : isRow d text = true)
    (h : Cursor.ofText d text.toList = .ok c) :
    c.rest = Glyph.place 0 (Glyph.ofText d text) ∧ c.failure = none ∧ c.lastEnd = 0 := by
  have hspell : spell (Glyph.ofText d text) = text.toList := by
    rw [isRow, Bool.and_eq_true, decide_eq_true_eq] at hrow
    exact hrow.1
  have hlexes : Lexes d .fresh (Glyph.ofText d text) [] := leads_ofText hrow [] rfl
  have hfits : Span.fits text.toList = true := by
    by_contra hfits
    rw [Cursor.ofText, TokenStream.ofText, if_neg hfits] at h
    cases h
  have hstream := ofText_spell hlexes (by rw [hspell]; exact hfits)
  obtain ⟨t, ts, hplace, -⟩ := place_head 0 (Glyph.ofText d text)
  rw [hspell, hplace] at hstream
  rw [Cursor.ofText, hstream] at h
  cases h
  exact ⟨hplace.symm, rfl, rfl⟩

/-! ## Nested readers in another place -/

/-- The nested readers, `depth` levels down, read what is nested in a text as it is read when the
text is read alone, where `n` levels may be nested. -/
def Inner.Admits (env : Setting) (depth n : Nat) (inner : Inner) : Prop :=
  ∀ s : Stage, s.env = env → s.depth = depth → s.alone.limit = n →
    s.Nested (Inner.guardedUpTo s.alone n) inner

theorem Inner.admits_zero (env : Setting) (depth : Nat) (inner : Inner) :
    inner.Admits env depth 0 := fun s _ _ _ => s.nested_exhausted inner

theorem Inner.admits_upTo {env : Setting} {depth n m : Nat} (hn : n ≤ m)
    (h : depth + n ≤ env.limit) : (Inner.upTo env m).Admits env depth n := by
  rintro s rfl rfl rfl
  exact Stage.nested_upTo h hn

/-- Readers that follow replay what those of the text alone do. -/
theorem Stage.Nested.hosts {s : Stage} {n : Nat} {inner : Inner}
    (h : s.Nested (Inner.guardedUpTo s.alone n) inner) :
    s.Hosts (Inner.fencedUpTo s.alone n) inner :=
  ⟨fun hmoved => h.query.replays hmoved, fun hmoved => h.operand.replays hmoved⟩

theorem Reader.Replays.facing {α : Type} {s : Stage} {R : α → α → Prop} {m n : Reader α}
    {u r : Reading} (h : Replays s.Moved R m n u r) : Replays s.Facing R m n u r :=
  h.mono (fun _ _ h => h) fun _ _ h => h.facing

namespace Reader

variable {α : Type} {env : Setting} {inner : Inner} {depth n : Nat} {r : Reading} {text : String}
  {gs : List Glyph}

/-- A reader that reads a text alone reads it in its place, too. -/
theorem attains_of_alone {m : Setting → Inner → Reader α} {R : α → α → Prop} {a : α}
    (hin : inner.Admits env depth n) (hrow : isRow env.dialect text = true)
    (halone : alone m env.dialect n text = some a)
    (hm : ∀ (s : Stage) (u r : Reading), s.rest = gs → s.Hosts (.fencedUpTo s.alone n) inner →
      s.Facing u r → u.cursor.current.kind ≠ .endOfInput →
      Replays s.Facing R (m s.alone (.fencedUpTo s.alone n)) (m s.env inner) u r)
    (h : r.At env depth (Glyph.ofText env.dialect text ++ gs)) :
    Attains (m env inner) r fun b r' => R a b ∧ r'.At env depth gs := by
  obtain ⟨c, u, hc, hyields, hend⟩ := yields_of_alone halone
  obtain ⟨hrest, hfailure, -⟩ := Cursor.rest_of_isRow hrow hc
  obtain ⟨front, hsource, hplace⟩ := h.tokens
  have hspell := spell_ofText hrow
  let s : Stage :=
    { alone := .lone env.dialect n text
      env
      base := front
      rest := gs
      depth
      dialect := rfl
      source := by rw [hsource, spell_append, hspell]; rfl }
  have hproper : ∀ g ∈ Glyph.ofText env.dialect text, g.kind ≠ .endOfInput ∧ g.text ≠ [] :=
    Lexes.proper (leads_ofText hrow [] rfl)
  have hfacing : s.Facing (Reading.start c) r :=
    ⟨⟨[], Glyph.ofText env.dialect text, hspell.symm, hproper, hrest, hplace⟩,
      ⟨hfailure, h.failure⟩, rfl, h.level⟩
  have hlive : (Reading.start c).cursor.current.kind ≠ .endOfInput := by
    obtain ⟨g, gs', hg⟩ : ∃ g gs', Glyph.ofText env.dialect text = g :: gs' := by
      rw [isRow] at hrow
      cases hofText : Glyph.ofText env.dialect text with
      | nil => simp [hofText] at hrow
      | cons g gs' => exact ⟨g, gs', rfl⟩
    rw [hg] at hrest hproper
    have hcurrent : c.current = _ := (List.cons.inj hrest).1
    show c.current.kind ≠ _
    rw [hcurrent]
    exact (hproper g List.mem_cons_self).1
  refine (hm s _ _ rfl (hin s rfl rfl rfl).hosts hfacing hlive a u hyields).mono ?_
  rintro b r' ⟨hR, hat⟩
  refine ⟨hR, ?_⟩
  obtain ⟨front', gs', hsource', hproper', hu, hr⟩ := hat.tokens
  cases gs' with
  | nil =>
      refine ⟨⟨front ++ front', ?_, ?_⟩, hat.failure.2, hat.level.2⟩
      · have hfront : text.toList = front' ++ [] := hsource'
        rw [hsource, spell_append, hspell, hfront]
        simp
      · rw [Text.width_append]
        exact hr
  | cons g gs' =>
      have hcurrent : u.cursor.current = _ := (List.cons.inj hu).1
      rw [hcurrent] at hend
      exact absurd (Token.isEnd_iff.1 hend) (hproper' g List.mem_cons_self).1

theorem attains_of_recovers {m : Setting → Inner → Reader α} {render : α → String}
    (hin : inner.Admits env depth n) (h : recovers m render env.dialect n text = true)
    (hm : ∀ (s : Stage) (u r : Reading), s.rest = gs → s.Hosts (.fencedUpTo s.alone n) inner →
      s.Facing u r → u.cursor.current.kind ≠ .endOfInput →
      Replays s.Facing (Same render) (m s.alone (.fencedUpTo s.alone n)) (m s.env inner) u r)
    (hat : r.At env depth (Glyph.ofText env.dialect text ++ gs)) :
    Attains (m env inner) r fun b r' => render b = text ∧ r'.At env depth gs := by
  rw [recovers, Bool.and_eq_true, beq_iff_eq, Option.map_eq_some_iff] at h
  obtain ⟨hrow, a, halone, ha⟩ := h
  refine (attains_of_alone hin hrow halone hm hat).mono ?_
  rintro b r' ⟨hb, hr⟩
  exact ⟨hb.eq.symm.trans ha, hr⟩

/-- A reader that nests nothing reads a text in its place, wherever that is. -/
theorem attains_of_flat {m : Setting → Reader α} {render : α → String}
    (h : recovers (fun env _ => m env) render env.dialect 0 text = true)
    (hm : ∀ (s : Stage) (u r : Reading), s.rest = gs → s.Facing u r →
      u.cursor.current.kind ≠ .endOfInput →
      Replays s.Facing (Same render) (m s.alone) (m s.env) u r)
    (hat : r.At env depth (Glyph.ofText env.dialect text ++ gs)) :
    Attains (m env) r fun b r' => render b = text ∧ r'.At env depth gs :=
  attains_of_recovers (Inner.admits_zero env depth (.exhausted env)) h
    (fun s u r hrest _ hfacing hlive => hm s u r hrest hfacing hlive) hat

/-! ## Leaves in their place -/

/-- A table with an optional alias, without hints behind it, and the token of its name. -/
def plainTable (env : Setting) : Reader (Table × Token) := do
  let (t, token) ← tableName
  return ({ t with aliasName := ← optionalAlias env }, token)

theorem attains_expression (hin : inner.Admits env depth n)
    (h : recovers expression Render.expr env.dialect n text = true)
    (hstop : (ahead gs).stopsOperand = true)
    (hat : r.At env depth (Glyph.ofText env.dialect text ++ gs)) :
    Attains (expression env inner) r fun e r' => Render.expr e = text ∧ r'.At env depth gs := by
  refine attains_of_recovers hin h (fun s u r hrest hhosts hfacing hlive => ?_) hat
  subst hrest
  exact (Stage.expression_replays hhosts hfacing hlive hstop).mono (fun _ _ h => h.text)
    fun _ _ h => h.facing

theorem attains_selectItem (hin : inner.Admits env depth n)
    (h : recovers selectItem Render.item env.dialect n text = true)
    (hstop : (ahead gs).stopsItem = true)
    (hat : r.At env depth (Glyph.ofText env.dialect text ++ gs)) :
    Attains (selectItem env inner) r fun x r' => Render.item x = text ∧ r'.At env depth gs := by
  refine attains_of_recovers hin h (fun s u r hrest hhosts hfacing hlive => ?_) hat
  subst hrest
  exact (Stage.selectItem_replays hhosts hfacing hlive hstop).facing

theorem attains_plainTable
    (h : recovers (fun env _ => plainTable env) (fun t => Render.table t.1) env.dialect 0 text)
    (hdot : ahead gs ≠ .symbol .dot) (hstop : (ahead gs).startsAlias = false)
    (hat : r.At env depth (Glyph.ofText env.dialect text ++ gs)) :
    Attains (plainTable env) r fun t r' => Render.table t.1 = text ∧ r'.At env depth gs := by
  refine attains_of_flat h (fun s u r hrest hfacing _ => ?_) hat
  subst hrest
  refine (Stage.tableName_replays hfacing hdot).bind ?_
  rintro ⟨t, _⟩ ⟨t', _⟩ u₁ r₁ ⟨hname, hschema⟩ h₁
  refine (Stage.optionalAlias_replays s.between_moved h₁ hstop).bind ?_
  rintro name _ u₂ r₂ rfl h₂
  refine .pure ?_ h₂.facing
  rw [Same, Render.table, Render.table]
  simp only at hname hschema
  rw [hname, hschema]

theorem attains_usingColumn (h : recovers (fun _ _ => usingColumn) Render.name env.dialect 0 text)
    (hat : r.At env depth (Glyph.ofText env.dialect text ++ gs)) :
    Attains usingColumn r fun name r' => Render.name name = text ∧ r'.At env depth gs := by
  refine attains_of_flat h (fun s u r _ hfacing _ => ?_) hat
  exact (Stage.usingColumn_replays hfacing).mono (fun _ _ h => congrArg Render.name h)
    fun _ _ h => h.facing

theorem attains_pagingValue
    (h : recovers (fun _ _ => pagingValue) Render.pagingValue env.dialect 0 text)
    (hat : r.At env depth (Glyph.ofText env.dialect text ++ gs)) :
    Attains pagingValue r fun v r' => Render.pagingValue v = text ∧ r'.At env depth gs := by
  refine attains_of_flat h (fun s u r _ hfacing hlive => ?_) hat
  exact (Stage.pagingValue_replays hfacing hlive).facing

theorem attains_optionClause (h : recovers (fun env _ => optionClause env) id env.dialect 0 text)
    (hat : r.At env depth (Glyph.ofText env.dialect text ++ gs)) :
    Attains (optionClause env) r fun t r' => t = text ∧ r'.At env depth gs := by
  refine attains_of_flat h (fun s u r _ hfacing _ => ?_) hat
  exact (Stage.optionClause_replays hfacing).mono (fun _ _ h => h) fun _ _ h => h.facing

/-- Options that recover begin with `OPTION` and a parenthesis. -/
theorem exists_of_optionClause {d : Dialect}
    (h : recovers (fun env _ => optionClause env) id d 0 text) :
    ∃ g g' gs, Glyph.ofText d text = g :: g' :: gs ∧ g.kind = .keyword .OPTION ∧
      g'.kind = .symbol .leftParen := by
  rw [recovers, Bool.and_eq_true, beq_iff_eq, Option.map_eq_some_iff] at h
  obtain ⟨hrow, a, halone, -⟩ := h
  obtain ⟨c, u, hc, hyields, -⟩ := yields_of_alone halone
  obtain ⟨hrest, hfailure, -⟩ := Cursor.rest_of_isRow hrow hc
  have hat : (Reading.start c).At (.lone d 0 text) 0 (Glyph.ofText d text) :=
    ⟨⟨[], (spell_ofText hrow).symm, hrest⟩, hfailure, rfl⟩
  obtain ⟨t, u₁, haccept, hyields⟩ := yields_bind.1 hyields
  obtain ⟨-, hkind, hnext⟩ := accept_yields haccept
  obtain ⟨_, u₂, hpass, -⟩ := yields_bind.1 hyields
  obtain ⟨_, u₃, hskip, -⟩ := yields_bind.1 hpass
  rw [Cursor.skipParentheses, onCursor_bind] at hskip
  obtain ⟨_, u₄, hparen, -⟩ := yields_bind.1 hskip
  obtain ⟨-, hkind', -⟩ := accept_yields hparen
  revert hat
  cases hglyphs : Glyph.ofText d text with
  | nil =>
      intro hat
      rw [hat.kind] at hkind
      cases hkind
  | cons g gs =>
      intro hat
      rw [hat.kind] at hkind
      obtain ⟨u₁', hnext', hat₁⟩ := hat.yields_next
      obtain rfl : u₁' = u₁ := by
        have heq := hnext'.symm.trans hnext
        cases heq
        rfl
      rw [hat₁.kind] at hkind'
      cases gs with
      | nil => cases hkind'
      | cons g' gs => exact ⟨g, g', gs, rfl, hkind, hkind'⟩

/-- The text of an alias, without the blank in front of it. -/
def aliasText : Option String → String
  | some name => "AS " ++ Render.name name
  | none => ""

theorem aliasClause_eq (name : Option String) :
    Render.aliasClause name = if aliasText name = "" then "" else " " ++ aliasText name := by
  cases name with
  | none => rfl
  | some name =>
      have hne : aliasText (some name) ≠ "" := by
        intro h
        have hlist := congrArg String.toList h
        simp [aliasText] at hlist
      rw [if_neg hne, aliasText, Render.aliasClause, ← String.append_assoc]
      rfl

theorem attains_optionalAlias
    (h : recovers (fun env _ => optionalAlias env) aliasText env.dialect 0 text)
    (hstop : (ahead gs).startsAlias = false)
    (hat : r.At env depth (Glyph.ofText env.dialect text ++ gs)) :
    Attains (optionalAlias env) r fun name r' => aliasText name = text ∧ r'.At env depth gs := by
  refine attains_of_flat h (fun s u r hrest hfacing _ => ?_) hat
  subst hrest
  exact (Stage.optionalAlias_replays s.between_facing hfacing hstop).mono
    (fun _ _ h => congrArg aliasText h) fun _ _ h => h

/-! ## Operands in front of predicates -/

/-- Whether a predicate at the current token is read from its first operand on, and not as a
negation, a query or a group. -/
def startsOperand (env : Setting) (inner : Inner) : Reader Bool := do
  match (← current).kind with
  | .keyword .NOT => return false
  | .keyword .EXISTS => return false
  | .symbol .leftParen =>
      if (← peek).isKeyword .SELECT then return true
      else
        match ← attemptGroup env inner with
        | some _ => return false
        | none => return true
  | _ => return true

/-- Whether that is so in front of the glyphs, whatever follows them. -/
def startsOperandAlone (d : Dialect) (n : Nat) (gs : List Glyph) : Bool :=
  let env : Setting := .lone d n (String.ofList (spell gs))
  match place 0 gs with
  | [] => false
  | t :: ts =>
      match fenced (startsOperand env (.guardedUpTo env n)) (Reading.start ⟨t, ts, none, 0⟩) with
      | .ok b _ => b
      | .error _ _ => false

theorem startsOperand_follows {s : Stage} {inner inner' : Inner} (hin : s.Nested inner inner') :
    s.Follows Eq (startsOperand s.alone inner) (startsOperand s.env inner') := by
  refine Stage.current_follows.bind fun t t' ht => ?_
  rw [ht.kind]
  split
  · exact .pure rfl
  · exact .pure rfl
  · refine Stage.peek_follows.bind fun t t' ht => ?_
    rw [ht.isKeyword]
    split
    · exact .pure rfl
    · refine (Stage.attemptGroup_follows hin).bind fun tried tried' htried => ?_
      cases tried with
      | none =>
          cases tried' with
          | none => exact .pure rfl
          | some _ => cases htried
      | some _ =>
          cases tried' with
          | none => cases htried
          | some _ => exact .pure rfl
  · exact .pure rfl

/-- Where a predicate starts with an operand, looking for it leaves no trace. -/
theorem eq_of_startsOperand {r' : Reading} (h : Yields (startsOperand env inner) r true r')
    (hnesting : r'.nesting = r.nesting) : r' = r := by
  have h := bind_current h
  split at h
  · exact absurd (yields_pure.1 h).1 (by decide)
  · exact absurd (yields_pure.1 h).1 (by decide)
  · obtain ⟨t, r₁, hpeek, h⟩ := yields_bind.1 h
    obtain ⟨-, rfl⟩ := peekNth_yields hpeek
    split at h
    · exact (yields_pure.1 h).2.symm
    · obtain ⟨tried, r₂, htried, h⟩ := yields_bind.1 h
      cases tried with
      | some cs => exact absurd (yields_pure.1 h).1 (by decide)
      | none =>
          obtain ⟨-, rfl⟩ := yields_pure.1 h
          have hresumed : r₂ = { r with nesting := r₂.nesting } := by
            unfold Yields attemptGroup at htried
            split at htried
            · split at htried
              · cases htried
              · cases htried
                rfl
              · cases htried
            · split at htried
              · cases htried
                rfl
              · cases htried
          rw [hnesting] at hresumed
          exact hresumed
  · exact (yields_pure.1 h).2.symm

theorem attains_startsOperand (hin : inner.Admits env depth n)
    (hproper : ∀ g ∈ gs, g.kind ≠ .endOfInput ∧ g.text ≠ [])
    (h : startsOperandAlone env.dialect n gs = true) {hs : List Glyph}
    (hat : r.At env depth (gs ++ hs)) :
    Attains (startsOperand env inner) r fun b r' => b = true ∧ r' = r := by
  obtain ⟨front, hsource, hrest⟩ := hat.tokens
  unfold startsOperandAlone at h
  cases gs with
  | nil => cases h
  | cons g gs =>
      obtain ⟨t, ts, hplace, -⟩ := place_head (0 + Text.width g.gap + Text.width g.text) gs
      let s : Stage :=
        { alone := .lone env.dialect n (String.ofList (spell (g :: gs)))
          env
          base := front
          rest := hs
          depth
          dialect := rfl
          source := by rw [hsource, spell_append]; simp [Setting.lone] }
      let u : Reading := Reading.start ⟨g.token (0 + Text.width g.gap), t :: ts, none, 0⟩
      have hfenced : s.Fenced 0 False u.fence r := by
        refine ⟨⟨[], g :: gs, List.cons_ne_nil _ _, by simp [s, Setting.lone], hproper, ?_, hrest⟩,
          ⟨rfl, hat.failure⟩, False.elim, rfl, hat.level⟩
        rw [place, Text.width_nil, hplace]
        rfl
      have hm := startsOperand_follows (hin s rfl rfl rfl) 0 False u.fence r hfenced
      rw [place, hplace] at h
      dsimp only at h
      cases hrun : fenced (startsOperand s.alone (.guardedUpTo s.alone n)) u with
      | error f w =>
          rw [show fenced _ (Reading.start _) = .error f w from hrun] at h
          cases h
      | ok b w =>
          rw [show fenced _ (Reading.start _) = .ok b w from hrun] at h
          obtain rfl : b = true := h
          obtain ⟨-, w', -, hfirst, -⟩ := fenced_yields hrun
          rw [show startsOperand s.alone _ u.fence = .ok true w' from hfirst] at hm
          cases hsecond : startsOperand env inner r with
          | error f r' =>
              rw [hsecond] at hm
              cases hm with
              | unmet hunmet => exact .unmet hsecond hunmet
          | ok b' r' =>
              rw [hsecond] at hm
              cases hm with
              | ok hresult hs =>
                  subst hresult
                  refine .yields hsecond ⟨rfl, eq_of_startsOperand hsecond ?_⟩
                  rw [hs.level.2, hat.level]
                  rfl

/-! ## How leaves begin -/

/-- The first token of a text that recovers is one that the reader can begin with. -/
theorem exists_of_recovers {m : Setting → Inner → Reader α} {render : α → String} {d : Dialect}
    (h : recovers m render d n text = true) :
    ∃ a u u', u.cursor.current.kind = ahead (Glyph.ofText d text) ∧
      Yields (m (.lone d n text) (.fencedUpTo (.lone d n text) n)) u a u' := by
  rw [recovers, Bool.and_eq_true, beq_iff_eq, Option.map_eq_some_iff] at h
  obtain ⟨hrow, a, halone, -⟩ := h
  obtain ⟨c, u, hc, hyields, -⟩ := yields_of_alone halone
  obtain ⟨hrest, -, -⟩ := Cursor.rest_of_isRow hrow hc
  obtain ⟨t, ts, hplace, hkind⟩ := place_head 0 (Glyph.ofText d text)
  rw [hplace] at hrest
  refine ⟨a, Reading.start c, u, ?_, hyields⟩
  rw [← hkind, ← (List.cons.inj hrest).1]
  rfl

end Reader

/-- Whether an expression can begin with a token of this kind: a word that is reserved can
only be the name of a function. -/
def Kind.opensExpression : Kind → Bool
  | .keyword k => !k.isReserved || [.LEFT, .RIGHT, .VALUES, .INSERT].contains k
  | .symbol .rightParen | .endOfInput => false
  | _ => true

namespace Reader

variable {env : Setting} {inner : Inner} {u u' : Reading} {d : Dialect} {text : String}

/-- What opens no expression is a reserved word, a closing parenthesis or the end. -/
theorem of_opensExpression {k : Kind} (h : k.opensExpression = false) :
    (∃ w, k = .keyword w) ∨ k = .symbol .rightParen ∨ k = .endOfInput := by
  unfold Kind.opensExpression at h
  split at h
  · exact .inl ⟨_, rfl⟩
  · exact .inr (.inl rfl)
  · exact .inr (.inr rfl)
  · cases h

/-- What opens no expression is neither a sign nor an operand nor callable. -/
theorem closed_of_opensExpression {k : Kind} (h : k.opensExpression = false) :
    isSign k = false ∧ k.isName = false ∧ k.isOperand = false ∧
      k ∉ [.keyword .CASE, .keyword .EXISTS, .keyword .INTERVAL, .keyword .LEFT, .keyword .RIGHT,
        .keyword .VALUES, .keyword .INSERT, .keyword .IF, .symbol .leftParen, .symbol .star] := by
  rcases of_opensExpression h with ⟨w, rfl⟩ | rfl | rfl
  · cases w <;> first | exact absurd h (by decide) | decide
  · decide
  · decide

theorem signs_of_isSign {a : Unit} (h : Yields signs u a u')
    (hsign : isSign u.cursor.current.kind = false) : u' = u := by
  cases Replays.rounds_of_repeating h with
  | stop hround =>
      have hround := bind_current hround
      rw [hsign] at hround
      exact (yields_pure.1 hround).2.symm
  | again hround _ =>
      have hround := bind_current hround
      rw [hsign] at hround
      cases (yields_pure.1 hround).1

theorem operand_opens {a : Unit} (h : Yields (operand inner) u a u') :
    u.cursor.current.kind.opensExpression = true := by
  by_contra hopens
  rw [Bool.not_eq_true] at hopens
  obtain ⟨hsign, hname, hoperand, hkind⟩ := closed_of_opensExpression hopens
  obtain ⟨_, u₁, hsigns, hrest⟩ := yields_bind.1 h
  obtain rfl := signs_of_isSign hsigns hsign
  have hrest := bind_current hrest
  have hcall : ∀ {b u₂}, Yields atCall u₁ b u₂ → b = false := by
    intro b u₂ hcall
    have hcall := bind_current hcall
    simp only [List.mem_cons, List.not_mem_nil, or_false, not_or] at hkind
    simp only [Token.isName, Token.isKeyword, hname] at hcall
    simp [hkind] at hcall
    exact (yields_pure.1 hcall).1.symm
  split at hrest
  iterate 4 simp_all
  obtain ⟨call, u₂, hat, hrest⟩ := yields_bind.1 hrest
  rw [hcall hat, hoperand] at hrest
  exact yields_failExpected.1 hrest

theorem expression_opens {e : Expr} (h : Yields (expression env inner) u e u') :
    u.cursor.current.kind.opensExpression = true := by
  by_contra hopens
  rw [Bool.not_eq_true] at hopens
  obtain ⟨-, hname, -, -⟩ := closed_of_opensExpression hopens
  have hrest := bind_current h
  rcases of_opensExpression hopens with ⟨w, hkind⟩ | hkind | hkind
  all_goals
    rw [hkind] at hname
    rw [Token.isName, hkind, hname] at hrest
    obtain ⟨_, u₁, hoperand, -⟩ := yields_bind.1 (bind_pure hrest)
    have hcontra := operand_opens hoperand
    rw [hopens] at hcontra
    cases hcontra

theorem selectItem_opens {x : SelectItem} (h : Yields (selectItem env inner) u x u') :
    u.cursor.current.kind.opensExpression = true := by
  by_contra hopens
  rw [Bool.not_eq_true] at hopens
  obtain ⟨-, hname, -, hkind⟩ := closed_of_opensExpression hopens
  simp only [List.mem_cons, List.not_mem_nil, or_false, not_or] at hkind
  have hrest := bind_current h
  have hstar : u.cursor.current.isSymbol .star = false := by simp [Token.isSymbol, hkind]
  rw [hstar] at hrest
  obtain ⟨owned, u₁, howned, hrest⟩ := yields_bind.1 hrest
  have howned := bind_current howned
  rw [Token.isName, hname] at howned
  obtain ⟨rfl, rfl⟩ := yields_pure.1 howned
  obtain ⟨function, u₂, hfunction, hrest⟩ := yields_bind.1 hrest
  have hfunction := bind_current hfunction
  have hidentifier : u.cursor.current.kind ≠ .identifier := by
    intro heq
    rw [heq] at hopens
    cases hopens
  rw [if_neg hidentifier] at hfunction
  obtain ⟨rfl, rfl⟩ := yields_pure.1 hfunction
  obtain ⟨e, u₃, hexpression, -⟩ := yields_bind.1 (bind_here hrest)
  have hcontra := expression_opens hexpression
  rw [hopens] at hcontra
  cases hcontra

theorem plainTable_isName {t : Table × Token} (h : Yields (plainTable env) u t u') :
    u.cursor.current.kind.isName = true := by
  obtain ⟨_, _, hname, -⟩ := yields_bind.1 h
  obtain ⟨_, _, hname, -⟩ := yields_bind.1 hname
  have hname := bind_current hname
  split at hname
  · assumption
  · exact (yields_failExpected.1 hname).elim

end Reader

end SqlMarkers
