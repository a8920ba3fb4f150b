/-
SqlMarkers.Proofs.Respacing — a text with other gaps has the same tokens.

`Respacing` keeps the tokens of a text and puts other gaps in front of and behind
them. The text that it makes up has the tokens of the first text, each of the same kind
and with the same characters (`tokenize_respaced`). Two things in the source look past a
token and its gap, and both are conditions of the theorem. A gap may start with a character
that goes on with the token in front of it (`Spaced.Apart`): the dash of `-` and a comment
that starts with dashes become one comment (`merged_dashes`). And `GROUP` and `ORDER` are
keywords where nothing but space characters stands in front of `BY` (`Spaced.SameBy`). This
condition is not in the documented rule, by which they are keywords where the next word is
`BY`: a comment in front of `BY` makes `GROUP` a name (`parted_groupBy`).
-/
import SqlMarkers.Proofs.Replacement
import SqlMarkers.Proofs.Spacing

namespace SqlMarkers

open CharClass

/-! ## Last gaps -/

namespace Gap

variable {d : Dialect}

theorem inLine_open (n : Nat) {body : List Char} (h : '\n' ∉ body) :
    inLine d n body = .passed (n + Text.width body) [] := by
  induction body generalizing n with
  | nil => rfl
  | cons c body ih =>
      simp only [List.mem_cons, not_or] at h
      rw [inLine, if_neg (by simpa using Ne.symm h.1), ih _ h.2, Text.width_cons, Nat.add_assoc]

theorem between_mark {mark : List Char} (hmark : LineMark d mark) (commented : Bool) (n : Nat) :
    between d commented n mark = .passed (n + Text.width mark) [] := by
  cases hmark with
  | dashes => rfl
  | slashes => rfl
  | hash hhash => rw [between, if_pos (by simp [hhash])]; rfl

/-- A line comment goes on to the end of a text that has no line end. -/
theorem between_lastLine {mark body : List Char} (hmark : LineMark d mark) (hbody : '\n' ∉ body)
    (commented : Bool) (n : Nat) :
    between d commented n (mark ++ body) = .passed (n + Text.width mark + Text.width body) [] := by
  by_cases hnone : body = []
  · rw [hnone, List.append_nil, between_mark hmark]
    rfl
  · rw [between_line hmark _ _ _ hnone, inLine_open _ hbody]

/-- A last gap is stepped over whole. -/
theorem skip_final {last : List Char} (h : Final d last) :
    skip d last = .passed (Text.width last) [] := by
  cases h with
  | closed hgap =>
      have hbare : Bare d [] := ⟨rfl, rfl⟩
      have hskip := skip_closed hgap hbare
      rwa [List.append_nil] at hskip
  | @openLine gap mark body hgap hmark hbody =>
      obtain ⟨commented, hskip⟩ := between_closed hgap false 0 (mark ++ body)
      rw [skip, hskip, between_lastLine hmark hbody, Nat.zero_add, Text.width_append,
        Text.width_append, ← Nat.add_assoc]

end Gap

/-! ## The gaps and tokens of a text -/

namespace Reads

variable {d : Dialect} {offset : Nat} {previous : Option Lexeme} {xs ys : List Spaced}
  {last last' : List Char}

/-- Two divisions of a text into the same tokens are the same. -/
theorem unique (h : Reads d offset previous xs last)
    (htokens : ys.map Spaced.token = xs.map Spaced.token)
    (htext : Spaced.text ys last' = Spaced.text xs last)
    (hplaced : ∀ front y behind, ys = front ++ y :: behind →
      y.token.span.start = offset + Text.width (Spaced.text front y.gap)) :
    ys = xs ∧ last' = last := by
  induction h generalizing ys with
  | done =>
      obtain rfl := List.map_eq_nil_iff.1 htokens
      exact ⟨rfl, htext⟩
  | @token offset previous x xs last hspan _ _ _ _ ih =>
      obtain ⟨y, ys, rfl, htoken, htokens⟩ := List.map_eq_cons_iff.1 htokens
      have hstart := hplaced [] y ys rfl
      rw [htoken, hspan, Spaced.text_nil] at hstart
      rw [Spaced.text_cons, Spaced.text_cons, htoken] at htext
      -- The gap in front of the first token is as wide in both.
      have hwidth : Text.width x.gap = Text.width y.gap := Nat.add_left_cancel hstart
      obtain ⟨more, hmore, -⟩ := Text.append_of_width_le htext (Nat.le_of_eq hwidth.symm)
      have hgap : y.gap = x.gap := by
        have hnone : Text.width more = 0 := by
          rw [← hmore, Text.width_append] at hwidth
          omega
        cases more with
        | nil => rw [← hmore, List.append_nil]
        | cons c more => exact absurd hnone (Nat.ne_of_gt (Text.width_pos (List.cons_ne_nil c more)))
      obtain ⟨rfl, rfl⟩ : ys = xs ∧ last' = last := by
        refine ih htokens ?_ fun front z behind hys => ?_
        · rw [hgap] at htext
          exact List.append_cancel_left (List.append_cancel_left htext)
        · rw [hplaced (y :: front) z behind (by rw [hys]; rfl), Spaced.text_cons, hgap, htoken,
            Text.width_append, Text.width_append]
          omega
      exact ⟨congrArg (· :: ys) (by cases x; cases y; cases hgap; cases htoken; rfl), rfl⟩

/-- The gaps and tokens that divide a text are read. -/
theorem of_partition {source : String} {tokens : List Token} (h : tokenize d source = .ok tokens)
    (hxs : Partition d 0 source.toList tokens xs last) : Reads d 0 none xs last := by
  have hfailure : (TokenStream.ofText d source.toList).failure = none ∧
      (TokenStream.ofText d source.toList).tokens = tokens := by
    unfold tokenize at h
    dsimp only at h
    split at h
    · rename_i hfailure
      exact ⟨hfailure, Except.ok.inj h⟩
    · cases h
  obtain ⟨ys, last', hreads, hwhole, htokens⟩ := TokenStream.reads_ofText hfailure.1
  rw [hfailure.2, hxs.tokens_eq] at htokens
  obtain ⟨rfl, rfl⟩ := hreads.unique (List.append_inj_left' htokens rfl) (hxs.whole.trans hwhole.symm)
    fun front x behind hfront => by rw [hxs.placed front x behind hfront]
  exact hreads

end Reads

/-- The gap in front of the token is made of space characters. -/
def Spaced.Blank (x : Spaced) : Prop := ∀ c ∈ x.gap, isSpace c = true

/-- The word `BY` comes next where it is the next token, with nothing but space characters
in front of it. -/
theorem Reads.beforeBy_iff {d : Dialect} {offset : Nat} {previous : Option Lexeme}
    {xs : List Spaced} {last : List Char} (h : Reads d offset previous xs last) :
    Lexeme.beforeBy (Spaced.text xs last) = true ↔
      ∃ x ∈ xs.head?, x.token.kind = .keyword .BY ∧ x.Blank := by
  cases xs with
  | nil =>
      refine iff_of_false (fun hby => ?_) (by simp)
      obtain ⟨spaces, b, c, rest, htext, hspaces, hb, -⟩ := Lexeme.beforeBy_iff.1 hby
      have hpassed := Gap.skip_closed (Gap.closed_spaces hspaces)
        (Gap.bare_by d hb (c :: rest))
      rw [← htext] at hpassed
      cases h with
      | done hskip => exact absurd (hskip.symm.trans hpassed) (by simp)
  | cons x xs =>
      constructor
      · intro hby
        obtain ⟨hkind, hblank, -⟩ := h.first_of_beforeBy hby
        exact ⟨x, rfl, hkind, hblank⟩
      · rintro ⟨y, hy, hkind, hblank⟩
        obtain rfl : x = y := by simpa using hy
        cases h with
        | token _ _ _ hread _ =>
            have hthere := Lexeme.beforeBy_of_read hread hkind hblank
            rwa [Spaced.text_cons]

/-! ## Other gaps -/

/-- What a token is, wherever it stands. -/
def Token.shape (t : Token) : Kind × String := (t.kind, t.text)

/-- Whether a gap that starts with the character belongs together with the token in
front of it. -/
def Token.absorbs (t : Token) (c : Char) : Bool := t.kind.absorbs t.text.toList c

/-- The list `ys` and the gap `last` are a text of the tokens of `xs`, with gaps between
all of them. -/
structure Respacing (d : Dialect) (xs ys : List Spaced) (last : List Char) : Prop where
  tokens : ys.map Spaced.token = xs.map Spaced.token
  gaps : ∀ y ∈ ys, Gap.Closed d y.gap
  parted : ∀ y ∈ ys.tail, y.gap ≠ []
  lastGap : Gap.Final d last

namespace Spaced

/-- No token takes in the character behind it. -/
def Apart : List Spaced → List Char → Prop
  | [], _ => True
  | y :: ys, last =>
      (∀ c ∈ (Spaced.text ys last).head?, y.token.absorbs c = false) ∧ Apart ys last

/-- Between `GROUP` or `ORDER` and `BY`, there are nothing but space characters in both
lists, or something else in both. The documented rule has no such condition: a comment is
not a word, so `BY` is the next word in either case. -/
def SameBy (d : Dialect) (xs ys : List Spaced) : Prop :=
  ∀ i w x y, xs[i]? = some w → xs[i + 1]? = some x → ys[i + 1]? = some y →
    d.keyword? w.token.text.toList = some .GROUP ∨ d.keyword? w.token.text.toList = some .ORDER →
    x.token.kind = .keyword .BY → (x.Blank ↔ y.Blank)

/-- The gaps and tokens, with each token where it stands in the text from byte `offset` on. -/
def placedFrom : Nat → List Spaced → List Spaced
  | _, [] => []
  | offset, y :: ys =>
      let start := offset + Text.width y.gap
      let stop := start + Text.width y.token.text.toList
      ⟨y.gap, { y.token with span := ⟨start, stop⟩ }⟩ :: placedFrom stop ys

variable {d : Dialect} {xs ys : List Spaced} {x y : Spaced}

@[simp] theorem text_placedFrom (offset : Nat) (ys : List Spaced) (last : List Char) :
    Spaced.text (placedFrom offset ys) last = Spaced.text ys last := by
  induction ys generalizing offset with
  | nil => rfl
  | cons y ys ih => rw [placedFrom, Spaced.text_cons, Spaced.text_cons, ih]

@[simp] theorem shape_placedFrom (offset : Nat) (ys : List Spaced) :
    (placedFrom offset ys).map (fun y => y.token.shape) = ys.map fun y => y.token.shape := by
  induction ys generalizing offset with
  | nil => rfl
  | cons y ys ih => rw [placedFrom, List.map_cons, List.map_cons, ih]; rfl

theorem SameBy.tail (h : SameBy d (x :: xs) (y :: ys)) : SameBy d xs ys :=
  fun i => h (i + 1)

end Spaced

namespace Respacing

variable {d : Dialect} {xs ys : List Spaced} {x y : Spaced} {last : List Char}

theorem tail (h : Respacing d (x :: xs) (y :: ys) last) : Respacing d xs ys last where
  tokens := (List.cons.inj h.tokens).2
  gaps := (List.forall_mem_cons.1 h.gaps).2
  parted z hz := h.parted z (List.mem_of_mem_tail hz)
  lastGap := h.lastGap

theorem token_eq (h : Respacing d (x :: xs) (y :: ys) last) : y.token = x.token :=
  (List.cons.inj h.tokens).1

/-- Behind a token comes the mark of a gap or the end. -/
theorem isMark (h : Respacing d (x :: xs) (y :: ys) last) :
    ∀ c ∈ (Spaced.text ys last).head?, Gap.isMark c = true := by
  cases ys with
  | nil => exact h.lastGap.isMark
  | cons z ys =>
      have hgap : z.gap ≠ [] := h.parted z List.mem_cons_self
      obtain ⟨c, gap, hz⟩ := List.exists_cons_of_ne_nil hgap
      have hmark := (h.gaps z (by simp)).isMark
      rw [hz] at hmark
      rw [Spaced.text_cons, hz]
      exact hmark

/-- A token stands apart from what is behind it. -/
theorem parts (h : Respacing d (x :: xs) (y :: ys) last) (hapart : Spaced.Apart (y :: ys) last)
    (rest : List Char) : (x.token.lexeme rest).Parts (Spaced.text ys last) := by
  intro c hc
  refine ⟨h.isMark c hc, ?_⟩
  have habsorbs := hapart.1 c hc
  rwa [h.token_eq] at habsorbs

end Respacing

namespace Reads

variable {d : Dialect} {offset offset' : Nat} {previous previous' : Option Lexeme}
  {xs ys : List Spaced} {last last' : List Char}

/-- Behind `GROUP` and `ORDER`, the word `BY` comes next in both texts or in none. -/
theorem beforeBy_respaced {x y : Spaced} (hxs : Reads d offset previous xs last)
    (hys : Reads d offset' previous' (Spaced.placedFrom offset' ys) last')
    (htokens : ys.map Spaced.token = xs.map Spaced.token)
    (hby : Spaced.SameBy d (x :: xs) (y :: ys))
    (hword : d.keyword? x.token.text.toList = some .GROUP ∨
      d.keyword? x.token.text.toList = some .ORDER) :
    Lexeme.beforeBy (Spaced.text ys last') = Lexeme.beforeBy (Spaced.text xs last) := by
  rw [← Spaced.text_placedFrom offset' ys, Bool.eq_iff_iff, hys.beforeBy_iff, hxs.beforeBy_iff]
  cases ys with
  | nil =>
      obtain rfl := List.map_eq_nil_iff.1 htokens.symm
      rfl
  | cons z ys =>
      obtain ⟨w, xs, rfl, htoken, -⟩ := List.map_eq_cons_iff.1 htokens.symm
      have hblank := hby 0 x w z rfl rfl rfl hword
      simp only [Spaced.placedFrom, List.head?_cons, Option.mem_some_iff, exists_eq_left']
      rw [htoken] at hblank ⊢
      exact and_congr_right fun hkind => (hblank hkind).symm

/-- The tokens are read with other gaps, too. -/
theorem respaced (h : Reads d offset previous xs last) (hys : Respacing d xs ys last')
    (hapart : Spaced.Apart ys last') (hby : Spaced.SameBy d xs ys)
    (hends : ∀ n m, (TokenStream.after previous' n).endsOperand =
      (TokenStream.after previous m).endsOperand)
    (htouches : ∀ y ∈ ys.head?,
      (TokenStream.after previous' (Text.width y.gap)).touchesWord = false) :
    Reads d offset' previous' (Spaced.placedFrom offset' ys) last' := by
  induction h generalizing ys offset' previous' with
  | done =>
      obtain rfl := List.map_eq_nil_iff.1 hys.tokens
      exact .done (Gap.skip_final hys.lastGap)
  | @token offset previous x xs last _ _ hbare hread hrest ih =>
      obtain ⟨y, ys, rfl, htoken, -⟩ := List.map_eq_cons_iff.1 hys.tokens
      have htail : Reads d (offset' + Text.width y.gap + Text.width x.token.text.toList)
          (some (x.token.lexeme (Spaced.text ys last')))
          (Spaced.placedFrom (offset' + Text.width y.gap + Text.width x.token.text.toList) ys)
          last' := by
        refine ih hys.tail hapart.2 hby.tail (fun _ _ => rfl) fun z hz => ?_
        have hz : z ∈ ys := List.mem_of_mem_head? hz
        have hpos := Text.width_pos (hys.parted z hz)
        simp [TokenStream.after, Nat.ne_of_gt hpos]
      have hsplit := Lexeme.read_splits d _ hread
      have hparts := hys.parts hapart (Spaced.text xs last)
      have hkind := Lexeme.wordKind_congr fun hword =>
        hrest.beforeBy_respaced htail hys.tail.tokens hby hword
      rw [← htoken] at hbare hread htail hsplit hparts hkind
      refine .token rfl (hys.gaps y List.mem_cons_self) ?_ ?_ ?_
      · rw [Spaced.text_placedFrom]
        exact hparts.bare hsplit.nonempty hbare
      · rw [Spaced.text_placedFrom]
        exact Lexeme.read_parted hread (hends _ _) (htouches y rfl) hparts hkind
      · rw [Spaced.text_placedFrom]
        exact htail

end Reads

/-- A text with other gaps between its tokens has the same tokens. No token may take in
the start of the gap behind it, `BY` has to come next behind `GROUP` and `ORDER` as it did, and
the text has to fit into spans. -/
theorem tokenize_respaced {d : Dialect} {source : String} {tokens : List Token}
    {xs ys : List Spaced} {last last' : List Char} (h : tokenize d source = .ok tokens)
    (hxs : Partition d 0 source.toList tokens xs last) (hys : Respacing d xs ys last')
    (hapart : Spaced.Apart ys last') (hby : Spaced.SameBy d xs ys)
    (hfits : Span.fits (Spaced.text ys last') = true) :
    ∃ tokens', tokenize d (String.ofList (Spaced.text ys last')) = .ok tokens' ∧
      tokens'.map Token.shape = tokens.map Token.shape := by
  have hreads : Reads d 0 none (Spaced.placedFrom 0 ys) last' :=
    (Reads.of_partition h hxs).respaced hys hapart hby (fun _ _ => rfl) fun _ _ => rfl
  have htokenize := hreads.tokenize_eq
  rw [Spaced.text_placedFrom, if_pos hfits] at htokenize
  refine ⟨_, htokenize, ?_⟩
  have hshapes : ys.map (fun y => y.token.shape) = xs.map fun x => x.token.shape := by
    have := congrArg (List.map Token.shape) hys.tokens
    rwa [List.map_map, List.map_map] at this
  rw [hxs.tokens_eq, List.map_append, List.map_append, List.map_map, List.map_map]
  exact congrArg (· ++ [(Kind.endOfInput, "")]) ((Spaced.shape_placedFrom 0 ys).trans hshapes)

/-- The tokens of `SELECT a-b`. -/
def subtraction : List Token :=
  [⟨.keyword .SELECT, "SELECT", ⟨0, 6⟩⟩, ⟨.identifier, "a", ⟨7, 8⟩⟩,
    ⟨.symbol .minus, "-", ⟨8, 9⟩⟩, ⟨.identifier, "b", ⟨9, 10⟩⟩]

theorem tokenize_subtraction :
    tokenize .standard "SELECT a-b" = .ok (subtraction ++ [.endAt 10]) := by
  decide +kernel

/-- A text is divided into gaps and tokens. -/
theorem exists_partition {d : Dialect} {source : String} {tokens : List Token} {n : Nat}
    (h : tokenize d source = .ok (tokens ++ [.endAt n])) : ∃ xs last,
    xs.map Spaced.token = tokens ∧ Partition d 0 source.toList (tokens ++ [.endAt n]) xs last := by
  obtain ⟨⟨xs, last, hxs⟩, -⟩ := partition_of_tokenize h
  exact ⟨xs, last, (List.append_inj_left' hxs.tokens_eq rfl).symm, hxs⟩

/-- The tokens with the gaps in front of them. -/
def Spaced.ofGaps (gaps : List String) (tokens : List Token) : List Spaced :=
  List.zipWith (fun gap t => ⟨gap.toList, t⟩) gaps tokens

/-- A comment where there was a space character, and gaps around the minus sign. -/
theorem tokenize_respaced_subtraction :
    ∃ tokens, tokenize .standard "SELECT/* c */a - -- d\nb\n" = .ok tokens ∧
      tokens.map Token.shape = (subtraction ++ [Token.endAt 10]).map Token.shape := by
  obtain ⟨xs, last, htokens, hxs⟩ := exists_partition tokenize_subtraction
  have hbody : Gap.Enclosed [' ', 'c', ' '] := by
    unfold Gap.Enclosed
    decide
  have hcomment : Gap.Closed .standard "/* c */".toList := .cons (.comment rfl hbody) .nil
  have hdashes : Gap.Piece .standard (['-', '-'] ++ [' ', 'd'] ++ ['\n']) :=
    .line .dashes (by decide)
  have hspace : Gap.Closed .standard " ".toList := Gap.closed_spaces (List.all_eq_true.1 rfl)
  have hline : Gap.Closed .standard " -- d\n".toList := .cons (.space rfl) (.cons hdashes .nil)
  have hend : Gap.Closed .standard "\n".toList := Gap.closed_spaces (List.all_eq_true.1 rfl)
  have hys : Respacing .standard xs (Spaced.ofGaps ["", "/* c */", " ", " -- d\n"] subtraction)
      "\n".toList := by
    refine ⟨htokens.symm, ?_, by decide, .closed hend⟩
    simp only [Spaced.ofGaps, subtraction, List.zipWith, List.forall_mem_cons]
    exact ⟨.nil, hcomment, hspace, hline, by simp⟩
  have hapart : Spaced.Apart (Spaced.ofGaps ["", "/* c */", " ", " -- d\n"] subtraction)
      "\n".toList := by
    refine ⟨?_, ?_, ?_, ?_, trivial⟩ <;>
      · rintro _ ⟨⟩
        rfl
  refine tokenize_respaced tokenize_subtraction hxs hys hapart ?_ (by decide)
  intro i w x y _ hx _ _ hby
  have hmem : x.token ∈ subtraction := htokens ▸ List.mem_map_of_mem (List.mem_of_getElem? hx)
  have hno : ∀ t ∈ subtraction, t.kind ≠ .keyword .BY := by decide
  exact absurd hby (hno _ hmem)

/-- A comment right behind the minus sign takes it in, and `b` comes right behind `a`. -/
theorem merged_dashes : ∃ tokens xs ys last last',
    tokenize .standard "SELECT a-b" = .ok tokens ∧
      Partition .standard 0 "SELECT a-b".toList tokens xs last ∧
      Respacing .standard xs ys last' ∧ last' ≠ [] ∧
      String.ofList (Spaced.text ys last') = "SELECT a ---c\nb\n" ∧
      ∃ tokens', tokenize .standard "SELECT a ---c\nb\n" = .ok tokens' ∧
        tokens'.map Token.shape = [(.keyword .SELECT, "SELECT"), (.identifier, "a"),
          (.identifier, "b"), (.endOfInput, "")] ∧
        tokens'.map Token.shape ≠ tokens.map Token.shape := by
  obtain ⟨xs, last, htokens, hxs⟩ := exists_partition tokenize_subtraction
  have hspace : Gap.Closed .standard " ".toList := Gap.closed_spaces (List.all_eq_true.1 rfl)
  have hend : Gap.Closed .standard "\n".toList := Gap.closed_spaces (List.all_eq_true.1 rfl)
  have hdashes : Gap.Piece .standard (['-', '-'] ++ ['c'] ++ ['\n']) := .line .dashes (by decide)
  have hys : Respacing .standard xs (Spaced.ofGaps ["", " ", " ", "--c\n"] subtraction)
      "\n".toList := by
    refine ⟨htokens.symm, ?_, by decide, .closed hend⟩
    simp only [Spaced.ofGaps, subtraction, List.zipWith, List.forall_mem_cons]
    exact ⟨.nil, hspace, hspace, .cons hdashes .nil, by simp⟩
  have hmerged : ∃ tokens', tokenize .standard "SELECT a ---c\nb\n" = .ok tokens' ∧
      tokens'.map Token.shape = [(.keyword .SELECT, "SELECT"), (.identifier, "a"),
        (.identifier, "b"), (.endOfInput, "")] := exists_of_any (by decide +kernel)
  obtain ⟨tokens', htokens', hshapes⟩ := hmerged
  refine ⟨_, xs, _, last, _, tokenize_subtraction, hxs, hys, by decide, by decide, tokens',
    htokens', hshapes, ?_⟩
  rw [hshapes]
  decide

/-- The tokens of `GROUP BY a`. -/
def grouping : List Token :=
  [⟨.keyword .GROUP, "GROUP", ⟨0, 5⟩⟩, ⟨.keyword .BY, "BY", ⟨6, 8⟩⟩, ⟨.identifier, "a", ⟨9, 10⟩⟩]

theorem tokenize_grouping : tokenize .standard "GROUP BY a" = .ok (grouping ++ [.endAt 10]) := by
  decide +kernel

/-- Only a space character stands between the two words. -/
theorem blank_of_grouping {w x : Spaced} {xs : List Spaced} {last : List Char}
    (h : Reads .standard 0 none (w :: x :: xs) last)
    (hw : w.token = ⟨.keyword .GROUP, "GROUP", ⟨0, 5⟩⟩)
    (htext : Spaced.text (w :: x :: xs) last = "GROUP BY a".toList) : x.Blank := by
  cases h with
  | token hspan _ _ _ hrest =>
      have hnone : w.gap = [] := by
        by_contra hgap
        have hpos := Text.width_pos hgap
        have hstart := congrArg Span.start hspan
        rw [hw] at hstart
        simp only at hstart
        omega
      rw [Spaced.text_cons, hnone, hw] at htext
      have hbehind : Spaced.text (x :: xs) last = " BY a".toList :=
        List.append_cancel_left (htext.trans (rfl : _ = "GROUP".toList ++ " BY a".toList))
      obtain ⟨y, hy, -, hblank⟩ := hrest.beforeBy_iff.1 (by rw [hbehind]; decide)
      obtain rfl : x = y := by simpa using hy
      exact hblank

/-- A comment between `GROUP` and `BY` makes `GROUP` a name, although no token takes in the
gap behind it. -/
theorem parted_groupBy : ∃ tokens xs ys last last',
    tokenize .standard "GROUP BY a" = .ok tokens ∧
      Partition .standard 0 "GROUP BY a".toList tokens xs last ∧
      Respacing .standard xs ys last' ∧ Spaced.Apart ys last' ∧ ¬Spaced.SameBy .standard xs ys ∧
      String.ofList (Spaced.text ys last') = "GROUP/**/BY a\n" ∧
      ∃ tokens', tokenize .standard "GROUP/**/BY a\n" = .ok tokens' ∧
        tokens'.map Token.shape = [(.identifier, "GROUP"), (.keyword .BY, "BY"),
          (.identifier, "a"), (.endOfInput, "")] ∧
        tokens'.map Token.shape ≠ tokens.map Token.shape := by
  obtain ⟨xs, last, htokens, hxs⟩ := exists_partition tokenize_grouping
  have hbody : Gap.Enclosed [] := by
    unfold Gap.Enclosed
    decide
  have hcomment : Gap.Closed .standard "/**/".toList := .cons (.comment rfl hbody) .nil
  have hspace : Gap.Closed .standard " ".toList := Gap.closed_spaces (List.all_eq_true.1 rfl)
  have hend : Gap.Closed .standard "\n".toList := Gap.closed_spaces (List.all_eq_true.1 rfl)
  have hys : Respacing .standard xs (Spaced.ofGaps ["", "/**/", " "] grouping) "\n".toList := by
    refine ⟨htokens.symm, ?_, by decide, .closed hend⟩
    simp only [Spaced.ofGaps, grouping, List.zipWith, List.forall_mem_cons]
    exact ⟨.nil, hcomment, hspace, by simp⟩
  have hapart : Spaced.Apart (Spaced.ofGaps ["", "/**/", " "] grouping) "\n".toList := by
    refine ⟨?_, ?_, ?_, trivial⟩ <;>
      · rintro _ ⟨⟩
        rfl
  have hparted : ∃ tokens', tokenize .standard "GROUP/**/BY a\n" = .ok tokens' ∧
      tokens'.map Token.shape = [(.identifier, "GROUP"), (.keyword .BY, "BY"),
        (.identifier, "a"), (.endOfInput, "")] := exists_of_any (by decide +kernel)
  obtain ⟨tokens', htokens', hshapes⟩ := hparted
  refine ⟨_, xs, _, last, _, tokenize_grouping, hxs, hys, hapart, fun hby => ?_, by decide,
    tokens', htokens', hshapes, by rw [hshapes]; decide⟩
  obtain ⟨w, xs, rfl, hw, htokens⟩ := List.map_eq_cons_iff.1 htokens
  obtain ⟨x, xs, rfl, hx, -⟩ := List.map_eq_cons_iff.1 htokens
  have hblank : x.Blank := blank_of_grouping (Reads.of_partition tokenize_grouping hxs)
    hw hxs.whole
  have hword : w.token.text.toList = "GROUP".toList := by rw [hw]
  have hsame := (hby 0 w x _ rfl rfl rfl (by rw [hword]; exact .inl rfl) (by rw [hx])).1 hblank
  exact absurd (hsame '/' (by decide)) (by decide)

end SqlMarkers
