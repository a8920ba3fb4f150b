/-
SqlMarkers.Proofs.Cuts — no text is cut inside a character.

Texts are cut at byte offsets in four places: where a token is read, where an error shows
the text around it, where a quoted name is decoded, and where markers are replaced. The first
never cuts inside a character (`Bytewise.tokenize_eq`). An excerpt starts where backing up comes
to a boundary (`Text.backed?_eq`). Decoding cuts behind the first byte of a text and in
front of the last one, so only a text with a character outside ASCII at one of its ends has
no decoded form (`Token.name?_eq_none`), and only names and variables are such tokens
(`Lexeme.asciiEnds_of_read`). A replacement is made where the literal of its marker was found
(`Parsed.replaceMarkersM?_eq`).

`uncut_parse` puts this together: what ends reading without an error is a name or a variable
with a character outside ASCII at one of its ends. A count out of range would end it the same
way, and `Setting.run_lands` shows that there is none.
-/
import SqlMarkers.Proofs.Bytewise
import SqlMarkers.Proofs.Kept
import SqlMarkers.Proofs.Outcomes
import SqlMarkers.Proofs.Quoting
import SqlMarkers.Proofs.Spelling

namespace SqlMarkers

open CharClass

/-! ## Cuts near the ends of a text -/

namespace Text

/-- A text that starts and ends with an ASCII character. -/
structure AsciiEnds (cs : List Char) : Prop where
  head : ∀ c ∈ cs.head?, isWide c = false
  last : ∀ c ∈ cs.getLast?, isWide c = false

theorem Ascii.ends {cs : List Char} (h : Ascii cs) : AsciiEnds cs where
  head := fun c hc => h c (List.mem_of_mem_head? hc)
  last := fun c hc => h c (List.mem_of_getLast? hc)

theorem AsciiEnds.isWide_or {cs : List Char} (h : ¬AsciiEnds cs) :
    (∃ c ∈ cs.head?, isWide c = true) ∨ ∃ c ∈ cs.getLast?, isWide c = true := by
  by_contra hnone
  rw [not_or] at hnone
  refine h ⟨fun c hc => ?_, fun c hc => ?_⟩
  · rw [Bool.eq_false_iff]
    exact fun hwide => hnone.1 ⟨c, hc, hwide⟩
  · rw [Bool.eq_false_iff]
    exact fun hwide => hnone.2 ⟨c, hc, hwide⟩

/-! ### Excerpts -/

/-- The text from an offset on, or from the last boundary in front of it. -/
def backed? (cs : List Char) : Nat → Option (List Char)
  | 0 => dropWidth? 0 cs
  | n + 1 =>
      match dropWidth? (n + 1) cs with
      | some tail => some tail
      | none => backed? cs n

theorem tailFrom_width_append (as bs : List Char) : tailFrom (width as) (as ++ bs) = bs := by
  induction as with
  | nil =>
      cases bs with
      | nil => rfl
      | cons b bs =>
          have hb := b.utf8Size_pos
          exact if_neg (by rw [width_nil]; omega)
  | cons a as ih =>
      rw [width_cons, List.cons_append, tailFrom, if_pos (Nat.le_add_right _ _),
        Nat.add_sub_cancel_left, ih]

/-- An offset inside a character shows the same text as the byte in front of it. -/
theorem tailFrom_succ {n : Nat} {cs : List Char} (h : dropWidth? (n + 1) cs = none)
    (hn : n + 1 ≤ width cs) : tailFrom (n + 1) cs = tailFrom n cs := by
  induction cs generalizing n with
  | nil => cases hn
  | cons c cs ih =>
      rw [dropWidth?] at h
      rw [width_cons] at hn
      split at h
      · rename_i hsize
        obtain ⟨k, hk⟩ : ∃ k, n + 1 - c.utf8Size = k + 1 := by
          refine Nat.exists_eq_succ_of_ne_zero fun hzero => ?_
          rw [hzero, dropWidth?_zero] at h
          cases h
        rw [hk] at h
        rw [tailFrom, if_pos hsize, tailFrom, if_pos (by omega), hk,
          show n - c.utf8Size = k by omega]
        exact ih h (by omega)
      · rename_i hsize
        rw [tailFrom, if_neg hsize, tailFrom, if_neg (by omega)]

theorem tailFrom_of_le {n : Nat} {cs : List Char} (h : width cs ≤ n) : tailFrom n cs = [] := by
  induction cs generalizing n with
  | nil => rfl
  | cons c cs ih =>
      rw [width_cons] at h
      rw [tailFrom, if_pos (by omega), ih (by omega)]

/-- Backing up comes to a boundary, and what stands behind it is the text of an excerpt. -/
theorem backed?_eq (n : Nat) (cs : List Char) :
    backed? cs (min n (width cs)) = some (tailFrom n cs) := by
  have hwithin : ∀ {n}, n ≤ width cs → backed? cs n = some (tailFrom n cs) := by
    intro n h
    induction n with
    | zero =>
        rw [backed?, dropWidth?_zero]
        exact congrArg some (tailFrom_width_append [] cs).symm
    | succ n ih =>
        rw [backed?]
        split
        · rename_i tail htail
          obtain ⟨front, rfl, hwidth⟩ := append_of_dropWidth? htail
          rw [← hwidth, tailFrom_width_append]
        · rename_i hnone
          rw [ih (Nat.le_of_succ_le h), tailFrom_succ hnone h]
  rcases Nat.le_total n (width cs) with h | h
  · rw [Nat.min_eq_left h, hwithin h]
  · rw [Nat.min_eq_right h, hwithin (Nat.le_refl _), tailFrom_of_le h, tailFrom_of_le (Nat.le_refl _)]

end Text

/-! ## Decoded names -/

/-- A text that starts and ends with an ASCII character has a decoded form. -/
theorem Token.exists_decode? {text : List Char} (h : Text.AsciiEnds text) :
    ∃ name, decode? text = some name := by
  rcases text with _ | ⟨c, tail⟩
  · exact ⟨[], rfl⟩
  · have hc := Text.utf8Size_eq_one_iff.2 (h.head c rfl)
    rcases List.eq_nil_or_concat tail with rfl | ⟨body, l, rfl⟩
    · refine ⟨[c], ?_⟩
      rw [decode?, if_pos]
      rw [Text.width_cons, Text.width_nil, hc]
      decide
    · rw [List.concat_eq_append] at h ⊢
      have hl := Text.utf8Size_eq_one_iff.2
        (h.last l (by rw [← List.cons_append, List.getLast?_concat]; rfl))
      exact ⟨_, decode?_between hc hl body⟩

/-- A token without decoded form has two bytes or more, and a character outside ASCII at one of
its ends. -/
theorem Token.name?_eq_none {t : Token} (h : t.name? = none) :
    2 ≤ Text.width t.text.toList ∧ ¬Text.AsciiEnds t.text.toList := by
  rw [name?, Option.map_eq_none_iff] at h
  refine ⟨?_, fun hends => ?_⟩
  · by_contra hshort
    rw [decode?, if_pos (by omega)] at h
    cases h
  · obtain ⟨name, hname⟩ := exists_decode? hends
    cases h.symm.trans hname

/-! ## The ends of tokens -/

namespace Lexeme

open Text

theorem ascii_of_keyword {d : Dialect} {word : List Char} {k : Keyword}
    (h : d.keyword? word = some k) : Ascii word := by
  have hspelled : k.spelling.toList = word.map Char.toUpper := by simpa using List.find?_some h
  intro c hc
  rw [Bool.eq_false_iff]
  intro hwide
  have hmem : c.toUpper ∈ k.spelling.toList := hspelled ▸ List.mem_map_of_mem hc
  cases (isWide_toUpper hwide).symm.trans (Keyword.ascii_spelling k _ hmem)

theorem ascii_of_wordKind (d : Dialect) (word rest : List Char) :
    wordKind d word rest = .identifier ∨ Ascii word := by
  cases hkeyword : d.keyword? word with
  | none => exact .inl (by rw [wordKind, hkeyword])
  | some k => exact .inr (ascii_of_keyword hkeyword)

theorem asciiEnds_of_string {d : Dialect} {quote : Char} {cs : List Char} {l : Lexeme}
    (h : string d (quote :: cs) = .ok l) (hquote : isWide quote = false) : AsciiEnds l.text := by
  rw [string] at h
  split at h
  · rename_i body rest hclose
    cases h
    refine ⟨fun c hc => ?_, fun c hc => ?_⟩
    · obtain rfl : quote = c := by simpa using hc
      exact hquote
    · have hlast := getLast?_of_close? hclose
      rw [List.getLast?_cons, hlast] at hc
      obtain rfl : quote = c := by simpa using hc
      exact hquote
  · cases h

theorem ascii_of_operatorWithin {cs : List Char} (n : Nat) {l : Lexeme}
    (h : operatorWithin cs n = .ok l) : Ascii l.text := by
  induction n with
  | zero => cases h
  | succ n ih =>
      rw [operatorWithin] at h
      split at h
      · rename_i s hs
        cases h
        exact ascii_of_symbol hs
      · exact ih h

/-- Only a name or a variable starts or ends with a character outside ASCII. -/
theorem asciiEnds_of_read {d : Dialect} {b : Before} {cs : List Char} {l : Lexeme}
    (h : read d b cs = .ok l) :
    l.kind = .identifier ∨ l.kind = .sqlVariable ∨ AsciiEnds l.text := by
  obtain ⟨f, hform, h⟩ := exists_form_of_read h
  obtain ⟨mark, tail, rfl, hlead, hascii⟩ := ascii_lead hform
  cases f with
  | sqlVariable =>
      change sqlVariable _ = .ok l at h
      unfold sqlVariable at h
      split at h
      · cases h
      · extract_lets marks tail named body at h
        split at h <;> cases h
        exact .inr (.inl rfl)
  | string =>
      obtain ⟨quote, rfl⟩ := List.length_eq_one_iff.1 hlead
      exact .inr (.inr (asciiEnds_of_string h (ascii_cons.1 hascii).1))
  | nationalString =>
      obtain ⟨mark, quote, rfl⟩ := List.length_eq_two.1 hlead
      obtain ⟨hmark, hquote⟩ := ascii_cons.1 hascii
      change nationalString d (mark :: quote :: tail) = .ok l at h
      rw [nationalString] at h
      split at h
      · rename_i inner hinner
        cases h
        have hends := asciiEnds_of_string hinner (ascii_cons.1 hquote).1
        refine .inr (.inr ⟨fun c hc => ?_, fun c hc => hends.last c ?_⟩)
        · obtain rfl : mark = c := by simpa using hc
          exact hmark
        · rwa [← List.getLast?_append_of_ne_nil [mark] (string_splits d hinner).nonempty]
      · cases h
  | hexadecimal =>
      obtain ⟨x, y, rfl⟩ := List.length_eq_two.1 hlead
      change hexadecimal _ = .ok l at h
      unfold hexadecimal at h
      extract_lets after sign digitsOn digits at h
      split at h
      · cases h
      · split at h <;> cases h
        have hsign : Ascii sign := by
          intro c hc
          simp only [sign] at hc
          split at hc
          · rw [List.mem_singleton.1 hc]
            rfl
          · cases hc
        have hdigits : Ascii digits := fun c hc =>
          not_isWide isHexDigit_of_isWide (List.mem_takeWhile_imp hc)
        exact .inr (.inr ((Ascii.append hascii hsign).append hdigits).ends)
  | name =>
      obtain rfl := List.length_eq_zero_iff.1 hlead
      change name d tail = .ok l at h
      unfold name at h
      split at h
      · cases h
        exact .inr (.inr ascii_nil.ends)
      · split at h
        · split at h <;> cases h
          exact .inl rfl
        · cases h
          rcases ascii_of_wordKind d _ _ with hkind | htext
          · exact .inl hkind
          · exact .inr (.inr htext.ends)
  | number =>
      obtain rfl := List.length_eq_zero_iff.1 hlead
      change number tail = .ok l at h
      obtain ⟨sign, whole, frac, expo, suff, rest, rfl, hnumeral⟩ := exists_numeral tail
      obtain ⟨hsign, hwhole, hfrac, hexpo, hsuff⟩ := hnumeral.ascii
      rw [(hnumeral.split_eq h).1]
      exact .inr (.inr ((((hsign.append hwhole).append hfrac).append hexpo).append hsuff).ends)
  | operator =>
      obtain rfl := List.length_eq_zero_iff.1 hlead
      exact .inr (.inr (ascii_of_operatorWithin _ h).ends)

end Lexeme

/-! ## Replacements -/

namespace Text

/-- `text` with the bytes of a span replaced, if both its ends are boundaries. -/
def replaceRange? (span : Span) (replacement : List Char) (text : List Char) :
    Option (List Char) := do
  let front ← takeWidth? span.start text
  let behind ← dropWidth? span.stop text
  return front ++ replacement ++ behind

end Text

namespace Parsed

variable {m : Type → Type} [Monad m]

/-- The source with each marker replaced by what `f` gives for it, if no replacement cuts a
character. A replacement is made where the span holds the literal of its marker. -/
def replaceMarkersM? (p : Parsed) (f : Marker → m (Option String)) : OptionT m (List Char) :=
  p.markers.foldrM (fun marker text => do
    match ← OptionT.lift (f marker) with
    | some replacement =>
        if marker.span.slice? text = some marker.literal.toList then
          OptionT.mk (pure (Text.replaceRange? marker.span replacement.toList text))
        else return text
    | none => return text) p.source

/-- A span that holds the literal of its marker can be replaced. -/
theorem replaceRange?_eq {marker : Marker} {text : List Char}
    (h : marker.span.slice? text = some marker.literal.toList) (replacement : String) :
    Text.replaceRange? marker.span replacement.toList text =
      some (substitute marker replacement text) := by
  obtain ⟨front, behind, rfl, hstart, hstop⟩ := Text.append_of_slice? h
  have hspan : marker.span =
      ⟨Text.width front, Text.width front + Text.width marker.literal.toList⟩ := by
    rw [hstart, hstop]
  have hdrop := Text.dropWidth?_width_append (front ++ marker.literal.toList) behind
  rw [Text.width_append, List.append_assoc] at hdrop
  rw [substitute_append hspan, hspan]
  simp only [Text.replaceRange?, Text.takeWidth?_width_append, hdrop, Option.bind_eq_bind,
    Option.bind_some, List.append_assoc]
  rfl

/-- Replacing markers never cuts a character, whatever they are replaced with. -/
theorem replaceMarkersM?_eq [LawfulMonad m] (p : Parsed) (f : Marker → m (Option String)) :
    p.replaceMarkersM? f = OptionT.lift (p.replaceMarkersM f) := by
  rw [replaceMarkersM?, replaceMarkersM]
  induction p.markers with
  | nil => rw [List.foldrM_nil, List.foldrM_nil, OptionT.lift_pure]
  | cons marker ms ih =>
      rw [List.foldrM_cons, ih, List.foldrM_cons, OptionT.lift_bind]
      refine bind_congr fun text => ?_
      rw [OptionT.lift_bind]
      refine bind_congr fun replacement => ?_
      cases replacement with
      | none => rw [OptionT.lift_pure]
      | some replacement =>
          dsimp only
          split
          · rename_i hliteral
            rw [replaceRange?_eq hliteral, OptionT.lift_pure]
            rfl
          · rename_i hliteral
            rw [substitute_of_ne hliteral, OptionT.lift_pure]

end Parsed

/-! ## Parsing and replacing -/

/-- A name or a variable of two bytes or more, with a character outside ASCII at one of its
ends. -/
structure Token.Frayed (t : Token) : Prop where
  kind : t.kind = .identifier ∨ t.kind = .sqlVariable
  width : 2 ≤ Text.width t.text.toList
  ends : (∃ c ∈ t.text.toList.head?, isWide c = true) ∨
    ∃ c ∈ t.text.toList.getLast?, isWide c = true

/-- Every token of a stream without decoded form is a frayed name or variable. -/
theorem TokenStream.frayed {d : Dialect} {source : List Char} {t : Token}
    (ht : t ∈ (ofText d source).tokens) (hname : t.name? = none) : t.Frayed := by
  obtain ⟨hwidth, hends⟩ := Token.name?_eq_none hname
  refine ⟨?_, hwidth, Text.AsciiEnds.isWide_or hends⟩
  rw [ofText] at ht
  split at ht
  · rcases exists_read ht with ⟨-, hempty⟩ | ⟨b, rest, l, hread, hkind, htext⟩
    · rw [hempty] at hwidth
      cases hwidth
    · rw [htext] at hends
      rw [hkind]
      rcases Lexeme.asciiEnds_of_read hread with hidentifier | hvariable | hascii
      · exact .inl hidentifier
      · exact .inr hvariable
      · exact absurd hascii hends
  · cases ht

/-- Where reading a statement and replacing its markers cuts the text. -/
structure Uncut (config : Config) (catalogue : Catalogue) (source : String) : Prop where
  /-- Tokens that are read at byte offsets are cut out between characters. -/
  tokens : Bytewise.tokenize config.dialect source.toList =
    (tokenize config.dialect source).mapError Failure.error
  /-- An excerpt starts between characters, at any offset. -/
  excerpts : ∀ offset, Text.backed? source.toList (min offset (Text.width source.toList)) =
    some (Text.tailFrom offset source.toList)
  /-- Parsing ends without an error only because of a name or a variable that is no ASCII at one
  of its ends. -/
  decoded : parse config catalogue source = .error .undecodable →
    ∃ t ∈ (TokenStream.ofText config.dialect source.toList).tokens, t.Frayed
  /-- On an ASCII text parsing gives a statement or an error. -/
  ascii : Text.Ascii source.toList → parse config catalogue source ≠ .error .undecodable
  /-- Markers are replaced between characters, whatever they are replaced with. -/
  replaced : ∀ {m : Type → Type} [Monad m] [LawfulMonad m] {p : Parsed}
    (f : Marker → m (Option String)), parse config catalogue source = .ok p →
      p.replaceMarkersM? f = OptionT.lift (p.replaceMarkersM f)

/-- For every dialect, catalogue, depth limit and text. -/
theorem uncut_parse (config : Config) (catalogue : Catalogue) (source : String) :
    Uncut config catalogue source := by
  have hdecoded : parse config catalogue source = .error .undecodable →
      ∃ t ∈ (TokenStream.ofText config.dialect source.toList).tokens, t.Frayed := by
    intro h
    have hlands := (config.setting catalogue source).run_lands
    cases hrun : (config.setting catalogue source).run with
    | ok result =>
        obtain ⟨st, r⟩ := result
        cases h.symm.trans (parse_of_run hrun)
    | error f =>
        rw [hrun] at hlands
        rw [parse_of_error hrun] at h
        cases f with
        | undecodable =>
            obtain ⟨t, ht, hname⟩ := hlands
            exact ⟨t, ht, TokenStream.frayed ht hname⟩
        | overflow => exact hlands.elim
        | lexical | grammar | stalled => cases h
  refine ⟨Bytewise.tokenize_eq config.dialect source, fun offset => Text.backed?_eq offset _,
    hdecoded, fun hascii hparse => ?_, fun f _ => Parsed.replaceMarkersM?_eq _ f⟩
  obtain ⟨t, ht, hfrayed⟩ := hdecoded hparse
  obtain ⟨before, after, hsource, -, -⟩ := (TokenStream.laid_ofText _ _).mem ht
  have htext : Text.Ascii t.text.toList := fun c hc => hascii c (by rw [← hsource]; simp [hc])
  rcases hfrayed.ends with ⟨c, hc, hwide⟩ | ⟨c, hc, hwide⟩
  · cases hwide.symm.trans (htext.ends.head c hc)
  · cases hwide.symm.trans (htext.ends.last c hc)

/-- A name with a character outside ASCII at its end. -/
example : (match parse {} Catalogue.everyName "SELECT a FROM né" with
    | .error .undecodable => true
    | _ => false) = true := by
  decide +kernel

end SqlMarkers
