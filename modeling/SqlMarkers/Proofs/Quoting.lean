/-
SqlMarkers.Proofs.Quoting — what is quoted is read back.

A text can be put between quotes in five ways (`Quotation`). Inside, the mark that closes
it is written twice, and in a string so is a backslash where backslashes escape.

Two functions that know nothing of each other go through what stands between the marks:
`Lexeme.close?` looks for the end of it, and `Token.decodeBody` says what it stands for.
They agree because both take it apart in the same steps. `Token.Escapes` names these
steps, and each of the two functions is followed along them. `first_of_quotation` then says that
a quoted text is the first token of whatever starts with it, and stands for what was quoted.
-/
import SqlMarkers.Proofs.Rereading
import SqlMarkers.Token.Name

namespace SqlMarkers

open CharClass

/-! ## Between the quotes -/

namespace Token

/-- How the text `value` may be written between marks of which `quote` is the closing one. -/
inductive Escapes (quote : Char) (escapes : Bool) : List Char → List Char → Prop
  | nil : Escapes quote escapes [] []
  | quote {value body : List Char} :
      Escapes quote escapes value body → Escapes quote escapes (quote :: value) (quote :: quote :: body)
  | backslash {value body : List Char} : escapes = true →
      Escapes quote escapes value body → Escapes quote escapes ('\\' :: value) ('\\' :: '\\' :: body)
  | plain {c : Char} {value body : List Char} : c ≠ quote → (c = '\\' → escapes = false) →
      Escapes quote escapes value body → Escapes quote escapes (c :: value) (c :: body)

/-- What `Token.quoted` writes between its quotes. -/
def inside (quote : Char) (escapes : Bool) (value : List Char) : List Char :=
  Text.doubling quote (if escapes then Text.doubling '\\' value else value)

variable {quote : Char} {escapes : Bool} {value body rest : List Char}

theorem escapes_inside (hquote : quote ≠ '\\') (escapes : Bool) (value : List Char) :
    Escapes quote escapes value (inside quote escapes value) := by
  induction value with
  | nil => cases escapes <;> exact .nil
  | cons c value ih =>
      by_cases hc : c = quote
      · subst hc
        have hdoubled : inside c escapes (c :: value) = c :: c :: inside c escapes value := by
          cases escapes <;> simp [inside, Text.doubling, hquote]
        exact hdoubled ▸ .quote ih
      · by_cases hescape : c = '\\' ∧ escapes = true
        · obtain ⟨rfl, rfl⟩ := hescape
          have hdoubled : inside quote true ('\\' :: value) = '\\' :: '\\' :: inside quote true value := by
            simp [inside, Text.doubling, hc]
          exact hdoubled ▸ .backslash rfl ih
        · have hkept : inside quote escapes (c :: value) = c :: inside quote escapes value := by
            cases escapes with
            | false => simp [inside, Text.doubling, hc]
            | true =>
                have hplain : c ≠ '\\' := fun h => hescape ⟨h, rfl⟩
                simp [inside, Text.doubling, hc, hplain]
          refine hkept ▸ .plain hc (fun h => ?_) ih
          simpa using fun htrue => hescape ⟨h, htrue⟩

/-- What was written stands for the text again. -/
theorem Escapes.decodeBody_eq (hquote : quote ≠ '\\') (h : Escapes quote escapes value body) :
    decodeBody quote escapes body = value := by
  induction h with
  | nil => rfl
  | quote _ ih => rw [decodeBody, if_pos ⟨rfl, rfl⟩, ih]
  | backslash hescapes _ ih =>
      rw [decodeBody, if_neg fun h => hquote h.1.symm, if_pos ⟨rfl, hescapes⟩, ih]
      rfl
  | @plain c value body hc hplain _ ih =>
      cases body with
      | nil =>
          rw [← ih]
          rfl
      | cons d body =>
          have hescape : ¬(c = '\\' ∧ escapes = true) := by
            rintro ⟨hslash, htrue⟩
            rw [hplain hslash] at htrue
            cases htrue
          rw [decodeBody, if_neg fun h => hc h.1, if_neg hescape, ih]

/-- Without escapes decoding does no more than read doubled marks as one. -/
theorem undoubling_eq (c : Char) (cs : List Char) :
    Text.undoubling c cs = decodeBody c false cs := by
  fun_induction Text.undoubling c cs with
  | case1 => rfl
  | case2 a => rfl
  | case3 a b cs hpair ih => rw [decodeBody, if_pos hpair, ih]
  | case4 a b cs hpair ih => rw [decodeBody, if_neg hpair, if_neg (by simp), ih]

/-- The first quote that is not doubled closes. -/
theorem Escapes.close?_eq (hquote : quote ≠ '\\') (hend : quote ≠ endMark)
    (hrest : rest.head? ≠ some quote) (h : Escapes quote escapes value body) :
    Lexeme.close? quote escapes (body ++ quote :: rest) = some (body ++ [quote], rest) := by
  have hmark : ¬(quote == '\\' && (escapes || quote == '\\')) = true := by simp [hquote]
  induction h with
  | nil =>
      cases rest with
      | nil => simp [Lexeme.close?, hquote, hend]
      | cons c rest =>
          have hc : ¬(c == quote) = true := by simpa using hrest
          rw [List.nil_append, Lexeme.close?, if_neg hmark, if_pos (beq_self_eq_true _), if_neg hc]
          rfl
  | quote _ ih =>
      rw [List.cons_append, List.cons_append, Lexeme.close?, if_neg hmark,
        if_pos (beq_self_eq_true _), if_pos (beq_self_eq_true _), ih]
      rfl
  | backslash hescapes _ ih =>
      rw [List.cons_append, List.cons_append, Lexeme.close?, if_pos (by simp [hescapes]), ih]
      rfl
  | @plain c _ _ hc hplain _ ih =>
      have hescape : (c == '\\' && (escapes || quote == '\\')) = false := by
        by_cases hslash : c = '\\'
        · simp [hplain hslash, hquote]
        · simp [hslash]
      rw [List.cons_append, Lexeme.close?_plain hescape (beq_false_of_ne hc), ih]
      rfl

end Token

/-! ## Quotations -/

/-- A way to quote a text. -/
inductive Quotation where
  /-- A string in single quotes. -/
  | single
  /-- A string in double quotes. -/
  | double
  /-- A national string: an `N` and a string in single quotes. -/
  | national
  /-- A name in back-quotes. -/
  | backQuote
  /-- A name in brackets. -/
  | bracket
deriving DecidableEq, Repr

namespace Quotation

/-- Whether a dialect can quote in this way. -/
def isIn (d : Dialect) : Quotation → Bool
  | .single | .double | .backQuote => true
  | .national => d.features.nationalStrings
  | .bracket => d.features.bracketNames

/-- The mark that closes a text quoted in this way. -/
def closing : Quotation → Char
  | .single | .national => '\x27'
  | .double => '\x22'
  | .backQuote => '\x60'
  | .bracket => ']'

/-- `value`, quoted. -/
def write (d : Dialect) (q : Quotation) (value : List Char) : List Char :=
  match q with
  | .single | .double => Token.quoted q.closing d.features.backslashEscapes value
  | .national => 'N' :: Token.quoted q.closing d.features.backslashEscapes value
  | .backQuote => Token.backQuoted value
  | .bracket => Token.bracketed value

/-- What kind of token a quoted text is. -/
def kind : Quotation → Kind
  | .single | .double | .national => .chars
  | .backQuote | .bracket => .identifier

/-- The token that a quoted text is at the start of a statement. -/
def token (d : Dialect) (q : Quotation) (value : List Char) : Token :=
  ⟨q.kind, String.ofList (q.write d value), ⟨0, Text.width (q.write d value)⟩⟩

/-- What a token stands for, read as a text quoted in this way. -/
def value? (d : Dialect) (t : Token) : Quotation → Option String
  | .single | .double | .national => t.chars? d.features.backslashEscapes
  | .backQuote | .bracket => t.name?

end Quotation

/-! ### Their values -/

namespace Token

variable {quote mark : Char} {escapes : Bool} {value : List Char}

/-- What stands between two marks, of which the first one takes one byte. -/
theorem slice?_between (hquote : quote.utf8Size = 1) (mark : Char) (body : List Char) :
    Text.slice? 1 (1 + Text.width body) (quote :: body ++ [mark]) = some body := by
  have hslice := Text.slice?_width_append [quote] body [mark]
  rw [Text.width_cons, Text.width_nil, hquote] at hslice
  exact hslice

theorem width_between (hquote : quote.utf8Size = 1) (hmark : mark.utf8Size = 1) (body : List Char) :
    Text.width (quote :: body ++ [mark]) = 1 + Text.width body + 1 := by
  rw [List.cons_append, Text.width_cons, Text.width_append, Text.width_cons, Text.width_nil, hquote,
    hmark]
  omega

/-- A quoted string has its value. -/
theorem decodeChars_quoted (hquote : quote = '\x27' ∨ quote = '\x22') (value : List Char) :
    decodeChars escapes (quoted quote escapes value) = value := by
  have hsize : quote.utf8Size = 1 := by rcases hquote with rfl | rfl <;> rfl
  have hslash : quote ≠ '\\' := by rcases hquote with rfl | rfl <;> decide
  have hhead : ¬((quoted quote escapes value).head? = some 'N' ∨
      (quoted quote escapes value).head? = some 'n') := by
    rcases hquote with rfl | rfl <;> simp [quoted]
  have hstop : max (Text.width (quoted quote escapes value) - 1) 1 =
      1 + Text.width (inside quote escapes value) := by
    have hwidth := width_between hsize hsize (inside quote escapes value)
    change max (Text.width (quote :: inside quote escapes value ++ [quote]) - 1) 1 = _
    omega
  have hinner : Text.slice? 1 (max (Text.width (quoted quote escapes value) - 1) 1)
      (quoted quote escapes value) = some (inside quote escapes value) := by
    rw [hstop]
    exact slice?_between hsize quote _
  calc decodeChars escapes (quoted quote escapes value)
      = decodeBody quote escapes ((Text.slice? 1 (max (Text.width (quoted quote escapes value) - 1) 1)
          (quoted quote escapes value)).getD []) := by
        rw [decodeChars, if_neg hhead]
        rfl
    _ = decodeBody quote escapes (inside quote escapes value) := by rw [hinner, Option.getD_some]
    _ = value := (escapes_inside hslash escapes value).decodeBody_eq hslash

/-- The `N` in front of a national string is not part of its value. -/
theorem decodeChars_national (value : List Char) :
    decodeChars escapes ('N' :: quoted '\x27' escapes value) = value :=
  decodeChars_quoted (.inl rfl) value

/-- A quoted name has its name. -/
theorem decode?_between (hquote : quote.utf8Size = 1) (hmark : mark.utf8Size = 1)
    (body : List Char) : decode? (quote :: body ++ [mark]) = some (
      if quote = '\x60' ∧ mark = '\x60' then Text.undoubling '\x60' body
      else if quote = '[' ∧ mark = ']' then Text.undoubling ']' body
      else quote :: body ++ [mark]) := by
  have hwidth := width_between hquote hmark body
  have hinner : inner? (quote :: body ++ [mark]) = some body := by
    rw [inner?, hwidth, Nat.add_sub_cancel]
    exact slice?_between hquote mark body
  have hlast : (quote :: body ++ [mark]).getLast? = some mark := List.getLast?_concat ..
  have hlong : ¬Text.width (quote :: body ++ [mark]) < 2 := by omega
  rw [decode?, if_neg hlong, hinner, hlast, List.cons_append, List.head?_cons]
  simp only [Option.map_some, Option.some.injEq]

theorem undoubling_inside (hslash : quote ≠ '\\') (value : List Char) :
    Text.undoubling quote (Text.doubling quote value) = value := by
  rw [undoubling_eq]
  exact (escapes_inside hslash false value).decodeBody_eq hslash

theorem decode?_backQuoted (value : List Char) : decode? (backQuoted value) = some value := by
  rw [backQuoted, decode?_between rfl rfl, if_pos ⟨rfl, rfl⟩, undoubling_inside (by decide)]

theorem decode?_bracketed (value : List Char) : decode? (bracketed value) = some value := by
  rw [bracketed, decode?_between rfl rfl, if_neg (by decide), if_pos ⟨rfl, rfl⟩,
    undoubling_inside (by decide)]

end Token

/-! ### Their ends -/

namespace Lexeme

variable {d : Dialect} {b : Before} {quote : Char} {value rest : List Char}

theorem startsNumber_mark (hdigit : isDigit quote = false) (hpoint : quote ≠ '.')
    (hsign : quote ≠ '-') (b : Before) (cs : List Char) : startsNumber b (quote :: cs) = false := by
  simp [startsNumber, peek, hdigit, hpoint, hsign]

/-- A quoted string is read up to the quote that closes it. -/
theorem string_quoted (hquote : quote = '\x27' ∨ quote = '\x22') (value : List Char)
    (hrest : rest.head? ≠ some quote) :
    string d (Token.quoted quote d.features.backslashEscapes value ++ rest) =
      .ok ⟨.chars, Token.quoted quote d.features.backslashEscapes value, rest⟩ := by
  have hslash : quote ≠ '\\' := by rcases hquote with rfl | rfl <;> decide
  have hend : quote ≠ endMark := by rcases hquote with rfl | rfl <;> decide
  have hescapes : (d.features.backslashEscapes && quote != '\x60') = d.features.backslashEscapes := by
    rcases hquote with rfl | rfl <;> exact Bool.and_true _
  have hclose := (Token.escapes_inside hslash d.features.backslashEscapes value).close?_eq hslash
    hend hrest
  have htext : Token.quoted quote d.features.backslashEscapes value ++ rest =
      quote :: (Token.inside quote d.features.backslashEscapes value ++ quote :: rest) := by
    simp [Token.quoted, Token.inside]
  rw [htext, string, hescapes, hclose]
  rfl

/-- A name between marks is read up to the mark that closes it. -/
theorem name_between {opening closing : Char}
    (hmarks : (opening = '\x60' ∧ closing = '\x60') ∨
      (opening = '[' ∧ closing = ']' ∧ d.features.bracketNames = true))
    (hrest : rest.head? ≠ some closing) :
    name d (opening :: Text.doubling closing value ++ [closing] ++ rest) =
      .ok ⟨.identifier, opening :: Text.doubling closing value ++ [closing], rest⟩ := by
  have hslash : closing ≠ '\\' := by rcases hmarks with ⟨-, rfl⟩ | ⟨-, rfl, -⟩ <;> decide
  have hend : closing ≠ endMark := by rcases hmarks with ⟨-, rfl⟩ | ⟨-, rfl, -⟩ <;> decide
  have hopens : (opening == '\x60' || (opening == '[' && d.features.bracketNames)) = true := by
    rcases hmarks with ⟨rfl, -⟩ | ⟨rfl, -, hbrackets⟩
    · rfl
    · simp [hbrackets]
  have hcloses : (if opening == '[' then ']' else opening) = closing := by
    rcases hmarks with ⟨rfl, rfl⟩ | ⟨rfl, rfl, -⟩ <;> rfl
  have hclose := (Token.escapes_inside hslash false value).close?_eq hslash hend hrest
  have htext : opening :: Text.doubling closing value ++ [closing] ++ rest =
      opening :: (Token.inside closing false value ++ closing :: rest) := by
    simp [Token.inside]
  rw [htext, name, if_pos hopens, hcloses, hclose]
  rfl

/-- A quote starts a string, and nothing else. -/
theorem formOf_quote (hquote : quote = '\x27' ∨ quote = '\x22') (d : Dialect) (second : Char) :
    formOf d quote second false = some .string := by
  rcases hquote with rfl | rfl <;> cases d <;> rfl

theorem read_string (hquote : quote = '\x27' ∨ quote = '\x22') (b : Before)
    (hrest : rest.head? ≠ some quote) :
    read d b (Token.quoted quote d.features.backslashEscapes value ++ rest) =
      .ok ⟨.chars, Token.quoted quote d.features.backslashEscapes value, rest⟩ := by
  have hnumber : startsNumber b (Token.quoted quote d.features.backslashEscapes value ++ rest) = false := by
    rcases hquote with rfl | rfl <;> exact startsNumber_mark rfl (by decide) (by decide) b _
  refine (read_of_formOf (f := .string) ?_).trans (string_quoted hquote value hrest)
  rw [hnumber]
  exact formOf_quote hquote d _

theorem read_national (hnational : d.features.nationalStrings = true) (b : Before)
    (hrest : rest.head? ≠ some '\x27') :
    read d b ('N' :: Token.quoted '\x27' d.features.backslashEscapes value ++ rest) =
      .ok ⟨.chars, 'N' :: Token.quoted '\x27' d.features.backslashEscapes value, rest⟩ := by
  have hstring := string_quoted (d := d) (.inl rfl) value hrest
  refine (read_of_formOf (f := .nationalString) ?_).trans ?_
  · cases d with
    | standard => cases hnational
    | mysql => rfl
    | sqlserver => rfl
  · rw [List.cons_append, Form.split, nationalString, hstring]

/-- A quoted text is read whole, wherever it stands. -/
theorem read_quotation {q : Quotation} (hq : q.isIn d = true) (b : Before) (value : List Char)
    (hrest : rest.head? ≠ some q.closing) :
    read d b (q.write d value ++ rest) = .ok ⟨q.kind, q.write d value, rest⟩ := by
  cases q with
  | single => exact read_string (.inl rfl) b hrest
  | double => exact read_string (.inr rfl) b hrest
  | national => exact read_national hq b hrest
  | backQuote =>
      refine (read_of_formOf (f := .name) ?_).trans (name_between (d := d) (.inl ⟨rfl, rfl⟩) hrest)
      cases d <;> rfl
  | bracket =>
      refine (read_of_formOf (f := .name) ?_).trans (name_between (.inr ⟨rfl, rfl, hq⟩) hrest)
      cases d with
      | standard => cases hq
      | mysql => cases hq
      | sqlserver => rfl

end Lexeme

/-! ## Quoted texts as tokens -/

namespace Quotation

variable {d : Dialect} {q : Quotation} {value rest : List Char}

/-- No piece of a gap starts with a quoted text. -/
theorem bare (q : Quotation) (value rest : List Char) : Gap.Bare d (q.write d value ++ rest) := by
  cases q <;> exact Gap.bare_cons rfl (by decide) (by decide) (by decide)

/-- A quoted text stands for what was quoted. -/
theorem value?_token (q : Quotation) (value : List Char) :
    q.value? d (q.token d value) = some (String.ofList value) := by
  have hchars : ∀ text, Token.decodeChars d.features.backslashEscapes text = value →
      Token.chars? ⟨.chars, String.ofList text, ⟨0, Text.width text⟩⟩ d.features.backslashEscapes =
        some (String.ofList value) := by
    intro text htext
    rw [Token.chars?, if_pos rfl, String.toList_ofList, htext]
  have hname : ∀ text, Token.decode? text = some value →
      Token.name? ⟨.identifier, String.ofList text, ⟨0, Text.width text⟩⟩ =
        some (String.ofList value) := by
    intro text htext
    rw [Token.name?, String.toList_ofList, htext]
    rfl
  cases q with
  | single => exact hchars _ (Token.decodeChars_quoted (.inl rfl) value)
  | double => exact hchars _ (Token.decodeChars_quoted (.inr rfl) value)
  | national => exact hchars _ (Token.decodeChars_national value)
  | backQuote => exact hname _ (Token.decode?_backQuoted value)
  | bracket => exact hname _ (Token.decode?_bracketed value)

end Quotation

/-- A text that starts with a quoted one, and does not go on with the mark that closes it, has
the quoted text as its first token. -/
theorem TokenStream.head?_quotation {d : Dialect} {q : Quotation} (hq : q.isIn d = true)
    (value : List Char) {rest : List Char} (hrest : rest.head? ≠ some q.closing) :
    (ofText d (q.write d value ++ rest)).tokens.head? =
      if Span.fits (q.write d value ++ rest) then some (q.token d value) else none := by
  have hread := Lexeme.read_quotation hq (after none (Text.width [])) value hrest
  have hstep : step d 0 none (q.write d value ++ rest) =
      .token 0 ⟨q.kind, q.write d value, rest⟩ :=
    step_eq .nil (q.bare value rest) hread
  rw [ofText]
  split
  · rw [readFrom, hstep]
    simp only [List.head?_cons, tokenAt, Quotation.token, Nat.zero_add]
  · rfl

/-- A quoted text is the first token of any text that starts with it, unless the mark that
closes it follows, and it stands for what was quoted. Only a text too long to be read has no
first token. -/
theorem first_of_quotation {d : Dialect} {q : Quotation} (hq : q.isIn d = true)
    (value : List Char) {rest : List Char} (hrest : rest.head? ≠ some q.closing) :
    (TokenStream.ofText d (q.write d value ++ rest)).tokens.head? =
        (if Span.fits (q.write d value ++ rest) then some (q.token d value) else none) ∧
      q.value? d (q.token d value) = some (String.ofList value) :=
  ⟨TokenStream.head?_quotation hq value hrest, q.value?_token value⟩

/-- A national string with a quote, a backslash and a character of two bytes in it. -/
theorem first_of_quotation_national :
    Quotation.national.isIn .mysql = true ∧
      "é FROM t".toList.head? ≠ some Quotation.national.closing ∧
      (TokenStream.ofText .mysql "N'it''s \\\\é'é FROM t".toList).tokens.head? =
        some ⟨.chars, "N'it''s \\\\é'", ⟨0, 13⟩⟩ ∧
      Token.chars? ⟨.chars, "N'it''s \\\\é'", ⟨0, 13⟩⟩ true = some "it's \\é" := by
  have hrest : "é FROM t".toList.head? ≠ some Quotation.national.closing := by decide
  have hvalue := first_of_quotation (d := .mysql) (q := .national) rfl "it's \\é".toList hrest
  exact ⟨rfl, hrest, hvalue⟩

end SqlMarkers
