/-
SqlMarkers.TokenStream — the tokens of a whole statement.

`TokenStream.ofText` reads tokens from the start of a statement up to the
end-of-input token, or up to the first piece of text that is no token. What
a piece of text reads as depends on nothing but the text from there on and
the token before it, so the stream is the same however it is later consumed.
-/
import SqlMarkers.Error
import SqlMarkers.Gap
import SqlMarkers.Lexeme

namespace SqlMarkers

/-- A piece of a statement that is no token. -/
structure LexicalFault where
  /-- Where the piece starts. -/
  start : Nat
  /-- Where the error is reported. -/
  offset : Nat
  cause : LexicalCause
  /-- The cause when reading starts at the piece itself, without the gap that
  led to it. -/
  again : LexicalCause
deriving DecidableEq, Repr, Inhabited

namespace LexicalFault

/-- The fault as an outcome of reading. -/
def toFault (f : LexicalFault) : Fault := .lexical f.offset f.cause

/-- The fault that a further try to read the same piece meets. -/
def repeated (f : LexicalFault) : LexicalFault := { f with cause := f.again }

end LexicalFault

/-- The tokens of a statement, up to its end or up to its first lexical fault. -/
structure TokenStream where
  tokens : List Token
  failure : Option LexicalFault
deriving DecidableEq, Repr, Inhabited

namespace TokenStream

/-- What a token of this kind and text, followed by a gap of `gap` bytes, tells
about the next one. -/
def after (previous : Option Lexeme) (gap : Nat) : Lexeme.Before :=
  match previous with
  | none => { endsOperand := false, touchesWord := false }
  | some l =>
      { endsOperand := l.kind.endsOperand
        touchesWord := gap == 0 && (l.text.getLast?.map CharClass.isWordChar).getD false }

/-- The next step of reading. -/
inductive Step where
  /-- A token was read; `start` is where it starts. -/
  | token (start : Nat) (lexeme : Lexeme)
  | finished (offset : Nat)
  | failed (fault : LexicalFault)
deriving DecidableEq, Repr

/-- Reads the gap at `offset` and the token behind it. -/
def step (d : Dialect) (offset : Nat) (previous : Option Lexeme) (cs : List Char) : Step :=
  match Gap.skip d cs with
  | .unclosed skipped cause again => .failed ⟨offset + skipped, offset + skipped, cause, again⟩
  | .passed skipped [] => .finished (offset + skipped)
  | .passed skipped rest =>
      match Lexeme.read d (after previous skipped) rest with
      | .ok l => .token (offset + skipped) l
      | .error slip =>
          .failed ⟨offset + skipped, offset + skipped + slip.skip, slip.cause, slip.cause⟩

/-- The token that a lexeme at `start` is. -/
def tokenAt (start : Nat) (l : Lexeme) : Token :=
  ⟨l.kind, String.ofList l.text, ⟨start, start + Text.width l.text⟩⟩

/-- Reads the tokens of `cs`, at most `fuel` of them. -/
def readFrom (d : Dialect) : Nat → Nat → Option Lexeme → List Char → TokenStream
  | 0, offset, _, _ => ⟨[], some ⟨offset, offset, .unrecognized, .unrecognized⟩⟩
  | fuel + 1, offset, previous, cs =>
      match step d offset previous cs with
      | .finished stop => ⟨[⟨.endOfInput, "", ⟨stop, stop⟩⟩], none⟩
      | .failed fault => ⟨[], some fault⟩
      | .token start l =>
          let more := readFrom d fuel (start + Text.width l.text) (some l) l.rest
          { more with tokens := tokenAt start l :: more.tokens }

/-- The tokens of a statement. Every token takes at least one character, so
one more step than there are characters reaches the end. A statement whose
offsets do not fit into spans has no tokens. -/
def ofText (d : Dialect) (source : List Char) : TokenStream :=
  if Span.fits source then readFrom d (source.length + 1) 0 none source
  else ⟨[], some ⟨0, 0, .oversized, .oversized⟩⟩

end TokenStream

/-- All tokens of a statement, the last one being the end of the input. -/
def tokenize (d : Dialect) (source : String) : Except Error (List Token) :=
  let stream := TokenStream.ofText d source.toList
  match stream.failure with
  | none => .ok stream.tokens
  | some f => .error (Error.locate .lexical source.toList f.offset f.cause.detail)

end SqlMarkers
