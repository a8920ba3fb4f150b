/-
SqlMarkers.Token.Name — the name that a token stands for.

A name in back-quotes or brackets stands for what is between them, with each
doubled closing mark read as one. Any other text stands for itself.

Decoding looks between the first and the last byte of the text before it
looks at the marks, so a text of two bytes or more that starts or ends with
a character outside ASCII has no decoded name: `decode?` is `none`.
-/
import SqlMarkers.Token

namespace SqlMarkers.Token

/-- What stands between the first and the last byte of a text of at least two
bytes, if both cuts are character boundaries. -/
def inner? (text : List Char) : Option (List Char) :=
  Text.slice? 1 (Text.width text - 1) text

/-- The name that `text` stands for, if it can be decoded. -/
def decode? (text : List Char) : Option (List Char) :=
  if Text.width text < 2 then some text
  else
    (inner? text).map fun body =>
      if text.head? = some '\x60' ∧ text.getLast? = some '\x60' then Text.undoubling '\x60' body
      else if text.head? = some '[' ∧ text.getLast? = some ']' then Text.undoubling ']' body
      else text

/-- The name a token stands for, if it can be decoded. -/
def name? (t : Token) : Option String := (decode? t.text.toList).map String.ofList

/-- `name` written between back-quotes. -/
def backQuoted (name : List Char) : List Char :=
  '\x60' :: Text.doubling '\x60' name ++ ['\x60']

/-- `name` written between brackets. -/
def bracketed (name : List Char) : List Char :=
  '[' :: Text.doubling ']' name ++ [']']

end SqlMarkers.Token
