/-
SqlMarkers.Token.Value — the values that literal tokens stand for.

* Integers are decimal or hexadecimal with an optional sign, and lie in the
  range of 64-bit signed integers.
* Floats are decimals with an optional fraction and exponent, or the words
  for infinity and not-a-number; a trailing `f` or `d` is dropped first.
* Strings lose their quotes; a doubled quote stands for one, and a backslash
  escapes the next character where the dialect says so.
-/
import SqlMarkers.Binary64
import SqlMarkers.CharClass
import SqlMarkers.Token

namespace SqlMarkers.Token

/-! ## Integers -/

/-- The value of a hexadecimal or decimal digit. -/
def digitValue (c : Char) : Nat :=
  if c.isDigit then c.toNat - 0x30
  else if 0x61 ≤ c.toNat then c.toNat - 0x61 + 10
  else c.toNat - 0x41 + 10

/-- The number that `ds` spells in the given base, continuing from `acc`. -/
def digitsValue (base : Nat) (ds : List Char) (acc : Nat) : Nat :=
  ds.foldl (fun n c => n * base + digitValue c) acc

/-- The number that `ds` spells, if it is one or more digits of the base. -/
def digits? (base : Nat) (ds : List Char) : Option Nat :=
  let isDigit := if base = 16 then CharClass.isHexDigit else CharClass.isDigit
  if ds ≠ [] ∧ ds.all isDigit then some (digitsValue base ds 0) else none

/-- The least 64-bit integer. -/
def least64 : Int := -9223372036854775808

/-- The greatest 64-bit integer. -/
def greatest64 : Int := 9223372036854775807

/-- `v` if it fits 64 bits. -/
def within64? (v : Int) : Option Int :=
  if least64 ≤ v ∧ v ≤ greatest64 then some v else none

/-- A sign, if there is one, and the digits after it. -/
def signed? (base : Nat) : List Char → Option Int
  | '+' :: ds => (digits? base ds).map (fun n => (n : Int))
  | '-' :: ds => (digits? base ds).map (fun n => -(n : Int))
  | ds => (digits? base ds).map (fun n => (n : Int))

/-- The value of a decimal integer. -/
def decimal? (text : List Char) : Option Int := (signed? 10 text).bind within64?

/-- The negation of a 64-bit integer. The least one has no other and stays. -/
def negate64 (v : Int) : Int := if v = least64 then v else -v

/-- The value of hexadecimal digits. A `-` in front negates what follows it. -/
def hexDigits? : List Char → Option Int
  | '-' :: ds => ((signed? 16 ds).bind within64?).map negate64
  | ds => (signed? 16 ds).bind within64?

/-- The value of a hexadecimal integer, whose first two bytes are dropped. -/
def hexadecimal? (text : List Char) : Option Int := (Text.dropWidth? 2 text).bind hexDigits?

/-- The value of an integer token. -/
def integer? (t : Token) : Option Int :=
  match t.kind with
  | .integer => decimal? t.text.toList
  | .hex => hexadecimal? t.text.toList
  | _ => none

/-! ## Floats -/

/-- Whether `c` is a float suffix. -/
def isFloatSuffix (c : Char) : Bool := c == 'f' || c == 'F' || c == 'd' || c == 'D'

/-- The exponent part `e[+-]digits`; nothing at all is exponent zero. -/
def exponent? : List Char → Option Int
  | [] => some 0
  | c :: cs => if c == 'e' || c == 'E' then signed? 10 cs else none

/-- A decimal without sign: digits on at least one side of an optional point,
then an optional exponent. -/
def unsignedFloat? (negative : Bool) (cs : List Char) : Option Binary64 :=
  let whole := cs.takeWhile CharClass.isDigit
  let rest := cs.dropWhile CharClass.isDigit
  let (fraction, rest) :=
    match rest with
    | '.' :: rest => (rest.takeWhile CharClass.isDigit, rest.dropWhile CharClass.isDigit)
    | rest => ([], rest)
  if whole = [] ∧ fraction = [] then none
  else
    (exponent? rest).map fun e =>
      Binary64.nearest negative (digitsValue 10 (whole ++ fraction) 0) (e - fraction.length)

/-- A decimal without sign, or one of the words `inf`, `infinity` and `nan`. -/
def floatBody? (negative : Bool) (cs : List Char) : Option Binary64 :=
  let word := cs.map Char.toLower
  if word = "inf".toList ∨ word = "infinity".toList then
    some (Binary64.ofParts negative Binary64.infinity)
  else if word = "nan".toList then
    some (Binary64.ofParts negative (Binary64.infinity + Binary64.twoPow 51))
  else unsignedFloat? negative cs

/-- The value of a float text without suffix. -/
def float? : List Char → Option Binary64
  | '+' :: cs => floatBody? false cs
  | '-' :: cs => floatBody? true cs
  | cs => floatBody? false cs

/-- The value of a float token. -/
def real? (t : Token) : Option Binary64 :=
  if t.kind = .float then
    float? (t.text.toList.reverse.dropWhile isFloatSuffix).reverse
  else none

/-! ## Strings -/

/-- The character that a backslash before `c` stands for. -/
def escaped (c : Char) : Char :=
  if c = 'n' then '\n' else if c = 't' then '\t' else if c = 'r' then '\r'
  else if c = '0' then '\x00' else if c = 'b' then '\x08' else if c = 'Z' then '\x1a' else c

/-- Decodes what stands between the quotes. -/
def decodeBody (quote : Char) (escapes : Bool) : List Char → List Char
  | [] => []
  | [c] => [c]
  | c :: d :: cs =>
      if c = quote ∧ d = quote then quote :: decodeBody quote escapes cs
      else if c = '\\' ∧ escapes = true then escaped d :: decodeBody quote escapes cs
      else c :: decodeBody quote escapes (d :: cs)

/-- The value of a string: an `N` in front is dropped, the first character is
the quote, and the text between the first and the last byte is decoded. -/
def decodeChars (escapes : Bool) (text : List Char) : List Char :=
  let body := if text.head? = some 'N' ∨ text.head? = some 'n' then text.tail else text
  match body with
  | [] => []
  | quote :: _ =>
      decodeBody quote escapes ((Text.slice? 1 (max (Text.width body - 1) 1) body).getD [])

/-- The value of a string token. -/
def chars? (t : Token) (escapes : Bool) : Option String :=
  if t.kind = .chars then some (String.ofList (decodeChars escapes t.text.toList)) else none

/-- `value` written between quotes: the quote is doubled, and so is every
backslash where a backslash escapes. -/
def quoted (quote : Char) (escapes : Bool) (value : List Char) : List Char :=
  let body := if escapes then Text.doubling '\\' value else value
  quote :: Text.doubling quote body ++ [quote]

end SqlMarkers.Token
