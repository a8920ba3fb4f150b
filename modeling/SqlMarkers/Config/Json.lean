/-
SqlMarkers.Config.Json — strict JSON.

The reader accepts exactly the JSON grammar. Numbers are kept as they are
written. A string whose escapes leave half of a surrogate pair over is well
formed but stands for no text, so a string value is optional.
-/
namespace SqlMarkers

/-- A JSON value. -/
inductive Json where
  | null
  | bool (value : Bool)
  /-- A number, as it is written. -/
  | number (text : List Char)
  /-- A string; `none` if it stands for no text. -/
  | string (value : Option String)
  | array (elements : List Json)
  /-- An object, with all its members in order. -/
  | object (members : List (Option String × Json))
deriving Inhabited

namespace Json

/-- Whether `c` may stand between the parts of a document. -/
def isGap (c : Char) : Bool := c == ' ' || c == '\n' || c == '\t' || c == '\r'

/-- A document without the gap in front. -/
def skipGap (cs : List Char) : List Char := cs.dropWhile isGap

/-! ## Strings -/

/-- A part of a string: a character, or a code unit written as an escape. -/
inductive Piece where
  | char (c : Char)
  | unit (code : Nat)

/-- The value of a hexadecimal digit. -/
def hexDigit? (c : Char) : Option Nat :=
  if c.isDigit then some (c.toNat - 0x30)
  else if 0x61 ≤ c.toNat ∧ c.toNat ≤ 0x66 then some (c.toNat - 0x61 + 10)
  else if 0x41 ≤ c.toNat ∧ c.toNat ≤ 0x46 then some (c.toNat - 0x41 + 10)
  else none

/-- The value of four hexadecimal digits. -/
def hexUnit? (a b c d : Char) : Option Nat := do
  return (((← hexDigit? a) * 16 + (← hexDigit? b)) * 16 + (← hexDigit? c)) * 16 + (← hexDigit? d)

/-- The character that a backslash before `c` stands for. -/
def shortEscape? (c : Char) : Option Char :=
  if c = '\x22' ∨ c = '\\' ∨ c = '/' then some c
  else if c = 'b' then some '\x08' else if c = 'f' then some '\x0c'
  else if c = 'n' then some '\n' else if c = 'r' then some '\r'
  else if c = 't' then some '\t' else none

/-- The pieces of a string up to its closing quote, and what follows it. -/
def pieces? : List Char → Option (List Piece × List Char)
  | [] => none
  | '\\' :: 'u' :: a :: b :: c :: d :: cs => do
      let code ← hexUnit? a b c d
      let (ps, rest) ← pieces? cs
      return (.unit code :: ps, rest)
  | '\\' :: e :: cs => do
      let c ← shortEscape? e
      let (ps, rest) ← pieces? cs
      return (.char c :: ps, rest)
  | c :: cs =>
      if c = '\x22' then some ([], cs)
      else if c = '\\' ∨ c.toNat < 0x20 then none
      else do
        let (ps, rest) ← pieces? cs
        return (.char c :: ps, rest)

/-- The text that pieces stand for: a high and a low surrogate make one
character, and neither may stand alone. -/
def assemble? : List Piece → Option (List Char)
  | [] => some []
  | .char c :: ps => (assemble? ps).map (c :: ·)
  | [.unit n] => if 0xD800 ≤ n ∧ n ≤ 0xDFFF then none else some [Char.ofNat n]
  | .unit n :: .unit m :: ps =>
      if 0xD800 ≤ n ∧ n ≤ 0xDBFF then
        if 0xDC00 ≤ m ∧ m ≤ 0xDFFF then
          (assemble? ps).map (Char.ofNat (0x10000 + (n - 0xD800) * 0x400 + (m - 0xDC00)) :: ·)
        else none
      else if 0xDC00 ≤ n ∧ n ≤ 0xDFFF then none
      else (assemble? (.unit m :: ps)).map (Char.ofNat n :: ·)
  | .unit n :: ps =>
      if 0xD800 ≤ n ∧ n ≤ 0xDFFF then none else (assemble? ps).map (Char.ofNat n :: ·)

/-- The value of a string behind its opening quote, and what follows it. -/
def string? (cs : List Char) : Option (Option String × List Char) :=
  (pieces? cs).map fun (ps, rest) => ((assemble? ps).map String.ofList, rest)

/-! ## Numbers -/

/-- One or more digits in front of `cs`, and what follows them. -/
def digits? (cs : List Char) : Option (List Char × List Char) :=
  let ds := cs.takeWhile Char.isDigit
  if ds.isEmpty then none else some (ds, cs.dropWhile Char.isDigit)

/-- An optional fraction and what follows it. -/
def fraction? : List Char → Option (List Char × List Char)
  | '.' :: cs => (digits? cs).map fun (ds, rest) => ('.' :: ds, rest)
  | cs => some ([], cs)

/-- An optional exponent and what follows it. -/
def exponent? : List Char → Option (List Char × List Char)
  | [] => some ([], [])
  | e :: cs =>
      if e = 'e' ∨ e = 'E' then
        match cs with
        | '+' :: cs => (digits? cs).map fun (ds, rest) => (e :: '+' :: ds, rest)
        | '-' :: cs => (digits? cs).map fun (ds, rest) => (e :: '-' :: ds, rest)
        | cs => (digits? cs).map fun (ds, rest) => (e :: ds, rest)
      else some ([], e :: cs)

/-- A number, and what follows it. -/
def number? (cs : List Char) : Option (List Char × List Char) := do
  let sign := if cs.head? = some '-' then ['-'] else []
  let (whole, cs) ← digits? (cs.drop sign.length)
  if whole.head? = some '0' ∧ whole.length ≠ 1 then none
  let (frac, cs) ← fraction? cs
  let (expo, cs) ← exponent? cs
  return (sign ++ whole ++ frac ++ expo, cs)

/-! ## Values -/

/-- `cs` behind the word `word`, if that stands in front. -/
def afterWord? (word : String) (cs : List Char) : Option (List Char) :=
  if word.toList.isPrefixOf cs then some (cs.drop word.length) else none

mutual

/-- A value and what follows it. -/
def value? : Nat → List Char → Option (Json × List Char)
  | 0, _ => none
  | fuel + 1, cs =>
      match skipGap cs with
      | [] => none
      | c :: cs =>
          if c = '\x22' then (string? cs).map fun (s, rest) => (.string s, rest)
          else if c = '[' then
            match skipGap cs with
            | ']' :: rest => some (.array [], rest)
            | rest => (elements? fuel rest).map fun (vs, rest) => (.array vs, rest)
          else if c = '\x7b' then
            match skipGap cs with
            | '\x7d' :: rest => some (.object [], rest)
            | rest => (members? fuel rest).map fun (ms, rest) => (.object ms, rest)
          else if c = 'n' then (afterWord? "ull" cs).map fun rest => (.null, rest)
          else if c = 't' then (afterWord? "rue" cs).map fun rest => (.bool true, rest)
          else if c = 'f' then (afterWord? "alse" cs).map fun rest => (.bool false, rest)
          else (number? (c :: cs)).map fun (text, rest) => (.number text, rest)

/-- The elements of an array up to its closing bracket. -/
def elements? : Nat → List Char → Option (List Json × List Char)
  | 0, _ => none
  | fuel + 1, cs => do
      let (v, cs) ← value? fuel cs
      match skipGap cs with
      | ',' :: cs =>
          let (vs, rest) ← elements? fuel cs
          return (v :: vs, rest)
      | ']' :: rest => return ([v], rest)
      | _ => none

/-- The members of an object up to its closing brace. -/
def members? : Nat → List Char → Option (List (Option String × Json) × List Char)
  | 0, _ => none
  | fuel + 1, cs => do
      let .cons '\x22' cs := skipGap cs | none
      let (key, cs) ← string? cs
      let .cons ':' cs := skipGap cs | none
      let (v, cs) ← value? fuel cs
      match skipGap cs with
      | ',' :: cs =>
          let (ms, rest) ← members? fuel cs
          return ((key, v) :: ms, rest)
      | '\x7d' :: rest => return ([(key, v)], rest)
      | _ => none

end

/-- The value of a whole document. Every value takes a character, so twice as
many steps as there are characters are enough. -/
def parse? (cs : List Char) : Option Json :=
  match value? (2 * cs.length + 1) cs with
  | some (v, rest) => if skipGap rest = [] then some v else none
  | none => none

end Json

end SqlMarkers
