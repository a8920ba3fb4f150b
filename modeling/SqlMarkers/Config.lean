/-
SqlMarkers.Config — the configuration of a parser, and its JSON form.

A configuration is an object with the members `dialect` and
`max_nesting_depth`, each optional and given once at most, or an array of
those two values in this order, of which the last may be missing. Other
members are ignored. A dialect is its name, or an object with that name as
its one member and the value `null`; a depth is an integer from 0 to
2 ^ 64 - 1, written without fraction and exponent.
-/
import SqlMarkers.Config.Json
import SqlMarkers.Dialect

namespace SqlMarkers

/-- The configuration of a parser. -/
structure Config where
  dialect : Dialect := .standard
  /-- How deep statements, groups and signs may be nested. -/
  maxDepth : Nat := 64
deriving DecidableEq, Repr, Inhabited

namespace Config

/-- The dialect that a JSON value names. -/
def dialectOf? : Json → Option Dialect
  | .string (some name) => Dialect.ofName? name
  | .object [(some name, .null)] => Dialect.ofName? name
  | _ => none

/-- The greatest nesting depth. -/
def greatestDepth : Nat := 18446744073709551615

/-- The nesting depth that a JSON value gives. -/
def depthOf? : Json → Option Nat
  | .number digits =>
      if digits.all Char.isDigit then
        let n := Nat.ofDigitChars 10 digits 0
        if n ≤ greatestDepth then some n else none
      else none
  | _ => none

/-- The single value of a member, `none` if it is missing; fails if the member
is given twice. -/
def single? (name : String) (members : List (Option String × Json)) : Option (Option Json) :=
  match members.filter fun m => m.1 == some name with
  | [] => some none
  | [(_, v)] => some (some v)
  | _ => none

/-- A configuration from two optional values. -/
def ofValues? (dialect depth : Option Json) : Option Config := do
  let d ← match dialect with
    | some v => dialectOf? v
    | none => some .standard
  let n ← match depth with
    | some v => depthOf? v
    | none => some 64
  return { dialect := d, maxDepth := n }

/-- The configuration that a JSON value describes. -/
def ofJson? : Json → Option Config
  | .object members =>
      -- A member name that is no text cannot be told from another one.
      if members.all fun m => m.1.isSome then do
        let dialect ← single? "dialect" members
        let depth ← single? "max_nesting_depth" members
        ofValues? dialect depth
      else none
  | .array [] => ofValues? none none
  | .array [dialect] => ofValues? (some dialect) none
  | .array [dialect, depth] => ofValues? (some dialect) (some depth)
  | _ => none

/-- Reads a configuration from its JSON text. -/
def parse? (text : String) : Option Config := (Json.parse? text.toList).bind ofJson?

/-- The JSON text of a configuration. -/
def render (c : Config) : String :=
  "\x7b\x22dialect\x22:\x22" ++ c.dialect.name ++ "\x22,\x22max_nesting_depth\x22:" ++
    toString c.maxDepth ++ "\x7d"

end Config

end SqlMarkers
