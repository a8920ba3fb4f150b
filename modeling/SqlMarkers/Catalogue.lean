/-
SqlMarkers.Catalogue — which names are names of sharded tables.

A catalogue is any decision on names. Two are given here: one accepts every
name, the other a set of names, compared without regard to the case of ASCII
letters.
-/
import SqlMarkers.Text

namespace SqlMarkers

/-- A set of table names. -/
structure TableNames where
  /-- The names in lower case, each once. -/
  names : List String
deriving DecidableEq, Repr, Inhabited

namespace TableNames

/-- The set without names. -/
def empty : TableNames := ⟨[]⟩

/-- Whether `name` is in the set, in any case. -/
def contains (t : TableNames) (name : String) : Bool := t.names.contains (Text.folded name)

/-- The set with `name` in it. -/
def insert (t : TableNames) (name : String) : TableNames :=
  if t.contains name then t else ⟨t.names ++ [Text.folded name]⟩

/-- The set of the given names. -/
def ofList (names : List String) : TableNames := names.foldl insert empty

/-- The number of names that differ in more than case. -/
def size (t : TableNames) : Nat := t.names.length

end TableNames

/-- Decides which names are names of sharded tables. -/
structure Catalogue where
  /-- Whether `name` is accepted as a table. -/
  accepts (name : String) : Bool

namespace Catalogue

/-- The catalogue that accepts every name. -/
def everyName : Catalogue := ⟨fun _ => true⟩

/-- The catalogue of a set of names. -/
def known (tables : TableNames) : Catalogue := ⟨tables.contains⟩

end Catalogue

end SqlMarkers
