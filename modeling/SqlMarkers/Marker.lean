/-
SqlMarkers.Marker — the places of a statement that name a sharded table.

A marker holds the text as written, its start, and the logical table it
stands for. `Marker.normalize` puts markers in order of their start and
keeps one for each start.
-/
import SqlMarkers.Ordered
import SqlMarkers.Span

namespace SqlMarkers

/-- A piece of a statement that names a sharded table. -/
structure Marker where
  start : Nat
  /-- The text as written, quotes included. -/
  literal : String
  /-- The logical table; differs from the literal for an alias. -/
  table : String
deriving DecidableEq, Repr, Inhabited

namespace Marker

/-- The bytes of the literal. -/
def span (m : Marker) : Span :=
  ⟨m.start, min (m.start + Text.width m.literal.toList) Span.limit⟩

/-- Order by start, then literal, then table. -/
def le (a b : Marker) : Bool :=
  if a.start = b.start then
    if a.literal = b.literal then decide (a.table ≤ b.table) else decide (a.literal ≤ b.literal)
  else decide (a.start ≤ b.start)

/-- Sorts markers and keeps the first of each start. -/
def normalize (ms : List Marker) : List Marker :=
  Ordered.distinct (fun a b => a.start == b.start) (Ordered.sort le ms)

end Marker

end SqlMarkers
