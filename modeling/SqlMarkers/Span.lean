/-
SqlMarkers.Span — half-open byte ranges of a statement.

Offsets are at most `Span.limit`; a range built from larger numbers stops
there, and a statement with larger offsets is refused (`Span.fits`).
-/
import SqlMarkers.Text

namespace SqlMarkers

/-- The bytes from `start` up to but not including `stop`. -/
structure Span where
  start : Nat
  stop : Nat
deriving DecidableEq, Repr, Inhabited

namespace Span

/-- The largest offset a span can hold. -/
def limit : Nat := 4294967295

/-- Whether every offset of a text fits into a span. -/
def fits (source : List Char) : Bool :=
  decide (source.foldl (fun n c => n + c.utf8Size) 0 ≤ limit)

/-- The span of nodes that come from no text. -/
def zero : Span := ⟨0, 0⟩

/-- A span from any two numbers, each cut down to `limit`. -/
def clamped (start stop : Nat) : Span := ⟨min start limit, min stop limit⟩

/-- Whether two spans share a byte. -/
def overlaps (a b : Span) : Bool :=
  decide (a.start < b.stop) && decide (b.start < a.stop)

/-- Order by start, then by stop. -/
def before (a b : Span) : Bool :=
  decide (a.start < b.start) || (decide (a.start = b.start) && decide (a.stop < b.stop))

/-- The text a span covers, if both ends are character boundaries of it. -/
def slice? (s : Span) (source : List Char) : Option (List Char) :=
  Text.slice? s.start s.stop source

/-- Both ends, as `start..stop`. -/
def render (s : Span) : String :=
  toString s.start ++ ".." ++ toString s.stop

end Span

end SqlMarkers
