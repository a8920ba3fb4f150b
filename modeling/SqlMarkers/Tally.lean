/-
SqlMarkers.Tally — counts of parsed and refused statements.
-/
import SqlMarkers.Parsed

namespace SqlMarkers

/-- Counts over a sequence of parses. -/
structure Tally where
  parsed : Nat := 0
  lexicalErrors : Nat := 0
  grammarErrors : Nat := 0
  markers : Nat := 0
deriving DecidableEq, Repr, Inhabited

namespace Tally

/-- Counts the outcome of a parse. A name without decoded form counts nowhere. -/
def record (t : Tally) : Except Failure Parsed → Tally
  | .ok p => { t with parsed := t.parsed + 1, markers := t.markers + p.markers.length }
  | .error (.error e) =>
      match e.kind with
      | .lexical => { t with lexicalErrors := t.lexicalErrors + 1 }
      | .grammar => { t with grammarErrors := t.grammarErrors + 1 }
  | .error .undecodable => t

end Tally

end SqlMarkers
