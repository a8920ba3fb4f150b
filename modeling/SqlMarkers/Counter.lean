/-
SqlMarkers.Counter — counting in 32 bits.

The count of `?`, and those of open parentheses and open `CASE` blocks, hold numbers up
to `Counter.limit`. A step that counts beyond it, or below zero, ends the reading with the
fault `overflow`, which no statement leads to.
-/
import SqlMarkers.Fault

namespace SqlMarkers.Counter

variable {σ : Type}

/-- The largest number that a counter holds. -/
def limit : Nat := 4294967295

/-- One more. -/
def up (n : Nat) : EStateM Fault σ Nat := if n < limit then pure (n + 1) else throw .overflow

/-- One less. -/
def down (n : Nat) : EStateM Fault σ Nat := if 0 < n then pure (n - 1) else throw .overflow

end SqlMarkers.Counter
