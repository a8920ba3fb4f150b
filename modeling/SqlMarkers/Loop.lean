/-
SqlMarkers.Loop — repetition with a bound taken from the state.

A reading step works on a state and ends with a result or a fault; in both
cases the state it reached is kept (`EStateM`). `repeatStep` runs such a step
until it asks to stop. A round that asks for another one has to make a measure
of the state smaller; where it does not, the repetition ends in a fault, so it
is total.
-/
namespace SqlMarkers

/-- What a step of a repetition asks for. -/
inductive Round (β α : Type) where
  | again (next : β)
  | stop (result : α)
deriving Repr

namespace Round

variable {ε σ β α : Type}

/-- Runs `step` until it stops, at most `fuel` times. A round that asks for another
one without making `size` smaller ends in the fault `stuck`, and so does running out. -/
def run (size : σ → Nat) (stuck : ε) (step : β → EStateM ε σ (Round β α)) :
    Nat → β → EStateM ε σ α
  | 0, _ => throw stuck
  | fuel + 1, b => do
      let before := size (← get)
      match ← step b with
      | .again next =>
          if size (← get) < before then run size stuck step fuel next else throw stuck
      | .stop result => pure result

end Round

/-- Runs `step`, starting with `b`, until it stops. As every round but the last makes
`size` smaller, one more round than `size` at the start is enough. -/
def repeatStep {ε σ β α : Type} (size : σ → Nat) (stuck : ε)
    (step : β → EStateM ε σ (Round β α)) (b : β) : EStateM ε σ α := do
  Round.run size stuck step (size (← get) + 1) b

end SqlMarkers
