/-
SqlMarkers.Proofs.Makes — what readers make.

`Reader.Makes P m` says that whatever the reader makes has the property `P`, from wherever it
starts. Nothing is said about the reading behind it, and nothing about readers that fail.
-/
import SqlMarkers.Proofs.Trail.Step

namespace SqlMarkers

/-- What a round asks for meets `again` or `stop`. -/
def Round.All {α β : Type} (again : β → Prop) (stop : α → Prop) : Round β α → Prop
  | .again b => again b
  | .stop a => stop a

namespace Reader

variable {α β : Type}

/-- Whatever the reader makes has the property. -/
def Makes (P : α → Prop) (m : Reader α) : Prop := ∀ r a r', Yields m r a r' → P a

namespace Makes

variable {P : α → Prop} {Q : β → Prop} {m : Reader α} {f : α → Reader β}

theorem pure {a : α} (h : P a) : Makes P (Pure.pure a) := by
  intro r b r' hpure
  obtain ⟨rfl, -⟩ := yields_pure.1 hpure
  exact h

theorem bind (h : Makes P m) (hf : ∀ a, P a → Makes Q (f a)) : Makes Q (m >>= f) := by
  intro r b r' hbind
  obtain ⟨a, r₁, hm, hfa⟩ := yields_bind.1 hbind
  exact hf a (h r a r₁ hm) r₁ b r' hfa

/-- What the first step gives does not matter. -/
theorem after (hf : ∀ a, Makes Q (f a)) : Makes Q (m >>= f) := by
  intro r b r' hbind
  obtain ⟨a, r₁, -, hfa⟩ := yields_bind.1 hbind
  exact hf a r₁ b r' hfa

theorem failExpected {what : String} : Makes P (failExpected what) :=
  fun _ _ _ h => (yields_failExpected.1 h).elim

/-- What every round keeps holds of the result of a repetition. -/
theorem repeating {step : β → Reader (Round β α)} {b : β} (again : β → Prop) (hb : again b)
    (hstep : ∀ b, again b → Makes (Round.All again P) (step b)) : Makes P (repeating step b) := by
  intro r a r' h
  refine repeatStep_yields (fun b _ => again b) (fun a _ => P a) ?_ hb h
  intro b r round r' hb hround
  have hall := hstep b hb r round r' hround
  cases round <;> exact hall

/-- A list with commas has an entry, and each entry was read. -/
theorem commaSeparated {entry : Reader α} (h : Makes P entry) :
    Makes (fun as => as ≠ [] ∧ ∀ a ∈ as, P a) (commaSeparated entry) := by
  refine repeating (fun done => ∀ a ∈ done, P a) (by simp) fun done hdone => ?_
  refine bind h fun a ha => after fun more => ?_
  have hall : ∀ a' ∈ done ++ [a], P a' := by
    intro a' ha'
    rcases List.mem_append.1 ha' with ha' | ha'
    · exact hdone a' ha'
    · rwa [List.mem_singleton.1 ha']
  split
  · exact pure hall
  · exact pure ⟨by simp, hall⟩

theorem nested {env : Setting} (h : Makes P m) : Makes P (nested env m) := by
  intro r a r' hnested
  obtain ⟨r₁, hbody, -⟩ := nested_yields hnested
  exact h _ a r₁ hbody

/-- Nothing is said about the entry. -/
theorem any : Makes (fun _ => True) m := fun _ _ _ _ => trivial

end Makes

end Reader

end SqlMarkers
