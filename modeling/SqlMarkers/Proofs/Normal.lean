/-
SqlMarkers.Proofs.Normal — what normalizing does to markers.

`Marker.le` orders markers by start first, so a sorted list of markers ascends
by start, and keeping one marker for each start makes it ascend strictly
(`Marker.pairwise_normalize`). Markers with different starts are only put in
order (`Marker.perm_normalize`).
-/
import SqlMarkers.Marker

namespace SqlMarkers

/-! ## Dropping repetitions -/

namespace Ordered

variable {α : Type} {key : α → Nat}

/-- In a list that ascends by `key`, what is kept ascends strictly. -/
theorem pairwise_distinctFrom {a : α} {bs : List α}
    (h : (a :: bs).Pairwise fun x y => key x ≤ key y) :
    (∀ x ∈ distinctFrom (fun x y => key x == key y) a bs, key a ≤ key x) ∧
      (distinctFrom (fun x y => key x == key y) a bs).Pairwise fun x y => key x < key y := by
  induction bs generalizing a with
  | nil => simp [distinctFrom]
  | cons b bs ih =>
      obtain ⟨ha, hbs⟩ := List.pairwise_cons.1 h
      have hab := ha b List.mem_cons_self
      rw [distinctFrom]
      split
      · refine ih (List.pairwise_cons.2 ⟨fun x hx => ?_, (List.pairwise_cons.1 hbs).2⟩)
        exact ha x (List.mem_cons_of_mem b hx)
      · rename_i hne
        have hlt : key a < key b := by
          simp only [beq_iff_eq] at hne
          omega
        obtain ⟨hle, hpair⟩ := ih hbs
        refine ⟨fun x hx => ?_, List.pairwise_cons.2 ⟨fun x hx => ?_, hpair⟩⟩
        · rcases List.mem_cons.1 hx with rfl | hx
          · exact Nat.le_refl _
          · exact Nat.le_trans hab (hle x hx)
        · exact Nat.lt_of_lt_of_le hlt (hle x hx)

theorem pairwise_distinct {as : List α} (h : as.Pairwise fun x y => key x ≤ key y) :
    (distinct (fun x y => key x == key y) as).Pairwise fun x y => key x < key y := by
  cases as with
  | nil => exact .nil
  | cons a as => exact (pairwise_distinctFrom h).2

/-- Nothing is dropped where no entry repeats the one before it. -/
theorem distinct_eq_self {as : List α} (h : (as.map key).Nodup) :
    distinct (fun x y => key x == key y) as = as := by
  cases as with
  | nil => rfl
  | cons a as =>
      show distinctFrom _ a as = a :: as
      induction as generalizing a with
      | nil => rfl
      | cons b bs ih =>
          obtain ⟨ha, hbs⟩ := List.nodup_cons.1 h
          have hab : key a ≠ key b := fun heq => ha (heq ▸ List.mem_cons_self)
          rw [distinctFrom, if_neg (by simpa using hab), ih b hbs]

end Ordered

/-! ## Markers in order -/

namespace Marker

theorem le_total (a b : Marker) : le a b || le b a := by
  unfold le
  have htable := String.le_total a.table b.table
  have hliteral := String.le_total a.literal b.literal
  grind

theorem le_trans (a b c : Marker) (hab : le a b) (hbc : le b c) : le a c := by
  unfold le at *
  have htable := String.le_trans (a := a.table) (b := b.table) (c := c.table)
  have hliteral := String.le_trans (a := a.literal) (b := b.literal) (c := c.literal)
  have hanti := String.le_antisymm (a := a.literal) (b := b.literal)
  grind

theorem start_le_of_le {a b : Marker} (h : le a b) : a.start ≤ b.start := by
  unfold le at h
  grind

/-- Normalized markers ascend strictly by start. -/
theorem pairwise_normalize (ms : List Marker) :
    (normalize ms).Pairwise fun a b => a.start < b.start := by
  refine Ordered.pairwise_distinct ?_
  refine (Ordered.pairwise_sort le_total le_trans ms).imp ?_
  exact start_le_of_le

/-- Markers with different starts all stay. -/
theorem perm_normalize {ms : List Marker} (h : (ms.map Marker.start).Nodup) :
    (normalize ms).Perm ms := by
  have hsort := Ordered.perm_sort le ms
  unfold normalize
  rw [Ordered.distinct_eq_self ((hsort.map Marker.start).nodup_iff.2 h)]
  exact hsort

end Marker

end SqlMarkers
