/-
SqlMarkers.Ordered — lists in order, each entry once.

`sort` puts a list in the order of a Boolean relation and keeps entries of
equal rank in the order they came in. `distinct` drops every entry that
equals the one kept before it, so in a sorted list the first entry of each
rank stays.

Both are plain recursions on the list. Sorting loses nothing
(`perm_sort`) and gives an ordered list whenever the relation is total and
transitive (`pairwise_sort`).
-/
namespace SqlMarkers.Ordered

variable {α : Type}

/-! ## Sorting -/

/-- Puts `a` in front of the first entry that may follow it. -/
def insert (le : α → α → Bool) (a : α) : List α → List α
  | [] => [a]
  | b :: bs => if le a b then a :: b :: bs else b :: insert le a bs

/-- The entries of a list in order. -/
def sort (le : α → α → Bool) : List α → List α
  | [] => []
  | a :: as => insert le a (sort le as)

theorem perm_insert (le : α → α → Bool) (a : α) (bs : List α) :
    (insert le a bs).Perm (a :: bs) := by
  induction bs with
  | nil => exact .refl _
  | cons b bs ih =>
      rw [insert]
      split
      · exact .refl _
      · exact (ih.cons b).trans (.swap a b bs)

/-- Sorting keeps every entry. -/
theorem perm_sort (le : α → α → Bool) (as : List α) : (sort le as).Perm as := by
  induction as with
  | nil => exact .refl _
  | cons a as ih => exact (perm_insert le a _).trans (ih.cons a)

theorem pairwise_insert {le : α → α → Bool} (total : ∀ a b, le a b || le b a)
    (trans : ∀ a b c, le a b → le b c → le a c) {a : α} {bs : List α}
    (h : bs.Pairwise fun x y => le x y) : (insert le a bs).Pairwise fun x y => le x y := by
  induction bs with
  | nil => simp [insert]
  | cons b bs ih =>
      obtain ⟨hb, hbs⟩ := List.pairwise_cons.1 h
      rw [insert]
      split
      · rename_i hab
        refine List.pairwise_cons.2 ⟨fun c hc => ?_, h⟩
        rcases List.mem_cons.1 hc with rfl | hc
        · exact hab
        · exact trans a b c hab (hb c hc)
      · rename_i hab
        have hba : le b a := by have := total a b; simp_all
        refine List.pairwise_cons.2 ⟨fun c hc => ?_, ih hbs⟩
        rcases List.mem_cons.1 ((perm_insert le a bs).mem_iff.1 hc) with rfl | hc
        · exact hba
        · exact hb c hc

/-- A sorted list is in order. -/
theorem pairwise_sort {le : α → α → Bool} (total : ∀ a b, le a b || le b a)
    (trans : ∀ a b c, le a b → le b c → le a c) (as : List α) :
    (sort le as).Pairwise fun x y => le x y := by
  induction as with
  | nil => exact .nil
  | cons a as ih => exact pairwise_insert total trans ih

/-! ## Dropping repetitions -/

/-- `a` and what follows it, without the entries that equal the one kept
before them. -/
def distinctFrom (same : α → α → Bool) (a : α) : List α → List α
  | [] => [a]
  | b :: bs => if same a b then distinctFrom same a bs else a :: distinctFrom same b bs

/-- A list without the entries that equal the one kept before them. -/
def distinct (same : α → α → Bool) : List α → List α
  | [] => []
  | a :: as => distinctFrom same a as

end SqlMarkers.Ordered
