import Mathlib.Algebra.BigOperators.Fin

/-!
# Foundation - Counting the slots of a table

A table of slots is often summarised by counters.  This file counts the slots that
satisfy a predicate and says how the count changes when one slot is written.
-/

namespace ShadowMount.Foundation

variable {α β : Type*} {n : Nat}
variable {p : α → Bool} {f : Fin n → α}

/-- How many slots satisfy the predicate? -/
def countWhere (p : α → Bool) (f : Fin n → α) : Nat :=
  ∑ i, if p (f i) then 1 else 0

/-- Writing a slot changes the count by that slot only. -/
theorem countWhere_update (p : α → Bool) (f : Fin n → α) (i : Fin n) (a : α) :
    countWhere p (Function.update f i a) + (if p (f i) then 1 else 0) =
      countWhere p f + (if p a then 1 else 0) := by
  have hwrite : (fun j => if p (Function.update f i a j) then 1 else 0) =
      Function.update (fun j => if p (f j) then 1 else 0) i (if p a then 1 else 0) := by
    funext j
    by_cases hj : j = i
    · subst hj
      simp
    · simp [hj]
  have hsplit : (∑ j, if p (f j) then 1 else 0) =
      (if p (f i) then 1 else 0) + ∑ j ∈ Finset.univ \ {i}, if p (f j) then 1 else 0 := by
    rw [← Finset.sum_singleton (fun j => if p (f j) then 1 else 0) i, add_comm]
    exact (Finset.sum_sdiff (Finset.subset_univ {i})).symm
  unfold countWhere
  rw [hwrite, Finset.sum_update_of_mem (Finset.mem_univ i), hsplit]
  omega

theorem countWhere_eq_zero_iff : countWhere p f = 0 ↔ ∀ i, p (f i) = false := by
  simp [countWhere]

/-- The count is positive when there is one. -/
theorem countWhere_pos_iff : 0 < countWhere p f ↔ ∃ i, p (f i) = true := by
  rw [Nat.pos_iff_ne_zero, Ne, countWhere_eq_zero_iff]
  simp

/-- Families that agree have the same count. -/
theorem countWhere_congr {q : β → Bool} {g : Fin n → β} (h : ∀ i, p (f i) = q (g i)) :
    countWhere p f = countWhere q g := by
  simp only [countWhere, h]

/-- Slots that satisfy one of two predicates that exclude each other. -/
theorem countWhere_add {q r : α → Bool} (hor : ∀ a, r a = (p a || q a))
    (hexclusive : ∀ a, ¬(p a = true ∧ q a = true)) :
    countWhere r f = countWhere p f + countWhere q f := by
  simp only [countWhere, ← Finset.sum_add_distrib]
  refine Finset.sum_congr rfl (fun i _ => ?_)
  have hex := hexclusive (f i)
  rw [hor]
  cases hp : p (f i) <;> cases hq : q (f i) <;> simp_all

end ShadowMount.Foundation
