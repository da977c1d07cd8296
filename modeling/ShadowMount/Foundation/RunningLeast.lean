import Mathlib.Data.List.Induction
import Mathlib.Order.Bounds.Basic

/-!
# The least accepted element

A search that walks over a list and keeps the least element accepted so far.  It looks at the
order before it asks whether an element is accepted, so that an element that would not be kept is
never asked about.
-/

namespace ShadowMount.Foundation

variable {α : Type} [LinearOrder α]

/-- One turn of the search. -/
def keepLeast (accept : α → Bool) (best : Option α) (x : α) : Option α :=
  if best.any (· ≤ x) then best
  else if accept x then some x
  else best

/-- The whole search. -/
def leastAccepted (accept : α → Bool) (xs : List α) : Option α :=
  xs.foldl (keepLeast accept) none

variable {accept : α → Bool} {xs ys : List α} {best m : α}

@[simp]
theorem leastAccepted_nil : leastAccepted accept [] = none :=
  rfl

@[simp]
theorem leastAccepted_concat (x : α) :
    leastAccepted accept (xs ++ [x]) = keepLeast accept (leastAccepted accept xs) x := by
  simp [leastAccepted]

theorem keepLeast_none (x : α) : keepLeast accept none x = if accept x then some x else none :=
  rfl

theorem keepLeast_of_le {x : α} (h : best ≤ x) : keepLeast accept (some best) x = some best := by
  simp [keepLeast, h]

theorem keepLeast_of_lt {x : α} (h : x < best) :
    keepLeast accept (some best) x = if accept x then some x else some best := by
  simp [keepLeast, h]

/-- The loop keeps nothing when nothing is accepted. -/
theorem leastAccepted_eq_none_iff :
    leastAccepted accept xs = none ↔ ∀ x ∈ xs, accept x = false := by
  induction xs using List.reverseRecOn with
  | nil => simp
  | append_singleton xs x ih =>
    simp only [leastAccepted_concat, List.mem_append, List.mem_singleton, or_imp, forall_and,
      forall_eq]
    rw [← ih]
    cases hbest : leastAccepted accept xs with
    | none => simp [keepLeast_none]
    | some best =>
      rcases le_or_gt best x with hle | hlt
      · simp [keepLeast_of_le hle]
      · rw [keepLeast_of_lt hlt]
        split <;> simp

/-- What the loop keeps is the least accepted element. -/
theorem isLeast_of_leastAccepted (h : leastAccepted accept xs = some m) :
    IsLeast {x | x ∈ xs ∧ accept x = true} m := by
  induction xs using List.reverseRecOn generalizing m with
  | nil => simp at h
  | append_singleton xs x ih =>
    rw [leastAccepted_concat] at h
    cases hbest : leastAccepted accept xs with
    | none =>
      rw [hbest, keepLeast_none] at h
      split at h
      next haccept =>
        cases h
        refine ⟨⟨by simp, haccept⟩, fun y hy => ?_⟩
        rcases List.mem_append.mp hy.1 with hmem | hmem
        · have hrefused := leastAccepted_eq_none_iff.mp hbest y hmem
          rw [hy.2] at hrefused
          cases hrefused
        · exact le_of_eq (List.mem_singleton.mp hmem).symm
      next => cases h
    | some best =>
      obtain ⟨⟨hmem, hbestAccept⟩, hleast⟩ := ih hbest
      rw [hbest] at h
      have hkept : ∀ n, n ≤ best → (accept x = true → n ≤ x) →
          n ∈ lowerBounds {y | y ∈ xs ++ [x] ∧ accept y = true} := by
        intro n hn hx y hy
        rcases List.mem_append.mp hy.1 with hy' | hy'
        · exact hn.trans (hleast ⟨hy', hy.2⟩)
        · rw [List.mem_singleton] at hy'
          subst hy'
          exact hx hy.2
      rcases le_or_gt best x with hle | hlt
      · rw [keepLeast_of_le hle] at h
        cases h
        exact ⟨⟨by simp [hmem], hbestAccept⟩, hkept _ le_rfl fun _ => hle⟩
      · rw [keepLeast_of_lt hlt] at h
        split at h
        next haccept =>
          cases h
          exact ⟨⟨by simp, haccept⟩, hkept _ hlt.le fun _ => le_rfl⟩
        next haccept =>
          cases h
          exact ⟨⟨by simp [hmem], hbestAccept⟩, hkept _ le_rfl fun h => absurd h haccept⟩

/-- What the search finds is the least accepted element. -/
theorem leastAccepted_eq_some_iff :
    leastAccepted accept xs = some m ↔ IsLeast {x | x ∈ xs ∧ accept x = true} m := by
  constructor
  · exact isLeast_of_leastAccepted
  · intro h
    cases hfound : leastAccepted accept xs with
    | none =>
      have hrefused := leastAccepted_eq_none_iff.mp hfound m h.1.1
      rw [h.1.2] at hrefused
      cases hrefused
    | some n => rw [(isLeast_of_leastAccepted hfound).unique h]

end ShadowMount.Foundation
