import Mathlib.Data.List.Basic
import Mathlib.Order.Lattice

/-!
# Foundation - Bisection

A sorted list is searched by comparing the key with the element in the middle, and going on in the
half that is left.  The list may hold elements more than once.
-/

namespace ShadowMount.Foundation

variable {α : Type} {l : List α} {key : α}

/-- A list that is not empty has a middle. -/
theorem exists_middle (h : l ≠ []) :
    ∃ middle upper, l.drop (l.length / 2) = middle :: upper ∧
      l = l.take (l.length / 2) ++ middle :: upper := by
  have hpos := List.length_pos_iff.mpr h
  cases hdrop : l.drop (l.length / 2) with
  | nil =>
    have hall := List.drop_eq_nil_iff.mp hdrop
    omega
  | cons middle upper =>
    refine ⟨middle, upper, rfl, ?_⟩
    rw [← hdrop, List.take_append_drop]

variable [LinearOrder α]

/-- Look for a key, halving the list at most as often as the fuel says. -/
def bisectFrom (key : α) : Nat → List α → Option α
  | 0, _ => none
  | fuel + 1, l =>
    match l.drop (l.length / 2) with
    | [] => none
    | middle :: upper =>
      if key = middle then some middle
      else if middle < key then bisectFrom key fuel upper
      else bisectFrom key fuel (l.take (l.length / 2))

/-- `bsearch` of the C library. -/
def bisect (key : α) (l : List α) : Option α := bisectFrom key l.length l

/-- What is found is the key, and in the list. -/
theorem bisectFrom_mem {a : α} {fuel : Nat} (h : bisectFrom key fuel l = some a) :
    a = key ∧ key ∈ l := by
  induction fuel generalizing l with
  | zero => cases h
  | succ fuel ih =>
    rw [bisectFrom] at h
    split at h
    next => cases h
    next middle upper hdrop =>
      have hmem : ∀ b ∈ middle :: upper, b ∈ l := by
        intro b hb
        exact List.mem_of_mem_drop (hdrop ▸ hb)
      split at h
      next heq =>
        cases h
        exact ⟨heq.symm, heq ▸ hmem a List.mem_cons_self⟩
      next =>
      split at h
      next =>
        obtain ⟨heq, hfound⟩ := ih h
        exact ⟨heq, hmem key (List.mem_cons_of_mem middle hfound)⟩
      next =>
        obtain ⟨heq, hfound⟩ := ih h
        exact ⟨heq, List.mem_of_mem_take hfound⟩

/-- The key is in the half that is searched next. -/
theorem bisectFrom_of_mem {fuel : Nat} (hsorted : l.Pairwise (· ≤ ·)) (hfuel : l.length ≤ fuel)
    (hmem : key ∈ l) : bisectFrom key fuel l = some key := by
  induction fuel generalizing l with
  | zero =>
    have hnil : l = [] := List.length_eq_zero_iff.mp (Nat.le_zero.mp hfuel)
    rw [hnil] at hmem
    cases hmem
  | succ fuel ih =>
    obtain ⟨middle, upper, hdrop, hsplit⟩ := exists_middle (List.ne_nil_of_mem hmem)
    have hlength := congrArg List.length hsplit
    rw [List.length_append, List.length_cons] at hlength
    rw [hsplit] at hsorted hmem
    obtain ⟨hlower, hupper, hacross⟩ := List.pairwise_append.mp hsorted
    obtain ⟨hmiddle, hupper⟩ := List.pairwise_cons.mp hupper
    rw [bisectFrom, hdrop]
    dsimp only
    split
    next heq => rw [heq]
    next hne =>
    rcases List.mem_append.mp hmem with hmem | hmem
    · have hle : key ≤ middle := hacross key hmem middle List.mem_cons_self
      rw [if_neg (not_lt_of_ge hle)]
      exact ih hlower (by omega) hmem
    · rcases List.mem_cons.mp hmem with heq | hmem
      · exact absurd heq hne
      · have hlt : middle < key := lt_of_le_of_ne (hmiddle key hmem) (Ne.symm hne)
        rw [if_pos hlt]
        exact ih hupper (by omega) hmem

/-- In a sorted list the search finds the key exactly when the list holds it. -/
theorem bisect_isSome_iff (hsorted : l.Pairwise (· ≤ ·)) :
    (bisect key l).isSome = true ↔ key ∈ l := by
  constructor
  · intro h
    obtain ⟨a, ha⟩ := Option.isSome_iff_exists.mp h
    exact (bisectFrom_mem ha).2
  · intro hmem
    rw [bisect, bisectFrom_of_mem hsorted (Nat.le_refl _) hmem]
    rfl

end ShadowMount.Foundation
