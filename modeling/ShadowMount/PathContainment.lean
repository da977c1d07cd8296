import ShadowMount.Foundation.Components
import ShadowMount.Paths

/-!
# Containment of paths

{lit}`path_matches_root_or_child` compares texts.  Here it is what it is meant to be, a comparison
of the components of the paths, with the one exception of the root directory.
-/

namespace ShadowMount

open Foundation

/-- A path is a directory or lies in it. -/
def LiesIn (path root : Text) : Prop :=
  root ≠ [] ∧ (root = ['/'] ∧ path.head? = some '/' ∨ components '/' root <+: components '/' path)

/-- The test on the text compares components. -/
theorem pathMatchesRootOrChild_iff (path root : Text) :
    pathMatchesRootOrChild path root = true ↔ LiesIn path root := by
  unfold pathMatchesRootOrChild LiesIn
  by_cases hroot : root = []
  · simp [hroot]
  rw [if_neg hroot, ← within_iff]
  constructor
  · intro h
    refine ⟨hroot, ?_⟩
    split at h
    next => cases h
    next hbegins =>
      simp only [Bool.not_eq_true', Bool.not_eq_false, List.isPrefixOf_iff_prefix] at hbegins
      obtain ⟨rest, rfl⟩ := hbegins
      split at h
      next hslash =>
        subst hslash
        exact .inl ⟨rfl, rfl⟩
      next =>
        refine .inr (.inr ⟨rest, rfl, ?_⟩)
        simp only [List.drop_left, Bool.or_eq_true, decide_eq_true_eq] at h
        intro c hc
        rcases h with h | h
        · rw [h] at hc
          cases hc
        · rw [h] at hc
          cases hc
          rfl
  · rintro ⟨-, ⟨rfl, hslash⟩ | hnil | ⟨rest, rfl, hrest⟩⟩
    · obtain ⟨rest, rfl⟩ := List.head?_eq_some_iff.mp hslash
      rfl
    · exact absurd hnil hroot
    · rw [if_neg (by simp [List.isPrefixOf_iff_prefix])]
      split
      next => rfl
      next =>
        simp only [List.drop_left, Bool.or_eq_true, decide_eq_true_eq]
        cases rest with
        | nil => exact .inl rfl
        | cons c rest =>
          right
          rw [List.head?_cons, hrest c rfl]

/-- The match fails for what lies elsewhere. -/
theorem pathMatchesRootOrChild_eq_false_iff (path root : Text) :
    pathMatchesRootOrChild path root = false ↔ ¬ LiesIn path root := by
  rw [← pathMatchesRootOrChild_iff, Bool.not_eq_true]

end ShadowMount
