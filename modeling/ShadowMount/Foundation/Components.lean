import Mathlib.Data.List.Basic

/-!
# Separated components

A list cut at a separator is a list of components, and the empty list has none.  Containment of
one list in another, as a program tests it on the text (a common beginning, and then the end or
a separator), is the prefix relation on the components, so it is reflexive, transitive, and
blind to beginnings that end inside a component.
-/

namespace ShadowMount.Foundation

variable {α β : Type}
variable {sep : α} {l : List α}

/-- Two lists joined are joined by the separator. -/
theorem intercalate_append {sep : List α} {ls ls' : List (List α)} (h : ls ≠ [])
    (h' : ls' ≠ []) :
    sep.intercalate (ls ++ ls') = sep.intercalate ls ++ sep ++ sep.intercalate ls' := by
  induction ls with
  | nil => exact absurd rfl h
  | cons l ls ih =>
    cases ls with
    | nil => simpa using List.intercalate_cons_of_ne_nil h'
    | cons l' ls =>
      have hrest := ih (List.cons_ne_nil l' ls)
      rw [List.cons_append, List.cons_append, List.intercalate_cons_cons, ← List.cons_append,
        hrest, List.intercalate_cons_cons]
      simp

variable [DecidableEq α]

/-- The components of a list. -/
def components (sep : α) (l : List α) : List (List α) :=
  if l = [] then [] else l.splitOn sep

/-- Two lists with a separator between them, where both have components. -/
def join (sep : α) (a b : List α) : List α :=
  a ++ (if a ≠ [] ∧ b ≠ [] then [sep] else []) ++ b

@[simp]
theorem components_nil (sep : α) : components sep [] = [] := rfl

theorem components_of_ne_nil (h : l ≠ []) : components sep l = l.splitOn sep := by
  unfold components
  rw [if_neg h]

@[simp]
theorem components_eq_nil_iff : components sep l = [] ↔ l = [] := by
  constructor
  · intro h
    by_contra hne
    rw [components_of_ne_nil hne] at h
    exact List.splitOn_ne_nil sep l h
  · rintro rfl
    rfl

theorem intercalate_components (sep : α) (l : List α) :
    [sep].intercalate (components sep l) = l := by
  by_cases hne : l = []
  · rw [hne]
    rfl
  · rw [components_of_ne_nil hne, List.intercalate_splitOn]

theorem components_single (hne : l ≠ []) (hl : sep ∉ l) : components sep l = [l] := by
  rw [components_of_ne_nil hne, List.splitOn_eq_singleton hl]

theorem components_append_cons {a b : List α} (ha : a ≠ []) (hb : b ≠ []) :
    components sep (a ++ sep :: b) = components sep a ++ components sep b := by
  rw [components_of_ne_nil (by simp), components_of_ne_nil ha, components_of_ne_nil hb,
    List.splitOn_append_cons_self]

/-- Joining two lists joins their components. -/
theorem components_join (sep : α) (a b : List α) :
    components sep (join sep a b) = components sep a ++ components sep b := by
  unfold join
  by_cases ha : a = []
  · simp [ha]
  · by_cases hb : b = []
    · simp [hb]
    · rw [if_pos ⟨ha, hb⟩, List.append_assoc, List.singleton_append,
        components_append_cons ha hb]

/-- The test on the text: an empty root contains everything, another one what begins with it
and goes on with a separator, if at all. -/
def Within (sep : α) (root l : List α) : Prop :=
  root = [] ∨ ∃ rest, l = root ++ rest ∧ ∀ a ∈ rest.head?, a = sep

/-- The test on the text is the prefix relation on the components. -/
theorem within_iff {root : List α} :
    Within sep root l ↔ components sep root <+: components sep l := by
  constructor
  · rintro (rfl | ⟨rest, rfl, hhead⟩)
    · exact List.nil_prefix
    · by_cases hroot : root = []
      · rw [hroot]
        exact List.nil_prefix
      · cases rest with
        | nil =>
          simp only [List.append_nil, List.prefix_rfl]
        | cons a rest =>
          have ha : a = sep := hhead a rfl
          rw [ha, components_of_ne_nil hroot, components_of_ne_nil (by simp),
            List.splitOn_append_cons_self]
          exact List.prefix_append _ _
  · rintro ⟨tail, htail⟩
    by_cases hroot : root = []
    · exact Or.inl hroot
    · refine Or.inr ?_
      have hl : l = [sep].intercalate (components sep root ++ tail) := by
        rw [htail, intercalate_components]
      cases tail with
      | nil =>
        rw [List.append_nil, intercalate_components] at hl
        exact ⟨[], by rw [hl, List.append_nil], by simp⟩
      | cons t tail =>
        have hne : components sep root ≠ [] := by simpa using hroot
        rw [intercalate_append hne (by simp), intercalate_components] at hl
        exact ⟨sep :: [sep].intercalate (t :: tail), by simpa using hl, by simp⟩

variable [DecidableEq β]

/-- Splitting commutes with a map that keeps the separator apart. -/
theorem splitOn_map {f : α → β} (h : ∀ a, f a = f sep → a = sep) (l : List α) :
    (l.map f).splitOn (f sep) = (l.splitOn sep).map (List.map f) := by
  induction l with
  | nil => rfl
  | cons a l ih =>
    rw [List.map_cons, List.splitOn_cons_eq_if_modifyHead, List.splitOn_cons_eq_if_modifyHead, ih]
    by_cases ha : a = sep
    · simp [ha]
    · have hfa : f a ≠ f sep := fun heq => ha (h a heq)
      simp only [beq_iff_eq, ha, hfa, if_false]
      cases l.splitOn sep <;> rfl

/-- Relabelling that keeps the separator apart commutes with cutting. -/
theorem components_map {f : α → β} (h : ∀ a, f a = f sep → a = sep) (l : List α) :
    components (f sep) (l.map f) = (components sep l).map (List.map f) := by
  by_cases hne : l = []
  · rw [hne]
    rfl
  · rw [components_of_ne_nil hne, components_of_ne_nil (by simpa using hne), splitOn_map h]

end ShadowMount.Foundation
