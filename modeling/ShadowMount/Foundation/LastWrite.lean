import Mathlib.Data.List.Basic

/-!
# Last write wins

The last element of a list that answers a question, and the folds whose state
answers a question by the last element that wrote an answer.
-/

namespace ShadowMount.Foundation

variable {α β σ : Type}
variable {f : α → Option β} {l : List α} {b : β}

/-- The answer of the last element that has one. -/
def lastSome (f : α → Option β) (l : List α) : Option β :=
  l.reverse.findSome? f

@[simp]
theorem lastSome_nil (f : α → Option β) : lastSome f [] = none := rfl

theorem lastSome_append (f : α → Option β) (l m : List α) :
    lastSome f (l ++ m) = (lastSome f m).or (lastSome f l) := by
  simp [lastSome, List.findSome?_append]

theorem lastSome_cons (f : α → Option β) (a : α) (l : List α) :
    lastSome f (a :: l) = (lastSome f l).or (f a) := by
  cases hfa : f a <;> simp [lastSome, List.findSome?_append, hfa]

theorem lastSome_toList (f : α → Option β) (a : Option α) : lastSome f a.toList = a.bind f := by
  cases a with
  | none => rfl
  | some a => exact (lastSome_cons f a []).trans (Option.none_or)

theorem lastSome_eq_none_iff : lastSome f l = none ↔ ∀ a ∈ l, f a = none := by
  simp [lastSome, List.findSome?_eq_none_iff]

/-- The last answer is given by an element behind which there is none. -/
theorem lastSome_eq_some_iff :
    lastSome f l = some b ↔
      ∃ before a after, l = before ++ a :: after ∧ f a = some b ∧ ∀ x ∈ after, f x = none := by
  constructor
  · intro h
    induction l with
    | nil => cases h
    | cons a l ih =>
      rw [lastSome_cons] at h
      cases hrest : lastSome f l with
      | none =>
        rw [hrest, Option.none_or] at h
        exact ⟨[], a, l, rfl, h, lastSome_eq_none_iff.mp hrest⟩
      | some b' =>
        rw [hrest, Option.some_or] at h
        obtain ⟨before, c, after, rfl, hc, hafter⟩ := ih (by rw [hrest, h])
        exact ⟨a :: before, c, after, rfl, hc, hafter⟩
  · rintro ⟨before, a, after, rfl, ha, hafter⟩
    rw [lastSome_append, lastSome_cons, lastSome_eq_none_iff.mpr hafter, ha]
    rfl

theorem exists_of_lastSome (h : lastSome f l = some b) : ∃ a ∈ l, f a = some b := by
  obtain ⟨before, a, after, rfl, ha, -⟩ := lastSome_eq_some_iff.mp h
  exact ⟨a, by simp, ha⟩

/-- The answers of the elements, each seen with the elements behind it. -/
def filterMapTails (f : α → List α → Option β) : List α → List β
  | [] => []
  | a :: l => (f a l).toList ++ filterMapTails f l

/-- An element comes from a place in the list and what follows it. -/
theorem mem_filterMapTails {f : α → List α → Option β} :
    b ∈ filterMapTails f l ↔ ∃ before a after, l = before ++ a :: after ∧ f a after = some b := by
  induction l with
  | nil => simp [filterMapTails]
  | cons c l ih =>
    rw [filterMapTails, List.mem_append, Option.mem_toList, ih]
    constructor
    · rintro (hc | ⟨before, a, after, rfl, ha⟩)
      · exact ⟨[], c, l, rfl, hc⟩
      · exact ⟨c :: before, a, after, rfl, ha⟩
    · rintro ⟨before, a, after, heq, ha⟩
      cases before with
      | nil =>
        obtain ⟨rfl, rfl⟩ := List.cons_eq_cons.mp heq
        exact Or.inl ha
      | cons d before =>
        obtain ⟨rfl, rfl⟩ := List.cons_eq_cons.mp heq
        exact Or.inr ⟨before, a, after, rfl, ha⟩

theorem lastSome_filterMapTails_append (g : β → Option σ) (f : α → List α → Option β)
    (before : List α) (a : α) (after : List α) :
    lastSome g (filterMapTails f (before ++ a :: after)) =
      ((lastSome g (filterMapTails f after)).or ((f a after).bind g)).or
        (lastSome g (filterMapTails (fun x rest => f x (rest ++ a :: after)) before)) := by
  induction before with
  | nil =>
    simp only [List.nil_append, filterMapTails, lastSome_append, lastSome_nil, Option.or_none,
      lastSome_toList]
  | cons b before ih =>
    simp only [List.cons_append, filterMapTails, lastSome_append, ih, Option.or_assoc]

theorem good_of_foldl {step : σ → α → σ} (Good : σ → Prop)
    (hsticky : ∀ s a, Good (step s a) → Good s) {s : σ} (h : Good (l.foldl step s)) : Good s := by
  induction l generalizing s with
  | nil => exact h
  | cons a l ih => exact hsticky s a (ih h)

/-- A fold with a sticky failure.  `Good` says that no step has failed so far,
and `Inv` holds as long as none has. -/
theorem look_foldl {step : σ → α → σ} (look : σ → β) (write : α → Option β) (Good Inv : σ → Prop)
    (hsticky : ∀ s a, Good (step s a) → Good s) (hstep : ∀ s a, Good (step s a) → Inv s →
      Inv (step s a) ∧ look (step s a) = (write a).getD (look s)) {s : σ} (hinv : Inv s)
    (hgood : Good (l.foldl step s)) : look (l.foldl step s) = (lastSome write l).getD (look s) := by
  induction l generalizing s with
  | nil => rfl
  | cons a l ih =>
    obtain ⟨hinv', hlook⟩ := hstep s a (good_of_foldl Good hsticky hgood) hinv
    rw [List.foldl_cons, ih hinv' hgood, lastSome_cons, hlook]
    cases lastSome write l <;> rfl

end ShadowMount.Foundation
