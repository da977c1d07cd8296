import Mathlib.Data.List.DropRight

/-!
# Foundation - Scanning lists

The pieces that hand-written scanners and printers are made of: stripping both
ends of a list, cutting it at the first element that meets a test, and cutting
it into terminated pieces.  Each comes with the equations that undo it on the
output of a printer.
-/

namespace ShadowMount.Foundation

variable {α : Type*}
variable {p : α → Bool} {pad l : List α} {a stop : α}

/-- Strip the elements that meet the test from both ends. -/
def trim (p : α → Bool) (l : List α) : List α :=
  (l.dropWhile p).rdropWhile p

@[simp]
theorem trim_nil (p : α → Bool) : trim p [] = [] := rfl

/-- What is trimmed off in front does not matter. -/
theorem trim_append_left (h : ∀ a ∈ pad, p a = true) (l : List α) :
    trim p (pad ++ l) = trim p l := by
  unfold trim
  rw [List.dropWhile_append_of_pos h]

theorem trim_dropWhile (p : α → Bool) (l : List α) : trim p (l.dropWhile p) = trim p l := by
  unfold trim
  rw [List.dropWhile_idempotent]

theorem rdropWhile_append_right (h : ∀ a ∈ pad, p a = true) (l : List α) :
    (l ++ pad).rdropWhile p = l.rdropWhile p := by
  unfold List.rdropWhile
  rw [List.reverse_append, List.dropWhile_append_of_pos]
  intro a ha
  exact h a (List.mem_reverse.mp ha)

theorem trim_append_right (h : ∀ a ∈ pad, p a = true) (l : List α) :
    trim p (l ++ pad) = trim p l := by
  unfold trim
  rw [List.dropWhile_append]
  split
  · rename_i hempty
    have hpad : pad.dropWhile p = [] := List.dropWhile_eq_nil_iff.mpr h
    rw [hpad, List.isEmpty_iff.mp hempty]
  · rw [rdropWhile_append_right h]

/-- Nothing is trimmed when the ends are no padding. -/
theorem trim_eq_self (hhead : ∀ a ∈ l.head?, p a = false) (hlast : ∀ a ∈ l.getLast?, p a = false) :
    trim p l = l := by
  unfold trim
  have hfront : l.dropWhile p = l := by
    cases l with
    | nil => rfl
    | cons a l => exact List.dropWhile_cons_of_neg (by simp [hhead a rfl])
  rw [hfront, List.rdropWhile_eq_self_iff]
  intro hne hp
  have hfalse := hlast (l.getLast hne) (List.getLast?_eq_some_getLast hne)
  rw [hfalse] at hp
  cases hp

/-- Nothing is left when all is padding. -/
theorem trim_eq_nil_iff : trim p l = [] ↔ ∀ a ∈ l, p a = true := by
  unfold trim
  constructor
  · intro h
    have hall := List.rdropWhile_eq_nil_iff.mp h
    by_contra hne
    have hfront : l.dropWhile p ≠ [] := by
      intro hnil
      exact hne (List.dropWhile_eq_nil_iff.mp hnil)
    have hhead := List.head_dropWhile_not p hfront
    rw [hall _ (List.head_mem hfront)] at hhead
    cases hhead
  · intro h
    rw [List.dropWhile_eq_nil_iff.mpr h]
    rfl

theorem head?_dropWhile_of_trim (h : (trim p l).head? = some a) :
    (l.dropWhile p).head? = some a := by
  obtain ⟨pad, hpad⟩ := List.rdropWhile_prefix p (l.dropWhile p)
  unfold trim at h
  rw [← hpad, List.head?_append, h]
  rfl

theorem trim_head {p : α → Bool} {l : List α} {a : α} (h : (trim p l).head? = some a) :
    p a = false := by
  have hfront := head?_dropWhile_of_trim h
  have hne : l.dropWhile p ≠ [] := by
    intro hnil
    rw [hnil] at hfront
    cases hfront
  have hnot := List.head_dropWhile_not p hne
  rw [List.head?_eq_some_head hne] at hfront
  cases hfront
  exact hnot

theorem trim_last (h : (trim p l).getLast? = some a) : p a = false := by
  have hne : trim p l ≠ [] := by
    intro hnil
    rw [hnil] at h
    cases h
  have hlast := List.rdropWhile_last_not p (l.dropWhile p) hne
  rw [List.getLast?_eq_some_getLast hne] at h
  cases h
  rw [Bool.not_eq_true] at hlast
  exact hlast

@[simp]
theorem trim_trim (p : α → Bool) (l : List α) : trim p (trim p l) = trim p l :=
  trim_eq_self (fun _ ha => trim_head ha) (fun _ ha => trim_last ha)

/-- A list is its trimmed middle between two ends that go. -/
theorem exists_eq_trim (p : α → Bool) (l : List α) :
    ∃ front back, (∀ a ∈ front, p a = true) ∧ (∀ a ∈ back, p a = true) ∧
      l = front ++ trim p l ++ back := by
  refine ⟨l.takeWhile p, (l.dropWhile p).rtakeWhile p, ?_, ?_, ?_⟩
  · exact fun a ha => List.mem_takeWhile_imp ha
  · exact fun a ha => List.mem_rtakeWhile_imp ha
  · unfold trim
    rw [List.append_assoc, List.rdropWhile_append_rtakeWhile, List.takeWhile_append_dropWhile]

theorem trim_map {β : Type} {p : β → Bool} {q : α → Bool} {f : α → β} (h : ∀ a, p (f a) = q a)
    (l : List α) : trim p (l.map f) = (trim q l).map f := by
  have hcomp : p ∘ f = q := funext h
  unfold trim
  rw [List.dropWhile_map, hcomp, List.rdropWhile, List.rdropWhile, ← List.map_reverse,
    List.dropWhile_map, hcomp, List.map_reverse]

theorem mem_of_mem_trim (h : a ∈ trim p l) : a ∈ l :=
  (List.dropWhile_sublist p).subset ((List.rdropWhile_prefix p _).subset h)

theorem length_trim_le (p : α → Bool) (l : List α) : (trim p l).length ≤ l.length :=
  (List.rdropWhile_prefix p _).length_le.trans (List.dropWhile_sublist p).length_le

/-- The part before the first element that meets the test, and that element with
what follows it. -/
def cut (p : α → Bool) (l : List α) : List α × List α :=
  (l.takeWhile fun a => !p a, l.dropWhile fun a => !p a)

/-- The first hit of a list with a known clean part. -/
theorem cut_append {p : α → Bool} {l rest : List α} (hclean : ∀ a ∈ l, p a = false)
    (hhit : ∀ a ∈ rest.head?, p a = true) : cut p (l ++ rest) = (l, rest) := by
  unfold cut
  have hclean' : ∀ a ∈ l, (!p a) = true := by
    intro a ha
    simp [hclean a ha]
  rw [List.takeWhile_append_of_pos hclean', List.dropWhile_append_of_pos hclean']
  cases rest with
  | nil => simp
  | cons b rest =>
    have hb := hhit b rfl
    simp [hb]

theorem cut_fst_append_snd (p : α → Bool) (l : List α) : (cut p l).1 ++ (cut p l).2 = l :=
  List.takeWhile_append_dropWhile

theorem not_of_mem_cut_fst {p : α → Bool} {l : List α} {a : α} (h : a ∈ (cut p l).1) :
    p a = false := by
  simpa [cut] using List.mem_takeWhile_imp h

theorem cut_snd_head {p : α → Bool} {l : List α} {a : α} (h : (cut p l).2.head? = some a) :
    p a = true := by
  have hne : (cut p l).2 ≠ [] := by
    intro hnil
    rw [hnil] at h
    cases h
  have hnot := List.head_dropWhile_not (fun a => !p a) hne
  rw [List.head?_eq_some_head hne] at h
  cases h
  rw [Bool.not_eq_false'] at hnot
  exact hnot

variable [DecidableEq α]

/-- Cut a list after every terminator; the last piece may lack it. -/
def splitTerminated (stop : α) : List α → List (List α)
  | [] => []
  | a :: rest =>
    if a = stop then [a] :: splitTerminated stop rest
    else match splitTerminated stop rest with
      | [] => [[a]]
      | piece :: pieces => (a :: piece) :: pieces

/-- The first piece ends at the first stop. -/
theorem splitTerminated_append {piece : List α} (h : stop ∉ piece) (rest : List α) :
    splitTerminated stop (piece ++ stop :: rest) =
      (piece ++ [stop]) :: splitTerminated stop rest := by
  induction piece with
  | nil => simp [splitTerminated]
  | cons a piece ih =>
    rw [List.mem_cons, not_or] at h
    simp [splitTerminated, Ne.symm h.1, ih h.2]

/-- Cutting a concatenation of terminated pieces gives back the pieces. -/
theorem splitTerminated_flatten {pieces : List (List α)}
    (h : ∀ piece ∈ pieces, ∃ body, stop ∉ body ∧ piece = body ++ [stop]) :
    splitTerminated stop pieces.flatten = pieces := by
  induction pieces with
  | nil => rfl
  | cons piece pieces ih =>
    obtain ⟨body, hbody, rfl⟩ := h piece List.mem_cons_self
    have hrest := ih (fun piece hpiece => h piece (List.mem_cons_of_mem _ hpiece))
    rw [List.flatten_cons, List.append_assoc, List.singleton_append,
      splitTerminated_append hbody, hrest]

/-- A piece has its terminator at the end, or is the last one. -/
theorem splitTerminated_piece {piece : List α} (h : piece ∈ splitTerminated stop l) :
    (stop ∉ piece ∧ piece ≠ []) ∨ ∃ body, stop ∉ body ∧ piece = body ++ [stop] := by
  induction l generalizing piece with
  | nil => cases h
  | cons a rest ih =>
    unfold splitTerminated at h
    split at h
    · rename_i hstop
      rcases List.mem_cons.mp h with rfl | hrest
      · exact Or.inr ⟨[], by simp, by simp [hstop]⟩
      · exact ih hrest
    · rename_i hne
      split at h
      · rw [List.mem_singleton] at h
        subst h
        exact Or.inl ⟨by simpa using Ne.symm hne, by simp⟩
      · rename_i first others hsplit
        rcases List.mem_cons.mp h with rfl | hrest
        · -- the first piece of the rest, with one more element before it
          have hfirst : first ∈ splitTerminated stop rest := by
            rw [hsplit]
            exact List.mem_cons_self
          rcases ih hfirst with ⟨hclean, -⟩ | ⟨body, hbody, rfl⟩
          · exact Or.inl ⟨by simp [Ne.symm hne, hclean], by simp⟩
          · exact Or.inr ⟨a :: body, by simp [Ne.symm hne, hbody], by simp⟩
        · exact ih (by rw [hsplit]; exact List.mem_cons_of_mem _ hrest)

/-- The pieces make up the list. -/
@[simp]
theorem flatten_splitTerminated (stop : α) (l : List α) :
    (splitTerminated stop l).flatten = l := by
  induction l with
  | nil => rfl
  | cons a rest ih =>
    unfold splitTerminated
    split
    · simp [ih]
    · split
      · rename_i hsplit
        rw [hsplit] at ih
        simp [← ih]
      · rename_i first others hsplit
        rw [hsplit] at ih
        simp [← ih]

end ShadowMount.Foundation
