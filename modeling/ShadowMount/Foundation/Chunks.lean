import Mathlib.Data.List.Basic

/-!
# Reading through a stop, with a limit

A reader that takes elements up to and including the first stop, but no more than its buffer
holds.  What it takes from a list does not depend on what is appended behind a stop.
-/

namespace ShadowMount.Foundation

section

variable {α : Type} [DecidableEq α]

/-- Take elements through the first stop, at most as many as the limit; and what is left. -/
def chunk (stop : α) : Nat → List α → List α × List α
  | 0, l => ([], l)
  | _ + 1, [] => ([], [])
  | limit + 1, a :: l =>
    if a = stop then ([a], l)
    else
      let (front, rest) := chunk stop limit l
      (a :: front, rest)

variable {stop : α} {limit : Nat} {l : List α}

theorem chunk_append (stop : α) (limit : Nat) (l : List α) :
    (chunk stop limit l).1 ++ (chunk stop limit l).2 = l := by
  induction limit generalizing l with
  | zero => rfl
  | succ limit ih =>
    cases l with
    | nil => rfl
    | cons a l =>
      unfold chunk
      split
      · rfl
      · simpa using ih l

theorem length_chunk_le (stop : α) (limit : Nat) (l : List α) :
    (chunk stop limit l).1.length ≤ limit := by
  induction limit generalizing l with
  | zero => simp [chunk]
  | succ limit ih =>
    cases l with
    | nil => simp [chunk]
    | cons a l =>
      unfold chunk
      split
      · simp
      · simpa using ih l

theorem chunk_ne_nil (hlimit : limit ≠ 0) (hl : l ≠ []) : (chunk stop limit l).1 ≠ [] := by
  cases limit with
  | zero => exact absurd rfl hlimit
  | succ limit =>
    cases l with
    | nil => exact absurd rfl hl
    | cons a l =>
      unfold chunk
      split <;> simp

/-- The three ways a chunk ends. -/
theorem chunk_shape (stop : α) (limit : Nat) (l : List α) :
    (∃ body, (chunk stop limit l).1 = body ++ [stop] ∧ stop ∉ body) ∨
      (stop ∉ (chunk stop limit l).1 ∧
        ((chunk stop limit l).1.length = limit ∨ (chunk stop limit l).2 = [])) := by
  induction limit generalizing l with
  | zero => exact .inr ⟨by simp [chunk], .inl rfl⟩
  | succ limit ih =>
    cases l with
    | nil => exact .inr ⟨by simp [chunk], .inr rfl⟩
    | cons a l =>
      unfold chunk
      split
      · rename_i hstop
        exact .inl ⟨[], by simp [hstop], by simp⟩
      · rename_i hother
        rcases ih l with ⟨body, hbody, hclean⟩ | ⟨hclean, hend⟩
        · exact .inl ⟨a :: body, by simp [hbody], by simp [hclean, Ne.symm hother]⟩
        · refine .inr ⟨by simp [hclean, Ne.symm hother], ?_⟩
          rcases hend with hfull | hnil
          · exact .inl (by simp [hfull])
          · exact .inr hnil

/-- A chunk ends with the stop character. -/
theorem chunk_stop {body : List α} (hbody : stop ∉ body) (hlimit : body.length < limit)
    (rest : List α) : chunk stop limit (body ++ stop :: rest) = (body ++ [stop], rest) := by
  induction body generalizing limit with
  | nil =>
    cases limit with
    | zero => exact absurd hlimit (Nat.not_lt_zero _)
    | succ limit => simp [chunk]
  | cons a body ih =>
    cases limit with
    | zero => exact absurd hlimit (Nat.not_lt_zero _)
    | succ limit =>
      rw [List.mem_cons, not_or] at hbody
      rw [List.cons_append, chunk, if_neg (Ne.symm hbody.1),
        ih hbody.2 (by simpa using hlimit)]
      rfl

theorem chunk_full {body : List α} (hbody : stop ∉ body) (rest : List α) :
    chunk stop body.length (body ++ rest) = (body, rest) := by
  induction body with
  | nil => rfl
  | cons a body ih =>
    rw [List.mem_cons, not_or] at hbody
    rw [List.cons_append, List.length_cons, chunk, if_neg (Ne.symm hbody.1), ih hbody.2]

theorem chunk_of_length_le (h : l.length ≤ limit) : chunk stop limit l = chunk stop l.length l := by
  induction l generalizing limit with
  | nil => cases limit <;> rfl
  | cons a l ih =>
    cases limit with
    | zero => exact absurd h (Nat.not_succ_le_zero _)
    | succ limit =>
      rw [List.length_cons, chunk, chunk, ih (by simpa using h)]

/-- What is appended is not seen when a stop ends the list, or when not all of it is taken. -/
theorem chunk_append_of_closed
    (hl : l.getLast? = some stop ∨ (chunk stop limit l).2 ≠ []) (m : List α) :
    chunk stop limit (l ++ m) = ((chunk stop limit l).1, (chunk stop limit l).2 ++ m) := by
  have hsplit := chunk_append stop limit l
  have hlength := length_chunk_le stop limit l
  have hshape := chunk_shape stop limit l
  revert hsplit hlength hshape hl
  generalize (chunk stop limit l).1 = front
  generalize (chunk stop limit l).2 = rest
  intro hl hsplit hlength hshape
  subst hsplit
  rw [List.append_assoc]
  rcases hshape with ⟨body, rfl, hclean⟩ | ⟨hclean, rfl | rfl⟩
  · rw [List.length_append, List.length_singleton] at hlength
    rw [List.append_assoc, List.singleton_append]
    exact chunk_stop hclean hlength _
  · exact chunk_full hclean _
  · rcases hl with hlast | hrest
    · rw [List.append_nil] at hlast
      exact absurd (List.mem_of_getLast? hlast) hclean
    · exact absurd rfl hrest

end

variable {α β : Type}

/-- The results of the turns of a loop, each of which takes something from the list. -/
def turns (next : List α → β × List α) : Nat → List α → List β
  | 0, _ => []
  | fuel + 1, l => if l = [] then [] else (next l).1 :: turns next fuel (next l).2

/-- The turns that a list takes. -/
def allTurns (next : List α → β × List α) (l : List α) : List β := turns next l.length l

/-- Every turn takes an element at least. -/
def Shrinks (next : List α → β × List α) : Prop := ∀ l, l ≠ [] → (next l).2.length < l.length

variable {next : List α → β × List α} {l : List α}

/-- Enough turns are all turns. -/
theorem turns_eq (hnext : Shrinks next) {n : Nat} {l : List α} (h : l.length ≤ n) :
    turns next n l = allTurns next l := by
  have hany : ∀ n m : Nat, ∀ l : List α, l.length ≤ n → l.length ≤ m →
      turns next n l = turns next m l := by
    intro n
    induction n with
    | zero =>
      intro m l hn _
      have hnil : l = [] := List.length_eq_zero_iff.mp (Nat.le_zero.mp hn)
      subst hnil
      cases m <;> simp [turns]
    | succ n ih =>
      intro m l hn hm
      by_cases hnil : l = []
      · subst hnil
        cases m <;> simp [turns]
      · have hlt := hnext l hnil
        cases m with
        | zero => exact absurd (List.length_eq_zero_iff.mp (Nat.le_zero.mp hm)) hnil
        | succ m =>
          rw [turns, turns, if_neg hnil, if_neg hnil,
            ih m (next l).2 (by omega) (by omega)]
  exact hany n l.length l h (Nat.le_refl _)

theorem allTurns_of_ne_nil (hnext : Shrinks next) (h : l ≠ []) :
    allTurns next l = (next l).1 :: allTurns next (next l).2 := by
  have hlt := hnext l h
  have hsucc : l.length = (l.length - 1) + 1 := by omega
  unfold allTurns
  rw [hsucc, turns, if_neg h, turns_eq hnext (by omega)]
  rfl

/-- Induction along the turns of the loop. -/
theorem turns_induction (hnext : Shrinks next) {motive : List α → Prop} (nil : motive [])
    (turn : ∀ l, l ≠ [] → motive (next l).2 → motive l) : ∀ l, motive l := by
  have hany : ∀ n : Nat, ∀ l : List α, l.length ≤ n → motive l := by
    intro n
    induction n with
    | zero =>
      intro l hn
      rw [List.length_eq_zero_iff.mp (Nat.le_zero.mp hn)]
      exact nil
    | succ n ih =>
      intro l hn
      by_cases hnil : l = []
      · rw [hnil]
        exact nil
      · have hlt := hnext l hnil
        exact turn l hnil (ih _ (by omega))
  exact fun l => hany l.length l (Nat.le_refl _)

theorem shrinks_chunk [DecidableEq α] {stop : α} {limit : Nat} (hlimit : limit ≠ 0) :
    Shrinks (chunk stop limit) := by
  intro l hl
  have hsplit := congrArg List.length (chunk_append stop limit l)
  have hpos := List.length_pos_iff.mpr (@chunk_ne_nil _ _ stop _ _ hlimit hl)
  rw [List.length_append] at hsplit
  omega

end ShadowMount.Foundation
