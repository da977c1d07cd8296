import Mathlib.Algebra.Order.Ring.Int
import Mathlib.Data.List.Basic

/-!
# Addressed memory

Memory as a function of addresses, read and written by ranges.  A write that fails may have
reached some of its cells all the same, so a torn write is described by the cells it reached.
-/

namespace ShadowMount.Foundation

/-- A memory of cells. -/
abbrev Memory (β : Type*) := Nat → β

/-- Two ranges, given by their beginnings and lengths, have no cell in common. -/
def Apart (a n b k : Nat) : Prop := a + n ≤ b ∨ b + k ≤ a

instance (a n b k : Nat) : Decidable (Apart a n b k) :=
  inferInstanceAs (Decidable (_ ∨ _))

theorem Apart.symm {a n b k : Nat} (h : Apart a n b k) : Apart b k a n :=
  Or.symm h

theorem Apart.mono {a n b k a' n' b' k' : Nat} (h : Apart a n b k) (ha : a ≤ a')
    (hn : a' + n' ≤ a + n) (hb : b ≤ b') (hk : b' + k' ≤ b + k) : Apart a' n' b' k' := by
  unfold Apart at h ⊢
  omega

namespace Memory

variable {β : Type*} (m : Memory β)
variable {a n : Nat} {bs : List β}

/-- The cells of a range. -/
def read (a n : Nat) : List β := (List.range n).map fun i => m (a + i)

/-- Memory with some cells written. -/
def write (a : Nat) (bs : List β) : Memory β := fun x =>
  if h : a ≤ x ∧ x - a < bs.length then bs.get ⟨x - a, h.2⟩ else m x

/-- Memory after a write that reached some of its cells. -/
def tear (a : Nat) (bs : List β) (torn : Nat → Bool) : Memory β := fun x =>
  if torn (x - a) then m.write a bs x else m x

@[simp]
theorem length_read (a n : Nat) : (m.read a n).length = n := by
  simp [read]

theorem getElem_read {i : Nat} (h : i < (m.read a n).length) : (m.read a n)[i] = m (a + i) := by
  simp [read]

variable {m}

/-- Memories that agree are read alike. -/
theorem read_congr {m' : Memory β} {b : Nat} (h : ∀ i < n, m (a + i) = m' (b + i)) :
    m.read a n = m'.read b n := by
  refine List.ext_getElem (by simp) ?_
  intro i hi _
  rw [getElem_read, getElem_read]
  exact h i (by simpa using hi)

theorem write_outside {x : Nat} (h : x < a ∨ a + bs.length ≤ x) : m.write a bs x = m x := by
  unfold write
  rw [dif_neg]
  omega

theorem write_inside {i : Nat} (h : i < bs.length) : m.write a bs (a + i) = bs[i] := by
  simp [write, h]

/-- What was written is read. -/
theorem read_write_self (a : Nat) (bs : List β) : (m.write a bs).read a bs.length = bs := by
  refine List.ext_getElem (by simp) ?_
  intro i _ hi
  rw [getElem_read, write_inside hi]

/-- A write does not reach a range that is apart from it. -/
theorem read_write_apart {b : Nat} (h : Apart a n b bs.length) :
    (m.write b bs).read a n = m.read a n := by
  refine read_congr fun i hi => write_outside ?_
  unfold Apart at h
  omega

/-- A write that reached no cell, or all of them. -/
theorem read_tear_whole (a : Nat) (bs : List β) {torn : Nat → Bool} {b : Bool}
    (h : ∀ i < bs.length, torn i = b) :
    (m.tear a bs torn).read a bs.length = if b then bs else m.read a bs.length := by
  have hcell : ∀ i < bs.length,
      m.tear a bs torn (a + i) = if b then m.write a bs (a + i) else m (a + i) := by
    intro i hi
    unfold tear
    rw [Nat.add_sub_cancel_left, h i hi]
  cases b with
  | true =>
    have hread : (m.tear a bs torn).read a bs.length = (m.write a bs).read a bs.length :=
      read_congr (by simpa using hcell)
    rw [hread]
    exact read_write_self a bs
  | false => exact read_congr (by simpa using hcell)

theorem read_add (a n k : Nat) : m.read a (n + k) = m.read a n ++ m.read (a + n) k := by
  unfold read
  rw [List.range_add, List.map_append, List.map_map]
  simp [Function.comp_def, Nat.add_assoc]

/-- A part of what is read. -/
theorem read_part {k j : Nat} (h : k + j ≤ n) :
    m.read (a + k) j = ((m.read a n).drop k).take j := by
  refine List.ext_getElem (by simp; omega) ?_
  intro i hi _
  rw [getElem_read]
  simp [getElem_read, Nat.add_assoc]

end Memory

end ShadowMount.Foundation
