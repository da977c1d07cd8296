import Mathlib.Algebra.Order.Ring.Int
import Mathlib.Data.List.Basic

/-!
# Foundation - Lists of separated intervals

A set of numbers kept as a list of intervals in ascending order that neither overlap nor
touch.
-/

namespace ShadowMount.Foundation

variable {start last : Nat}

/-- The numbers from a first to a last one. -/
structure Interval where
  start : Nat
  last : Nat
deriving DecidableEq

namespace Interval

def Mem (i : Interval) (x : Nat) : Prop := i.start ≤ x ∧ x ≤ i.last

def size (i : Interval) : Nat := i.last - i.start + 1

end Interval

/-- A number is in one of the intervals. -/
def Covers (intervals : List Interval) (x : Nat) : Prop := ∃ i ∈ intervals, i.Mem x

theorem covers_nil (x : Nat) : ¬ Covers [] x := by
  rintro ⟨i, hi, -⟩
  cases hi

theorem covers_cons (i : Interval) (intervals : List Interval) (x : Nat) :
    Covers (i :: intervals) x ↔ i.Mem x ∨ Covers intervals x := by
  simp [Covers]

theorem covers_append (a b : List Interval) (x : Nat) :
    Covers (a ++ b) x ↔ Covers a x ∨ Covers b x := by
  simp only [Covers, List.mem_append, or_and_right, exists_or]

/-- Intervals that are not empty, in ascending order, with a number between each two. -/
structure Separated (intervals : List Interval) : Prop where
  ordered : intervals.Pairwise fun i j => i.last + 1 < j.start
  nonempty : ∀ i ∈ intervals, i.start ≤ i.last

theorem Separated.nil : Separated [] :=
  ⟨List.Pairwise.nil, nofun⟩

theorem Separated.tail {i : Interval} {rest : List Interval} (h : Separated (i :: rest)) :
    Separated rest :=
  ⟨h.ordered.of_cons, fun j hj => h.nonempty j (List.mem_cons_of_mem _ hj)⟩

theorem Separated.before {i : Interval} {rest : List Interval} (h : Separated (i :: rest)) :
    ∀ j ∈ rest, i.last + 1 < j.start :=
  (List.pairwise_cons.mp h.ordered).1

theorem Separated.append_left {a b : List Interval} (h : Separated (a ++ b)) : Separated a :=
  ⟨(List.pairwise_append.mp h.ordered).1, fun i hi => h.nonempty i (List.mem_append_left _ hi)⟩

theorem Separated.append_right {a b : List Interval} (h : Separated (a ++ b)) : Separated b :=
  ⟨(List.pairwise_append.mp h.ordered).2.1, fun i hi => h.nonempty i (List.mem_append_right _ hi)⟩

variable {intervals : List Interval}

theorem Separated.reach_dropWhile (h : Separated intervals) {p : Interval → Bool} {x : Nat}
    (hp : ∀ i ∈ intervals, p i = true ↔ i.last + 1 < x) :
    ∀ i ∈ intervals.dropWhile p, x ≤ i.last + 1 := by
  induction intervals with
  | nil => exact nofun
  | cons i rest ih =>
    have hhead := hp i (List.mem_cons_self ..)
    rw [List.dropWhile_cons]
    split
    · exact ih h.tail fun j hj => hp j (List.mem_cons_of_mem _ hj)
    · rename_i hnot
      have hi : x ≤ i.last + 1 := Nat.le_of_not_lt fun hlt => hnot (hhead.mpr hlt)
      intro j hj
      rcases List.mem_cons.mp hj with rfl | hj
      · exact hi
      · have hbehind := h.before j hj
        have hne := h.nonempty j (List.mem_cons_of_mem _ hj)
        omega

/-- Merge an interval with those at the head of a list that it overlaps or touches. -/
def absorb : Nat → Nat → List Interval → Interval × List Interval
  | start, last, [] => (⟨start, last⟩, [])
  | start, last, i :: rest =>
    if i.start ≤ last + 1 then absorb (min i.start start) (max i.last last) rest
    else (⟨start, last⟩, i :: rest)

/-- What is left begins behind the absorbed interval. -/
theorem absorb_rest (start last : Nat) (h : Separated intervals) :
    (∃ merged, intervals = merged ++ (absorb start last intervals).2) ∧
      ∀ i ∈ (absorb start last intervals).2,
        (absorb start last intervals).1.last + 1 < i.start := by
  induction intervals generalizing start last with
  | nil => exact ⟨⟨[], rfl⟩, nofun⟩
  | cons i rest ih =>
    unfold absorb
    split
    · obtain ⟨⟨merged, hmerged⟩, hbehind⟩ := ih (min i.start start) (max i.last last) h.tail
      exact ⟨⟨i :: merged, by rw [List.cons_append, ← hmerged]⟩, hbehind⟩
    · rename_i hfar
      refine ⟨⟨[], rfl⟩, ?_⟩
      intro j hj
      rcases List.mem_cons.mp hj with rfl | hj
      · exact Nat.lt_of_not_le hfar
      · have hi := h.nonempty i (List.mem_cons_self ..)
        have hbetween := h.before j hj
        simp only
        omega

/-- The absorbed interval covers what it met and nothing else. -/
theorem absorb_bounds (hne : start ≤ last) (intervals : List Interval) :
    (absorb start last intervals).1.start ≤ (absorb start last intervals).1.last ∧
      (∀ x, x < start → (∀ i ∈ intervals, x < i.start) →
        x < (absorb start last intervals).1.start) ∧
      ∀ x, last ≤ x → (∀ i ∈ intervals, i.last ≤ x) →
        (absorb start last intervals).1.last ≤ x := by
  induction intervals generalizing start last with
  | nil => exact ⟨hne, fun x hx _ => hx, fun x hx _ => hx⟩
  | cons i rest ih =>
    unfold absorb
    split
    · have hmerged : min i.start start ≤ max i.last last :=
        (min_le_right _ _).trans (hne.trans (le_max_right _ _))
      obtain ⟨hne', hlow, hhigh⟩ := ih hmerged
      refine ⟨hne', ?_, ?_⟩
      · intro x hx hall
        exact hlow x (lt_min (hall i (List.mem_cons_self ..)) hx)
          fun j hj => hall j (List.mem_cons_of_mem _ hj)
      · intro x hx hall
        exact hhigh x (max_le (hall i (List.mem_cons_self ..)) hx)
          fun j hj => hall j (List.mem_cons_of_mem _ hj)
    · exact ⟨hne, fun x hx _ => hx, fun x hx _ => hx⟩

/-- Merging covers what the interval and the list cover.  Every interval of the list ends
where it touches the new one, or behind. -/
theorem covers_absorb (hne : start ≤ last) (h : Separated intervals)
    (hreach : ∀ i ∈ intervals, start ≤ i.last + 1) (x : Nat) :
    Covers ((absorb start last intervals).1 :: (absorb start last intervals).2) x ↔
      (start ≤ x ∧ x ≤ last) ∨ Covers intervals x := by
  induction intervals generalizing start last with
  | nil => exact covers_cons _ _ _
  | cons i rest ih =>
    unfold absorb
    split
    · rename_i htouch
      have hi := h.nonempty i (List.mem_cons_self ..)
      have hstart := hreach i (List.mem_cons_self ..)
      have hmerged : min i.start start ≤ max i.last last :=
        (min_le_right _ _).trans (hne.trans (le_max_right _ _))
      have hrest : ∀ j ∈ rest, min i.start start ≤ j.last + 1 := fun j hj =>
        (min_le_right _ _).trans (hreach j (List.mem_cons_of_mem _ hj))
      rw [ih hmerged h.tail hrest, covers_cons, ← or_assoc]
      refine or_congr_left ?_
      unfold Interval.Mem
      omega
    · exact covers_cons _ _ _

/-- A merged interval between those before it and those it has left over. -/
theorem Separated.insert {before : List Interval} (h : Separated (before ++ intervals))
    (hne : start ≤ last) (hbefore : ∀ i ∈ before, i.last + 1 < start) :
    Separated (before ++ (absorb start last intervals).1 :: (absorb start last intervals).2) := by
  obtain ⟨⟨merged, hmerged⟩, hbehind⟩ := absorb_rest start last h.append_right
  obtain ⟨hmem, hlow, -⟩ := absorb_bounds hne intervals
  have hordered := List.pairwise_append.mp h.ordered
  have hfirst : ∀ i ∈ before, i.last + 1 < (absorb start last intervals).1.start :=
    fun i hi => hlow _ (hbefore i hi) (hordered.2.2 i hi)
  have hrest : Separated (absorb start last intervals).2 := by
    have hall := h.append_right
    rw [hmerged] at hall
    exact hall.append_right
  refine ⟨List.pairwise_append.mpr ⟨hordered.1, ?_, ?_⟩, ?_⟩
  · exact List.pairwise_cons.mpr ⟨hbehind, hrest.ordered⟩
  · intro i hi j hj
    rcases List.mem_cons.mp hj with rfl | hj
    · exact hfirst i hi
    · exact ((hfirst i hi).trans_le hmem).trans ((Nat.lt_succ_self _).trans (hbehind j hj))
  · intro i hi
    rcases List.mem_append.mp hi with hi | hi
    · exact h.append_left.nonempty i hi
    · rcases List.mem_cons.mp hi with rfl | hi
      · exact hmem
      · exact hrest.nonempty i hi

/-- The sizes of separated intervals between two bounds add up to no more than the room. -/
theorem Separated.sum_size_le (h : Separated intervals) {low high : Nat}
    (hbound : ∀ i ∈ intervals, low ≤ i.start ∧ i.last < high) (hle : low ≤ high) :
    (intervals.map Interval.size).sum ≤ high - low := by
  induction intervals generalizing low with
  | nil => exact Nat.zero_le _
  | cons i rest ih =>
    have hi := hbound i (List.mem_cons_self ..)
    have hne := h.nonempty i (List.mem_cons_self ..)
    have hrest : (rest.map Interval.size).sum ≤ high - (i.last + 1) :=
      ih h.tail (fun j hj =>
        ⟨(h.before j hj).le, (hbound j (List.mem_cons_of_mem _ hj)).2⟩) (by omega)
    simp only [List.map_cons, List.sum_cons, Interval.size]
    omega

end ShadowMount.Foundation
