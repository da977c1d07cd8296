import Mathlib.Data.List.TakeWhile
import ShadowMount.Foundation.Intervals

/-!
# Package server - Served coverage

{lit}`sm_pkg_server.c` records which bytes of a package were sent, over all connections,
in a table of intervals of limited size.  A range that meets no interval is not recorded
when the table is full.

Offsets are 64 bits wide; the additions of the source wrap.

Main results:

- Theorem {lit}`coverage_accounting`: what the table says after any sequence of ranges.
-/

namespace ShadowMount.PkgServer

open Foundation

variable {intervals : List Interval} {total : Nat}

/-- `SM_PKG_SERVER_COVERAGE_MAX`. -/
def coverageMax : Nat := 256

/-- The next number of 64 bits. -/
def succ64 (x : Nat) : Nat := (x + 1) % 2 ^ 64

/-- The inner loop of `add_coverage_locked`: the neighbours that are merged, how many
they are, and what is left over. -/
def absorbNeighbours : Nat → Nat → List Interval → Interval × Nat × List Interval
  | start, last, [] => (⟨start, last⟩, 0, [])
  | start, last, i :: rest =>
    if i.start ≤ succ64 last then
      let (merged, count, left) := absorbNeighbours
        (if i.start < start then i.start else start) (if last < i.last then i.last else last) rest
      (merged, count + 1, left)
    else (⟨start, last⟩, 0, i :: rest)

/-- `add_coverage_locked`. -/
def addCoverage (intervals : List Interval) (start last : Nat) : List Interval :=
  if last < start then intervals
  else
    let before := intervals.takeWhile fun i => succ64 i.last < start
    let (merged, count, left) :=
      absorbNeighbours start last (intervals.dropWhile fun i => succ64 i.last < start)
    if count = 0 ∧ coverageMax ≤ intervals.length then intervals
    else before ++ merged :: left

/-- `covered_bytes_locked`. -/
def coveredBytes (intervals : List Interval) : Nat :=
  intervals.foldl (fun total i => (total + ((i.last - i.start) + 1)) % 2 ^ 64) 0

/-- `complete_locked`. -/
def complete (total : Nat) (intervals : List Interval) : Bool :=
  total = 0 || intervals = [⟨0, total - 1⟩]

/-- The table after some ranges were sent. -/
def coverage (ranges : List Interval) : List Interval :=
  ranges.foldl (fun intervals r => addCoverage intervals r.start r.last) []

/-- A range is not recorded since the table is full. -/
def overflows (intervals : List Interval) (r : Interval) : Bool :=
  decide (r.start ≤ r.last) && decide (coverageMax ≤ intervals.length) &&
    (absorbNeighbours r.start r.last
      (intervals.dropWhile fun i => succ64 i.last < r.start)).2.1 = 0

/-- Some range of a sequence was not recorded. -/
def overflowed : List Interval → List Interval → Bool
  | _, [] => false
  | intervals, r :: ranges =>
    overflows intervals r || overflowed (addCoverage intervals r.start r.last) ranges

theorem succ64_eq {x limit : Nat} (hlimit : limit ≤ 2 ^ 64) (hx : x + 1 < limit) :
    succ64 x = x + 1 :=
  Nat.mod_eq_of_lt (hx.trans_le hlimit)

/-- Without a wrap the inner loop merges as it should. -/
theorem absorbNeighbours_eq {limit : Nat} (hlimit : limit ≤ 2 ^ 64) {start last : Nat}
    (hlast : last + 1 < limit) (hin : ∀ i ∈ intervals, i.last + 1 < limit) :
    (absorbNeighbours start last intervals).1 = (absorb start last intervals).1 ∧
      (absorbNeighbours start last intervals).2.2 = (absorb start last intervals).2 := by
  induction intervals generalizing start last with
  | nil => exact ⟨rfl, rfl⟩
  | cons i rest ih =>
    unfold absorbNeighbours absorb
    rw [succ64_eq hlimit hlast]
    split
    · have hi := hin i (List.mem_cons_self ..)
      have hmin : (if i.start < start then i.start else start) = min i.start start := by
        split <;> omega
      have hmax : (if last < i.last then i.last else last) = max i.last last := by
        split <;> omega
      have hrest := @ih (min i.start start) (max i.last last) (by omega)
        fun j hj => hin j (List.mem_cons_of_mem _ hj)
      simp only [hmin, hmax]
      exact hrest
    · exact ⟨rfl, rfl⟩

/-- A table of separated intervals of a file. -/
structure Table (total : Nat) (intervals : List Interval) : Prop where
  separated : Separated intervals
  within : ∀ i ∈ intervals, i.last < total

/-- Adding one range keeps the table in order, and adds the range unless the table is full. -/
theorem addCoverage_spec (htotal : total < 2 ^ 64) (h : Table total intervals) {r : Interval}
    (hr : r.start ≤ r.last) (hlast : r.last < total) :
    Table total (addCoverage intervals r.start r.last) ∧
      (∀ x, Covers (addCoverage intervals r.start r.last) x → r.Mem x ∨ Covers intervals x) ∧
      (overflows intervals r = false →
        ∀ x, r.Mem x ∨ Covers intervals x → Covers (addCoverage intervals r.start r.last) x) := by
  have hlimit : total + 1 ≤ 2 ^ 64 := htotal
  have hsucc : ∀ i ∈ intervals, succ64 i.last = i.last + 1 := fun i hi =>
    succ64_eq hlimit (Nat.succ_lt_succ (h.within i hi))
  have hp : ∀ i ∈ intervals, decide (succ64 i.last < r.start) = true ↔ i.last + 1 < r.start := by
    intro i hi
    rw [hsucc i hi, decide_eq_true_iff]
  -- the intervals that end before the range, and those that reach it
  have hparts : intervals.takeWhile (fun i => succ64 i.last < r.start) ++
      intervals.dropWhile (fun i => succ64 i.last < r.start) = intervals :=
    List.takeWhile_append_dropWhile
  have hreach := h.separated.reach_dropWhile hp
  have hbefore : ∀ i ∈ intervals.takeWhile fun i => succ64 i.last < r.start,
      i.last + 1 < r.start := by
    intro i hi
    have hlt := List.mem_takeWhile_imp hi
    exact (hp i (List.takeWhile_subset _ hi)).mp hlt
  unfold addCoverage overflows
  rw [if_neg (by omega)]
  generalize intervals.takeWhile (fun i => succ64 i.last < r.start) = before at hparts hbefore ⊢
  generalize intervals.dropWhile (fun i => succ64 i.last < r.start) = behind at hparts hreach ⊢
  subst hparts
  have hin : ∀ i ∈ behind, i.last + 1 < total + 1 := fun i hi =>
    Nat.succ_lt_succ (h.within i (List.mem_append_right _ hi))
  obtain ⟨hmerged, hleft⟩ := absorbNeighbours_eq hlimit (Nat.succ_lt_succ hlast) hin
  have hcovers : ∀ x, Covers (before ++ (absorb r.start r.last behind).1 ::
      (absorb r.start r.last behind).2) x ↔ r.Mem x ∨ Covers (before ++ behind) x := by
    intro x
    rw [covers_append, covers_absorb hr h.separated.append_right hreach, covers_append,
      Interval.Mem]
    tauto
  dsimp only
  rw [hmerged, hleft]
  split
  · rename_i hfull
    refine ⟨h, fun x hx => .inr hx, fun hnot => ?_⟩
    rw [decide_eq_true hr, decide_eq_true hfull.2, hfull.1] at hnot
    cases hnot
  · refine ⟨⟨h.separated.insert hr hbefore, ?_⟩, fun x hx => (hcovers x).mp hx,
      fun _ x hx => (hcovers x).mpr hx⟩
    intro i hi
    rcases List.mem_append.mp hi with hi | hi
    · exact h.within i (List.mem_append_left _ hi)
    · rcases List.mem_cons.mp hi with rfl | hi
      · obtain ⟨-, -, hhigh⟩ := absorb_bounds hr behind
        have hle := hhigh (total - 1) (by omega) fun j hj => by
          have hj' := hin j hj
          omega
        omega
      · obtain ⟨merged, hsplit⟩ := (absorb_rest r.start r.last h.separated.append_right).1
        refine h.within i (List.mem_append_right _ ?_)
        rw [hsplit]
        exact List.mem_append_right _ hi

/-- The bytes covered are those of the table. -/
theorem coveredBytes_eq (htotal : total < 2 ^ 64) (h : Table total intervals) :
    coveredBytes intervals = (intervals.map Interval.size).sum ∧
      coveredBytes intervals ≤ total := by
  have hfold : ∀ (l : List Interval) (acc : Nat), acc + (l.map Interval.size).sum < 2 ^ 64 →
      l.foldl (fun sum i => (sum + ((i.last - i.start) + 1)) % 2 ^ 64) acc =
        acc + (l.map Interval.size).sum := by
    intro l
    induction l with
    | nil => exact fun acc _ => rfl
    | cons i rest ih =>
      intro acc hacc
      simp only [List.map_cons, List.sum_cons, Interval.size, List.foldl_cons] at hacc ⊢
      rw [Nat.mod_eq_of_lt (by omega), ih _ (by omega)]
      omega
  have hsum : (intervals.map Interval.size).sum ≤ total - 0 :=
    h.separated.sum_size_le (fun i hi => ⟨Nat.zero_le _, h.within i hi⟩) (Nat.zero_le _)
  have heq := hfold intervals 0 (by omega)
  rw [Nat.zero_add] at heq
  exact ⟨heq, by rw [coveredBytes, heq]; omega⟩

/-- Ranges that are served are added to the table. -/
theorem addCoverages_spec (htotal : total < 2 ^ 64) {ranges : List Interval}
    (hranges : ∀ r ∈ ranges, r.start ≤ r.last ∧ r.last < total) (h : Table total intervals) :
    Table total (ranges.foldl (fun intervals r => addCoverage intervals r.start r.last) intervals) ∧
      (∀ x, Covers (ranges.foldl (fun intervals r => addCoverage intervals r.start r.last)
        intervals) x → Covers ranges x ∨ Covers intervals x) ∧
      (overflowed intervals ranges = false → ∀ x, Covers ranges x ∨ Covers intervals x →
        Covers (ranges.foldl (fun intervals r => addCoverage intervals r.start r.last)
          intervals) x) := by
  induction ranges generalizing intervals with
  | nil =>
    refine ⟨h, fun x hx => .inr hx, fun _ x hx => ?_⟩
    exact hx.resolve_left (covers_nil x)
  | cons r rest ih =>
    have hr := hranges r (List.mem_cons_self ..)
    obtain ⟨htable, hsound, hadded⟩ := addCoverage_spec htotal h hr.1 hr.2
    obtain ⟨hfinal, hin, hout⟩ := ih (fun j hj => hranges j (List.mem_cons_of_mem _ hj)) htable
    refine ⟨hfinal, ?_, ?_⟩
    · intro x hx
      rw [covers_cons]
      rcases hin x hx with hrest | hold
      · exact .inl (.inr hrest)
      · exact (hsound x hold).imp .inl id
    · intro hover x hx
      rw [overflowed, Bool.or_eq_false_iff] at hover
      rw [covers_cons] at hx
      refine hout hover.2 x ?_
      rcases hx with (hnew | hrest) | hold
      · exact .inr (hadded hover.1 x (.inl hnew))
      · exact .inl hrest
      · exact .inr (hadded hover.1 x (.inr hold))

/-- After any sequence of ranges of a file that were sent, the table is a list of separated
intervals of bytes that were sent, of all of them unless the table overflowed; the covered
bytes are the sum of their sizes and no more than the file has; and the file counts as
complete only if every byte was sent. -/
theorem coverage_accounting {total : Nat} (htotal : total < 2 ^ 64) {ranges : List Interval}
    (hranges : ∀ r ∈ ranges, r.start ≤ r.last ∧ r.last < total) :
    Separated (coverage ranges) ∧
      (∀ x, Covers (coverage ranges) x → Covers ranges x) ∧
      (overflowed [] ranges = false → ∀ x, Covers (coverage ranges) x ↔ Covers ranges x) ∧
      coveredBytes (coverage ranges) = ((coverage ranges).map Interval.size).sum ∧
      coveredBytes (coverage ranges) ≤ total ∧
      (complete total (coverage ranges) = true → ∀ x, x < total → Covers ranges x) := by
  obtain ⟨htable, hin, hout⟩ := addCoverages_spec htotal hranges
    (⟨Separated.nil, nofun⟩ : Table total [])
  have hsound : ∀ x, Covers (coverage ranges) x → Covers ranges x := fun x hx =>
    (hin x hx).resolve_right (covers_nil x)
  obtain ⟨hsum, hle⟩ := coveredBytes_eq htotal htable
  refine ⟨htable.separated, hsound, ?_, hsum, hle, ?_⟩
  · intro hover x
    exact ⟨hsound x, fun hx => hout hover x (.inl hx)⟩
  · intro hcomplete x hx
    refine hsound x ?_
    simp only [complete, Bool.or_eq_true, decide_eq_true_eq] at hcomplete
    rcases hcomplete with hzero | hone
    · omega
    · rw [hone]
      exact ⟨⟨0, total - 1⟩, List.mem_singleton_self _, Nat.zero_le _, Nat.le_sub_one_of_lt hx⟩

/-- Overlapping, touching and apart ranges. -/
theorem coverage_accounting_merged :
    coverage [⟨0, 3⟩, ⟨8, 9⟩, ⟨4, 5⟩, ⟨2, 6⟩] = [⟨0, 6⟩, ⟨8, 9⟩] ∧
      coveredBytes (coverage [⟨0, 3⟩, ⟨8, 9⟩, ⟨4, 5⟩, ⟨2, 6⟩]) ≤ 10 :=
  ⟨by decide, (coverage_accounting (by decide : 10 < 2 ^ 64) (by decide)).2.2.2.2.1⟩

end ShadowMount.PkgServer
