import Mathlib.Data.List.Basic
import Mathlib.Data.List.Infix

/-!
# Windows of a growing list

Parts of a list between two positions, and how two such parts are laid over each other again when
only their elements are known: by the longest end of the one that begins the other.  However often
the elements repeat, that end is never shorter than the part the two windows share.
-/

namespace ShadowMount.Foundation

variable {α : Type}
variable {l : List α} {start stop : Nat}

/-- The elements from one position up to another one. -/
def between (l : List α) (start stop : Nat) : List α := (l.take stop).drop start

theorem length_between (h : stop ≤ l.length) : (between l start stop).length = stop - start := by
  simp [between, Nat.min_eq_left h]

theorem drop_between (l : List α) (start stop k : Nat) :
    (between l start stop).drop k = between l (start + k) stop := by
  simp [between, List.drop_drop]

/-- Two windows that meet are one. -/
theorem between_append (l : List α) {mid : Nat} (hstart : start ≤ mid) (hmid : mid ≤ stop) :
    between l start mid ++ between l mid stop = between l start stop := by
  have htake : l.take mid = (l.take stop).take mid := by
    rw [List.take_take, Nat.min_eq_left hmid]
  unfold between
  rw [htake, List.drop_take]
  obtain ⟨k, rfl⟩ := Nat.exists_eq_add_of_le hstart
  rw [Nat.add_sub_cancel_left, ← List.drop_drop, List.take_append_drop]

/-- A window is a prefix of a longer one. -/
theorem between_prefix (l : List α) {stop' : Nat} (h : stop ≤ stop') :
    between l start stop <+: between l start stop' := by
  unfold between
  have htake : l.take stop = (l.take stop').take stop := by
    rw [List.take_take, Nat.min_eq_left h]
  rw [htake, List.drop_take]
  exact List.take_prefix _ _

variable [DecidableEq α]

/-- The length of the longest end of a list that begins another one. -/
def overlap (current : List α) : List α → Nat
  | [] => 0
  | a :: rest => if (a :: rest).isPrefixOf current then rest.length + 1 else overlap current rest

theorem overlap_le (current l : List α) : overlap current l ≤ current.length := by
  induction l with
  | nil => simp [overlap]
  | cons a rest ih =>
    unfold overlap
    split
    next h => exact (List.isPrefixOf_iff_prefix.mp h).length_le
    next => exact ih

/-- The overlap is no shorter than any end that begins the other list. -/
theorem le_overlap {current : List α} {k : Nat} (hbegins : l.drop k <+: current) :
    l.length - k ≤ overlap current l := by
  induction l generalizing k with
  | nil => simp
  | cons a rest ih =>
    unfold overlap
    split
    next => simp
    next h =>
      cases k with
      | zero => exact absurd (List.isPrefixOf_iff_prefix.mpr hbegins) h
      | succ k => simpa using ih (k := k) (by simpa using hbegins)

/-- Two windows that both moved on: what they share is within the overlap of their elements,
searched in as much of the first as the second can begin with. -/
theorem shared_le_overlap {start' stop' : Nat} (hstart : start ≤ start') (hstop : stop ≤ stop')
    (hlength : stop' ≤ l.length) :
    stop - start' ≤ overlap (between l start' stop')
      ((between l start stop).drop
        ((between l start stop).length - min (between l start stop).length
          (between l start' stop').length)) := by
  rw [length_between hlength, length_between (hstop.trans hlength)]
  generalize hskip : stop - start - min (stop - start) (stop' - start') = skip
  rcases Nat.lt_or_ge start' stop with hshare | hgap
  · have hbegins : ((between l start stop).drop skip).drop (start' - start - skip) <+:
        between l start' stop' := by
      rw [drop_between, drop_between, show start + skip + (start' - start - skip) = start' by omega]
      exact between_prefix l hstop
    have hle := le_overlap hbegins
    rw [List.length_drop, length_between (hstop.trans hlength)] at hle
    omega
  · rw [Nat.sub_eq_zero_of_le hgap]
    exact Nat.zero_le _

omit [DecidableEq α]

/-- An element that ends a piece begins an empty one, any other one goes to the last piece. -/
theorem splitOnP_concat {p : α → Bool} {pieces : List (List α)} {last : List α}
    (h : l.splitOnP p = pieces ++ [last]) (x : α) :
    (l ++ [x]).splitOnP p =
      if p x then pieces ++ [last] ++ [[]] else pieces ++ [last ++ [x]] := by
  induction l generalizing pieces last with
  | nil =>
    cases pieces with
    | nil =>
      simp at h
      subst h
      simp [List.splitOnP_cons_eq_if_modifyHead]
    | cons piece pieces => simp at h
  | cons a l ih =>
    rw [List.cons_append, List.splitOnP_cons_eq_if_modifyHead]
    rw [List.splitOnP_cons_eq_if_modifyHead] at h
    split at h
    next ha =>
      rw [if_pos ha]
      cases pieces with
      | nil => simp [List.splitOnP_ne_nil] at h
      | cons piece pieces =>
        simp only [List.cons_append, List.cons.injEq] at h
        rw [ih h.2, ← h.1]
        split <;> simp
    next ha =>
      rw [if_neg ha]
      cases hrest : l.splitOnP p with
      | nil => exact absurd hrest (List.splitOnP_ne_nil p l)
      | cons piece rest =>
        rw [hrest] at h
        cases pieces with
        | nil =>
          simp only [List.modifyHead_cons, List.nil_append, List.cons.injEq] at h
          have hpiece : l.splitOnP p = [] ++ [piece] := by simp [hrest, h.2]
          rw [ih hpiece, ← h.1]
          split <;> simp
        | cons piece' pieces =>
          simp only [List.modifyHead_cons, List.cons_append, List.cons.injEq] at h
          have hpiece : l.splitOnP p = piece :: pieces ++ [last] := by simp [hrest, h.2]
          rw [ih hpiece, ← h.1]
          split <;> simp

end ShadowMount.Foundation
