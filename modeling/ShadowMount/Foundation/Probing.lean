import Mathlib.Data.Finset.Card
import Mathlib.Data.Finset.Range
import Mathlib.Logic.Function.Basic

/-!
# Foundation - Linear probing over a separate index

An index is an array of slots beside an array of entries.  A slot holds zero when
it is free and {lit}`k + 1` when it points to entry {lit}`k`.  An entry is filed
in the first free slot at or after its home slot, and a search walks the slots
from the home slot until it meets a hit or a free slot.  What an entry is, and
how its home slot is computed, is a parameter.
-/

namespace ShadowMount.Foundation

variable {slot fuel k : Nat}

/-- The slot linear probing visits after a number of steps. -/
def probe (size home i : Nat) : Nat := (home + i) % size

/-- Write a value into the first free slot of a walk of the given length. -/
def insertFrom (size : Nat) (index : Nat → Nat) (value : Nat) : Nat → Nat → Option (Nat → Nat)
  | 0, _ => none
  | fuel + 1, slot =>
    if index slot = 0 then some (Function.update index slot value)
    else insertFrom size index value fuel ((slot + 1) % size)

/-- The first hit of a walk of the given length that stops at a free slot. -/
def searchFrom (size : Nat) (index : Nat → Nat) (hit : Nat → Bool) : Nat → Nat → Option Nat
  | 0, _ => none
  | fuel + 1, slot =>
    if index slot = 0 then none
    else if hit (index slot - 1) then some (index slot - 1)
    else searchFrom size index hit fuel ((slot + 1) % size)

variable {size : Nat} {index : Nat → Nat}

theorem probe_zero {home : Nat} (h : home < size) : probe size home 0 = home :=
  Nat.mod_eq_of_lt h

theorem probe_lt (hsize : 0 < size) (home i : Nat) : probe size home i < size :=
  Nat.mod_lt _ hsize

theorem probe_succ (home i : Nat) :
    probe size ((home + 1) % size) i = probe size home (i + 1) := by
  unfold probe
  rw [Nat.mod_add_mod]
  congr 1
  omega

theorem exists_probe_eq {home : Nat} (hhome : home < size) (hslot : slot < size) :
    ∃ i < size, probe size home i = slot := by
  by_cases hle : home ≤ slot
  · refine ⟨slot - home, by omega, ?_⟩
    unfold probe
    rw [Nat.add_sub_cancel' hle]
    exact Nat.mod_eq_of_lt hslot
  · refine ⟨slot + size - home, by omega, ?_⟩
    unfold probe
    have hsum : home + (slot + size - home) = slot + size := by omega
    rw [hsum, Nat.add_mod_right]
    exact Nat.mod_eq_of_lt hslot

/-- The insertion takes the first free slot of its probes. -/
theorem insertFrom_eq_some {value : Nat} {result : Nat → Nat} (hslot : slot < size)
    (h : insertFrom size index value fuel slot = some result) :
    ∃ i < fuel, index (probe size slot i) = 0 ∧ (∀ j < i, index (probe size slot j) ≠ 0) ∧
      result = Function.update index (probe size slot i) value := by
  induction fuel generalizing slot with
  | zero => cases h
  | succ fuel ih =>
    unfold insertFrom at h
    split at h
    · rename_i hfree
      cases h
      exact ⟨0, by omega, by rw [probe_zero hslot]; exact hfree, by omega,
        by rw [probe_zero hslot]⟩
    · rename_i hbusy
      have hnext : (slot + 1) % size < size := Nat.mod_lt _ (by omega)
      rcases ih hnext h with ⟨i, hi, hfree, hbefore, hresult⟩
      rw [probe_succ] at hfree hresult
      refine ⟨i + 1, by omega, hfree, ?_, hresult⟩
      intro j hj
      cases j with
      | zero =>
        rw [probe_zero hslot]
        exact hbusy
      | succ j =>
        rw [← probe_succ]
        exact hbefore j (by omega)

theorem insertFrom_eq_none {value : Nat} (hslot : slot < size)
    (h : insertFrom size index value fuel slot = none) :
    ∀ i < fuel, index (probe size slot i) ≠ 0 := by
  induction fuel generalizing slot with
  | zero => intro i hi; omega
  | succ fuel ih =>
    unfold insertFrom at h
    split at h
    · cases h
    · rename_i hbusy
      have hnext : (slot + 1) % size < size := Nat.mod_lt _ (by omega)
      intro i hi
      cases i with
      | zero =>
        rw [probe_zero hslot]
        exact hbusy
      | succ i =>
        rw [← probe_succ]
        exact ih hnext h i (by omega)

theorem searchFrom_eq_some {hit : Nat → Bool} (hslot : slot < size)
    (h : searchFrom size index hit fuel slot = some k) :
    hit k = true ∧ ∃ s < size, index s = k + 1 := by
  induction fuel generalizing slot with
  | zero => cases h
  | succ fuel ih =>
    unfold searchFrom at h
    split at h
    · cases h
    · rename_i hbusy
      split at h
      · rename_i hhit
        cases h
        exact ⟨hhit, slot, hslot, by omega⟩
      · exact ih (Nat.mod_lt _ (by omega)) h

/-- The search finds what is in reach. -/
theorem exists_searchFrom {hit : Nat → Bool} {i : Nat} (hslot : slot < size) (hi : i < fuel)
    (hk : index (probe size slot i) = k + 1) (hhit : hit k = true)
    (hbefore : ∀ j < i, index (probe size slot j) ≠ 0) :
    ∃ found, searchFrom size index hit fuel slot = some found := by
  induction fuel generalizing slot i with
  | zero => omega
  | succ fuel ih =>
    have hbusy : index slot ≠ 0 := by
      rw [← probe_zero hslot]
      cases i with
      | zero => rw [hk]; omega
      | succ i => exact hbefore 0 (by omega)
    unfold searchFrom
    rw [if_neg hbusy]
    split
    · exact ⟨_, rfl⟩
    · rename_i hmiss
      cases i with
      | zero =>
        rw [probe_zero hslot] at hk
        rw [hk] at hmiss
        exact absurd hhit hmiss
      | succ i =>
        rw [← probe_succ] at hk
        refine ih (Nat.mod_lt _ (by omega)) (Nat.lt_of_succ_lt_succ hi) hk ?_
        intro j hj
        rw [probe_succ]
        exact hbefore (j + 1) (by omega)

/-- The index files exactly the given entries: every taken slot points to one of
them, no two slots to the same one, and the walk from the home slot of each
reaches it over taken slots. -/
structure Indexed (size : Nat) (home : Nat → Nat) (live : Finset Nat) (index : Nat → Nat) :
    Prop where
  sound : ∀ s < size, index s ≠ 0 → index s - 1 ∈ live
  single : ∀ s < size, ∀ s' < size, index s ≠ 0 → index s = index s' → s = s'
  reached : ∀ k ∈ live, ∃ i < size, index (probe size (home k) i) = k + 1 ∧
    ∀ j < i, index (probe size (home k) j) ≠ 0

variable {home : Nat → Nat} {live : Finset Nat}

theorem Indexed.empty (size : Nat) (home : Nat → Nat) : Indexed size home ∅ (fun _ => 0) where
  sound _ _ hne := absurd rfl hne
  single _ _ _ _ hne := absurd rfl hne
  reached k hk := absurd hk (Finset.notMem_empty k)

theorem Indexed.congr {home' : Nat → Nat} (h : Indexed size home live index)
    (hsame : ∀ k ∈ live, home' k = home k) : Indexed size home' live index where
  sound := h.sound
  single := h.single
  reached k hk := by
    rw [hsame k hk]
    exact h.reached k hk

/-- Filing one more entry keeps the others within reach. -/
theorem Indexed.insert (h : Indexed size home live index) {result : Nat → Nat} (hnew : k ∉ live)
    (hhome : home k < size) (hinsert : insertFrom size index (k + 1) size (home k) = some result) :
    Indexed size home (insert k live) result := by
  rcases insertFrom_eq_some hhome hinsert with ⟨i, hi, hfree, hbefore, rfl⟩
  have hsize : 0 < size := by omega
  -- a slot that was taken is not the one that was written
  have hkeep : ∀ s, index s ≠ 0 →
      Function.update index (probe size (home k) i) (k + 1) s = index s := by
    intro s hs
    apply Function.update_of_ne
    intro heq
    exact hs (heq ▸ hfree)
  constructor
  · intro s hs hne
    by_cases heq : s = probe size (home k) i
    · rw [heq, Function.update_self]
      exact Finset.mem_insert_self k live
    · rw [Function.update_of_ne heq] at hne ⊢
      exact Finset.mem_insert_of_mem (h.sound s hs hne)
  · -- no old slot points to the new entry
    have hfresh : ∀ s < size, index s ≠ k + 1 := by
      intro s hs heq
      have hmem := h.sound s hs (by omega)
      rw [heq] at hmem
      exact hnew hmem
    intro s hs s' hs' hne heq
    by_cases hw : s = probe size (home k) i
    · by_cases hw' : s' = probe size (home k) i
      · rw [hw, hw']
      · rw [hw, Function.update_self, Function.update_of_ne hw'] at heq
        exact absurd heq.symm (hfresh s' hs')
    · rw [Function.update_of_ne hw] at hne heq
      by_cases hw' : s' = probe size (home k) i
      · rw [hw', Function.update_self] at heq
        exact absurd heq (hfresh s hs)
      · rw [Function.update_of_ne hw'] at heq
        exact h.single s hs s' hs' hne heq
  · intro j hj
    rcases Finset.mem_insert.mp hj with rfl | hj
    · refine ⟨i, hi, Function.update_self _ _ _, ?_⟩
      intro j' hj'
      rw [hkeep _ (hbefore j' hj')]
      exact hbefore j' hj'
    · rcases h.reached j hj with ⟨i', hi', hat, hwalk⟩
      refine ⟨i', hi', ?_, ?_⟩
      · rw [hkeep _ (by omega)]
        exact hat
      · intro j' hj'
        rw [hkeep _ (hwalk j' hj')]
        exact hwalk j' hj'

/-- An index with more slots than entries has room for one more. -/
theorem Indexed.exists_insertFrom (h : Indexed size home live index) (hroom : live.card < size)
    (value : Nat) (hslot : slot < size) :
    ∃ result, insertFrom size index value size slot = some result := by
  cases hinsert : insertFrom size index value size slot with
  | some result => exact ⟨result, rfl⟩
  | none =>
    have hwalk := insertFrom_eq_none hslot hinsert
    have hfull : ∀ s < size, index s ≠ 0 := by
      intro s hs
      rcases exists_probe_eq hslot hs with ⟨i, hi, rfl⟩
      exact hwalk i hi
    -- the slots then point to as many different entries as there are slots
    have hcard : (Finset.range size).card ≤ live.card := by
      apply Finset.card_le_card_of_injOn (fun s => index s - 1)
      · intro s hs
        have hs := Finset.mem_range.mp hs
        exact h.sound s hs (hfull s hs)
      · intro s hs s' hs' heq
        have hs := Finset.mem_range.mp hs
        have hs' := Finset.mem_range.mp hs'
        have hne := hfull s hs
        have hne' := hfull s' hs'
        refine h.single s hs s' hs' hne ?_
        have heq : index s - 1 = index s' - 1 := heq
        omega
    rw [Finset.card_range] at hcard
    omega

theorem Indexed.exists_free (h : Indexed size home live index) (hroom : live.card < size) :
    ∃ slot < size, index slot = 0 := by
  rcases h.exists_insertFrom hroom 1 (show 0 < size by omega) with ⟨result, hresult⟩
  rcases insertFrom_eq_some (by omega) hresult with ⟨i, _, hfree, _⟩
  exact ⟨_, probe_lt (by omega) 0 i, hfree⟩

/-- File entries one after another. -/
def fileAll (size : Nat) (home : Nat → Nat) (entries : List Nat) (index : Nat → Nat) :
    Nat → Nat :=
  entries.foldl (fun index k => (insertFrom size index (k + 1) size (home k)).getD index) index

/-- Filing entries one after another reaches all of them. -/
theorem Indexed.fileAll (h : Indexed size home live index) {entries : List Nat}
    (hnodup : entries.Nodup) (hnew : ∀ k ∈ entries, k ∉ live)
    (hhome : ∀ k ∈ entries, home k < size) (hroom : live.card + entries.length < size) :
    Indexed size home (live ∪ entries.toFinset) (fileAll size home entries index) := by
  induction entries generalizing live index with
  | nil => simpa [Foundation.fileAll] using h
  | cons k entries ih =>
    rw [List.nodup_cons] at hnodup
    rw [List.length_cons] at hroom
    have hk := hnew k List.mem_cons_self
    have hslot := hhome k List.mem_cons_self
    rcases h.exists_insertFrom (by omega) (k + 1) hslot with ⟨result, hinsert⟩
    have hone := h.insert hk hslot hinsert
    have hrest : Indexed size home (Insert.insert k live ∪ entries.toFinset)
        (Foundation.fileAll size home entries result) := by
      apply ih hone hnodup.2
      · intro j hj hmem
        rcases Finset.mem_insert.mp hmem with rfl | hmem
        · exact hnodup.1 hj
        · exact hnew j (List.mem_cons_of_mem k hj) hmem
      · intro j hj
        exact hhome j (List.mem_cons_of_mem k hj)
      · rw [Finset.card_insert_of_notMem hk]
        omega
    have hlive : live ∪ (k :: entries).toFinset = Insert.insert k live ∪ entries.toFinset := by
      rw [List.toFinset_cons, Finset.union_insert, Finset.insert_union]
    have hindex : Foundation.fileAll size home (k :: entries) index =
        Foundation.fileAll size home entries result := by
      unfold Foundation.fileAll
      rw [List.foldl_cons, hinsert, Option.getD_some]
    rw [hlive, hindex]
    exact hrest

/-- A search for something that is filed finds a hit that is filed. -/
theorem Indexed.searchFrom (h : Indexed size home live index) {hit : Nat → Bool} (hk : k ∈ live)
    (hhit : hit k = true) (hhome : home k < size) :
    ∃ found ∈ live, hit found = true ∧ searchFrom size index hit size (home k) = some found := by
  rcases h.reached k hk with ⟨i, hi, hat, hbefore⟩
  rcases exists_searchFrom hhome hi hat hhit hbefore with ⟨found, hfound⟩
  rcases searchFrom_eq_some hhome hfound with ⟨hhit', s, hs, hpoint⟩
  have hmem := h.sound s hs (by omega)
  rw [hpoint] at hmem
  exact ⟨found, hmem, hhit', hfound⟩

end ShadowMount.Foundation
