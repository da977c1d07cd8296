import ShadowMount.StateTable.Model
import ShadowMount.Foundation.Transition

/-!
# A state table is a finite map

A table is well formed when its valid entries have distinct keys that fit their
buffers and its index files exactly these entries.  Searching the index then gives
what a scan of the entries would give, and each operation changes the map from
keys to records as its abstract counterpart does.
-/

namespace ShadowMount.StateTable

open Foundation

variable {ρ : Type}

namespace Layout

variable {L : Layout ρ} {t : Table ρ}
variable {k : Nat} {key : Text}

theorem firstEntry_eq_some {p : Entry ρ → Bool} (h : L.firstEntry t p = some k) :
    k < L.capacity ∧ p (t.entries k) = true := by
  constructor
  · exact List.mem_range.mp (List.mem_of_find?_eq_some h)
  · exact List.find?_some (p := fun k => p (t.entries k)) h

theorem firstEntry_eq_none {p : Entry ρ → Bool} :
    L.firstEntry t p = none ↔ ∀ k < L.capacity, p (t.entries k) = false := by
  unfold firstEntry
  simp only [List.find?_eq_none, List.mem_range, Bool.not_eq_true]

/-- The record of the first valid entry with the key. -/
def contents (L : Layout ρ) (t : Table ρ) : StateMap ρ := fun key =>
  (L.firstEntry t fun e => e.valid && e.key = key).map fun k => (t.entries k).record

/-- Some valid entry has the key and the record. -/
def Holds (L : Layout ρ) (t : Table ρ) (key : Text) (r : ρ) : Prop :=
  ∃ k < L.capacity, (t.entries k).valid = true ∧ (t.entries k).key = key ∧
    (t.entries k).record = r

/-- The keys of the valid entries fit, and no two are the same. -/
structure Keyed (L : Layout ρ) (entries : Nat → Entry ρ) : Prop where
  fits : ∀ k < L.capacity, (entries k).valid = true → L.Fits (entries k).key
  distinct : ∀ j < L.capacity, ∀ k < L.capacity, (entries j).valid = true →
    (entries k).valid = true → (entries j).key = (entries k).key → j = k

/-- The numbers of the valid entries. -/
def live (L : Layout ρ) (entries : Nat → Entry ρ) : Finset Nat :=
  (Finset.range L.capacity).filter fun k => (entries k).valid = true

/-- The keys are in order and the index files exactly the valid entries. -/
structure WellFormed (L : Layout ρ) (t : Table ρ) : Prop where
  keyed : L.Keyed t.entries
  indexed : Indexed L.slots (fun k => L.home (t.entries k).key) (L.live t.entries) t.index

theorem home_lt (L : Layout ρ) (key : Text) : L.home key < L.slots :=
  Nat.mod_lt _ L.slots_pos

theorem mem_live {entries : Nat → Entry ρ} :
    k ∈ L.live entries ↔ k < L.capacity ∧ (entries k).valid = true := by
  simp [live]

theorem card_live_le (L : Layout ρ) (entries : Nat → Entry ρ) :
    (L.live entries).card ≤ L.capacity := by
  have hle := Finset.card_filter_le (Finset.range L.capacity) fun k => (entries k).valid = true
  rwa [Finset.card_range] at hle

/-- What the table holds for a key. -/
theorem contents_eq_some_iff (h : L.Keyed t.entries) {r : ρ} :
    L.contents t key = some r ↔ L.Holds t key r := by
  unfold contents Holds
  constructor
  · intro hmap
    rcases Option.map_eq_some_iff.mp hmap with ⟨k, hk, hr⟩
    rcases firstEntry_eq_some hk with ⟨hlt, hhit⟩
    rw [Bool.and_eq_true, decide_eq_true_iff] at hhit
    exact ⟨k, hlt, hhit.1, hhit.2, hr⟩
  · rintro ⟨k, hlt, hvalid, hkey, rfl⟩
    cases hscan : L.firstEntry t fun e => e.valid && e.key = key with
    | none =>
      have hmiss := firstEntry_eq_none.mp hscan k hlt
      simp [hvalid, hkey] at hmiss
    | some j =>
      rcases firstEntry_eq_some hscan with ⟨hj, hhit⟩
      rw [Bool.and_eq_true, decide_eq_true_iff] at hhit
      have hsame := h.distinct j hj k hlt hhit.1 hvalid (hhit.2.trans hkey.symm)
      rw [hsame]
      rfl

theorem contents_eq_none_iff :
    L.contents t key = none ↔
      ∀ k < L.capacity, (t.entries k).valid = true → (t.entries k).key ≠ key := by
  unfold contents
  rw [Option.map_eq_none_iff, firstEntry_eq_none]
  apply forall₂_congr
  intro k _
  cases (t.entries k).valid <;> simp

theorem contents_eq_of_holds (h : L.Keyed t.entries) {m : StateMap ρ}
    (hsame : ∀ key r, L.Holds t key r ↔ m key = some r) : L.contents t = m := by
  funext key
  apply Option.ext
  intro r
  rw [contents_eq_some_iff h]
  exact hsame key r

/-- Probing agrees with a scan of the entries. -/
theorem WellFormed.find_eq (h : L.WellFormed t) (key : Text) :
    L.find t key = L.firstEntry t fun e => e.valid && e.key = key := by
  cases hscan : L.firstEntry t fun e => e.valid && e.key = key with
  | none =>
    have hmiss := firstEntry_eq_none.mp hscan
    cases hfind : L.find t key with
    | none => rfl
    | some k =>
      rcases searchFrom_eq_some (L.home_lt key) hfind with ⟨hhit, s, hs, hpoint⟩
      have hmem := h.indexed.sound s hs (by omega)
      rw [hpoint] at hmem
      have hlt := (mem_live.mp hmem).1
      rw [Nat.add_sub_cancel] at hlt
      rw [hmiss k hlt] at hhit
      cases hhit
  | some k =>
    rcases firstEntry_eq_some hscan with ⟨hlt, hhit⟩
    have hparts := hhit
    rw [Bool.and_eq_true, decide_eq_true_iff] at hparts
    have hmem : k ∈ L.live t.entries := mem_live.mpr ⟨hlt, hparts.1⟩
    let hit : Nat → Bool := fun k => (t.entries k).valid && (t.entries k).key = key
    have hhit : hit k = true := hhit
    rcases h.indexed.searchFrom hmem hhit (L.home_lt _) with ⟨found, hfound, hhit', hsearch⟩
    rw [Bool.and_eq_true, decide_eq_true_iff] at hhit'
    have hsame : found = k :=
      h.keyed.distinct found (mem_live.mp hfound).1 k hlt hhit'.1 hparts.1
        (hhit'.2.trans hparts.2.symm)
    rw [← hsame, ← hsearch, hparts.2]
    rfl

/-- The lookup by probing finds what the table holds. -/
theorem WellFormed.lookup_eq (h : L.WellFormed t) (key : Text) :
    L.lookup t key = L.contents t key := by
  unfold lookup contents
  rw [h.find_eq]

/-- Rebuilding the index of entries with distinct keys gives a well formed table. -/
theorem Keyed.rebuild (h : L.Keyed t.entries) : L.WellFormed (L.rebuild t) := by
  refine ⟨h, ?_⟩
  let keep : Nat → Bool := fun k => !(!(t.entries k).valid || (t.entries k).key = [])
  have hfold : (L.rebuild t).index = fileAll L.slots (fun k => L.home (t.entries k).key)
      ((List.range L.capacity).filter keep) (fun _ => 0) := by
    unfold Layout.rebuild fileAll
    rw [List.foldl_filter]
    change List.foldl _ _ _ = List.foldl _ _ _
    congr 1
    funext index k
    unfold keep
    cases (!(t.entries k).valid || decide ((t.entries k).key = [])) <;> rfl
  have hlive : L.live t.entries = ∅ ∪ ((List.range L.capacity).filter keep).toFinset := by
    ext k
    rw [mem_live, Finset.empty_union, List.mem_toFinset, List.mem_filter, List.mem_range]
    unfold keep
    constructor
    · intro hk
      have hne := (h.fits k hk.1 hk.2).1
      simp [hk.1, hk.2, hne]
    · intro hk
      simp only [Bool.not_or, Bool.not_not, Bool.and_eq_true] at hk
      exact ⟨hk.1, hk.2.1⟩
  have hlength : ((List.range L.capacity).filter keep).length < L.slots := by
    have hle := List.length_filter_le keep (List.range L.capacity)
    rw [List.length_range] at hle
    exact Nat.lt_of_le_of_lt hle L.capacity_lt
  rw [hfold]
  change Indexed L.slots (fun k => L.home (t.entries k).key) (L.live t.entries) _
  rw [hlive]
  apply (Indexed.empty L.slots _).fileAll (List.nodup_range.filter _)
  · intro k _
    exact Finset.notMem_empty k
  · intro k _
    exact L.home_lt _
  · rw [Finset.card_empty, Nat.zero_add]
    exact hlength

/-- A rebuilt index changes no contents. -/
@[simp]
theorem contents_rebuild (L : Layout ρ) (t : Table ρ) :
    L.contents (L.rebuild t) = L.contents t := rfl

/-- New records under the old keys keep the index right. -/
theorem WellFormed.of_records (h : L.WellFormed t) {t' : Table ρ} (hindex : t'.index = t.index)
    (hkey : ∀ k, (t'.entries k).key = (t.entries k).key)
    (hvalid : ∀ k, (t'.entries k).valid = (t.entries k).valid) : L.WellFormed t' := by
  have hlive : L.live t'.entries = L.live t.entries := by
    ext k
    rw [mem_live, mem_live, hvalid]
  constructor
  · constructor
    · intro k hk hv
      rw [hkey]
      exact h.keyed.fits k hk (hvalid k ▸ hv)
    · intro j hj k hk hvj hvk heq
      rw [hkey, hkey] at heq
      exact h.keyed.distinct j hj k hk (hvalid j ▸ hvj) (hvalid k ▸ hvk) heq
  · rw [hlive, hindex]
    apply h.indexed.congr
    intro k _
    rw [hkey]

theorem setRecord_key (t : Table ρ) (k : Nat) (f : ρ → ρ) (j : Nat) :
    ((t.setRecord k f).entries j).key = (t.entries j).key := by
  unfold Table.setRecord
  by_cases heq : j = k
  · subst heq
    rw [Table.setEntry_entries_self]
  · rw [Table.setEntry_entries_of_ne t heq]

theorem setRecord_valid (t : Table ρ) (k : Nat) (f : ρ → ρ) (j : Nat) :
    ((t.setRecord k f).entries j).valid = (t.entries j).valid := by
  unfold Table.setRecord
  by_cases heq : j = k
  · subst heq
    rw [Table.setEntry_entries_self]
  · rw [Table.setEntry_entries_of_ne t heq]

theorem WellFormed.setRecord (h : L.WellFormed t) (k : Nat) (f : ρ → ρ) :
    L.WellFormed (t.setRecord k f) :=
  h.of_records rfl (setRecord_key t k f) (setRecord_valid t k f)

/-- A record set changes its key only. -/
theorem WellFormed.contents_setRecord (h : L.WellFormed t) (hk : k < L.capacity)
    (hvalid : (t.entries k).valid = true) (hkey : (t.entries k).key = key) (f : ρ → ρ) :
    L.contents (t.setRecord k f) =
      Function.update (L.contents t) key ((L.contents t key).map f) := by
  have hheld : L.contents t key = some (t.entries k).record :=
    (contents_eq_some_iff h.keyed).mpr ⟨k, hk, hvalid, hkey, rfl⟩
  apply contents_eq_of_holds (h.setRecord k f).keyed
  intro key' r
  unfold Holds
  simp only [setRecord_key, setRecord_valid]
  by_cases heq : key' = key
  · subst heq
    rw [Function.update_self, hheld]
    constructor
    · rintro ⟨j, hj, hvj, hkj, hr⟩
      have hsame := h.keyed.distinct j hj k hk hvj hvalid (hkj.trans hkey.symm)
      subst hsame
      rw [← hr]
      simp [Table.setRecord]
    · intro hr
      cases hr
      exact ⟨k, hk, hvalid, hkey, by simp [Table.setRecord]⟩
  · rw [Function.update_of_ne heq, contents_eq_some_iff h.keyed]
    unfold Holds
    apply exists_congr
    intro j
    apply and_congr_right
    intro _
    apply and_congr_right
    intro _
    apply and_congr_right
    intro hkj
    have hne : j ≠ k := by
      intro hjk
      rw [hjk, hkey] at hkj
      exact heq hkj.symm
    simp [Table.setRecord, Table.setEntry_entries_of_ne t hne]

/-- A change of one record is one of the map. -/
theorem WellFormed.modify (h : L.WellFormed t) (key : Text) (f : ρ → ρ) :
    L.WellFormed (L.modify t key f) ∧ L.contents (L.modify t key f) =
      Function.update (L.contents t) key ((L.contents t key).map f) := by
  unfold Layout.modify
  cases hfind : L.find t key with
  | none =>
    rw [h.find_eq] at hfind
    have hnone : L.contents t key = none := by
      unfold contents
      rw [hfind]
      rfl
    refine ⟨h, ?_⟩
    rw [hnone, Option.map_none, ← hnone, Function.update_eq_self]
  | some k =>
    rw [h.find_eq] at hfind
    rcases firstEntry_eq_some hfind with ⟨hk, hhit⟩
    rw [Bool.and_eq_true, decide_eq_true_iff] at hhit
    exact ⟨h.setRecord k f, h.contents_setRecord hk hhit.1 hhit.2 f⟩

/-- A change of all records is one of the map. -/
theorem WellFormed.updateAll (h : L.WellFormed t) (f : ρ → ρ) :
    L.WellFormed (L.updateAll t f) ∧
      L.contents (L.updateAll t f) = fun key => (L.contents t key).map f := by
  have hkey : ∀ k, ((L.updateAll t f).entries k).key = (t.entries k).key := by
    intro k
    unfold Layout.updateAll
    dsimp only
    split <;> rfl
  have hvalid : ∀ k, ((L.updateAll t f).entries k).valid = (t.entries k).valid := by
    intro k
    unfold Layout.updateAll
    dsimp only
    split <;> rfl
  have hwell : L.WellFormed (L.updateAll t f) := h.of_records rfl hkey hvalid
  refine ⟨hwell, ?_⟩
  apply contents_eq_of_holds hwell.keyed
  intro key r
  rw [Option.map_eq_some_iff]
  simp only [contents_eq_some_iff h.keyed]
  unfold Holds
  simp only [hkey, hvalid]
  constructor
  · rintro ⟨k, hk, hv, hkk, hr⟩
    refine ⟨(t.entries k).record, ⟨k, hk, hv, hkk, rfl⟩, ?_⟩
    rw [← hr]
    simp [Layout.updateAll, hk, hv]
  · rintro ⟨r', ⟨k, hk, hv, hkk, rfl⟩, rfl⟩
    exact ⟨k, hk, hv, hkk, by simp [Layout.updateAll, hk, hv]⟩

theorem Keyed.clear {entries entries' : Nat → Entry ρ} (h : L.Keyed entries)
    (hkeep : ∀ k, (entries' k).valid = true → entries' k = entries k) : L.Keyed entries' := by
  constructor
  · intro k hk hv
    have hsame := hkeep k hv
    rw [hsame] at hv ⊢
    exact h.fits k hk hv
  · intro j hj k hk hvj hvk heq
    have hj' := hkeep j hvj
    have hk' := hkeep k hvk
    rw [hj'] at hvj heq
    rw [hk'] at hvk heq
    exact h.distinct j hj k hk hvj hvk heq

/-- Does a prune with this test clear the entry? -/
def Dropped (p : Text → ρ → Bool) (e : Entry ρ) : Bool :=
  e.valid && e.key ≠ [] && p e.key e.record

/-- The entries after a prune, before the index is rebuilt. -/
def pruned (L : Layout ρ) (t : Table ρ) (p : Text → ρ → Bool) : Table ρ :=
  { t with
    entries := fun k => if k < L.capacity ∧ Dropped p (t.entries k) then L.zeroEntry
      else t.entries k }

theorem pruned_valid {p : Text → ρ → Bool} (hv : ((L.pruned t p).entries k).valid = true) :
    (L.pruned t p).entries k = t.entries k ∧
      (k < L.capacity → Dropped p (t.entries k) = false) := by
  unfold pruned at hv ⊢
  dsimp only at hv ⊢
  split at hv
  · cases hv
  · rename_i hkeep
    rw [if_neg hkeep]
    refine ⟨rfl, ?_⟩
    intro hk
    rw [not_and, Bool.not_eq_true] at hkeep
    exact hkeep hk

/-- Pruned records leave the map. -/
theorem Keyed.contents_pruned (h : L.Keyed t.entries) (p : Text → ρ → Bool) :
    L.contents (L.pruned t p) = fun key => (L.contents t key).filter fun r => !p key r := by
  have hkeyed : L.Keyed (L.pruned t p).entries := h.clear fun k hv => (pruned_valid hv).1
  apply contents_eq_of_holds hkeyed
  intro key r
  rw [Option.filter_eq_some_iff, contents_eq_some_iff h]
  unfold Holds
  constructor
  · rintro ⟨k, hk, hv, hkey, hr⟩
    rcases pruned_valid hv with ⟨hsame, hkept⟩
    rw [hsame] at hv hkey hr
    refine ⟨⟨k, hk, hv, hkey, hr⟩, ?_⟩
    have hkept := hkept hk
    unfold Dropped at hkept
    rw [hv, hkey, hr] at hkept
    have hne : key ≠ [] := hkey ▸ (h.fits k hk hv).1
    simpa [hne] using hkept
  · rintro ⟨⟨k, hk, hv, hkey, hr⟩, hp⟩
    have hkept : Dropped p (t.entries k) = false := by
      unfold Dropped
      rw [hkey, hr]
      simpa using fun _ _ => by simpa using hp
    have hsame : (L.pruned t p).entries k = t.entries k := by
      simp [pruned, hkept]
    rw [← hsame] at hv hkey hr
    exact ⟨k, hk, hv, hkey, hr⟩

/-- Pruning filters the map. -/
theorem WellFormed.prune (h : L.WellFormed t) (p : Text → ρ → Bool) :
    L.WellFormed (L.prune t p) ∧
      L.contents (L.prune t p) = fun key => (L.contents t key).filter fun r => !p key r := by
  have hkeyed : L.Keyed (L.pruned t p).entries := h.keyed.clear fun k hv => (pruned_valid hv).1
  have hpruned := h.keyed.contents_pruned p
  by_cases hany : (L.firstEntry t (Dropped p)).isSome = true
  · have heq : L.prune t p = L.rebuild (L.pruned t p) := by
      unfold Layout.prune
      exact if_pos hany
    rw [heq, contents_rebuild]
    exact ⟨hkeyed.rebuild, hpruned⟩
  · have heq : L.prune t p = t := by
      unfold Layout.prune
      exact if_neg hany
    -- nothing meets the test, so the pruned entries are the old ones
    have hnone : ∀ k < L.capacity, Dropped p (t.entries k) = false := by
      rw [Bool.not_eq_true, Option.isSome_eq_false_iff, Option.isNone_iff_eq_none] at hany
      exact firstEntry_eq_none.mp hany
    have hsame : L.pruned t p = t := by
      unfold pruned
      congr 1
      funext k
      apply if_neg
      rintro ⟨hk, hdrop⟩
      rw [hnone k hk] at hdrop
      cases hdrop
    rw [heq]
    rw [hsame] at hpruned
    exact ⟨h, hpruned⟩

/-- An entry cleared removes its key. -/
theorem Keyed.contents_clear (h : L.Keyed t.entries) (hk : k < L.capacity)
    (hvalid : (t.entries k).valid = true) :
    L.Keyed (t.setEntry k L.zeroEntry).entries ∧ L.contents (t.setEntry k L.zeroEntry) =
      Function.update (L.contents t) (t.entries k).key none := by
  have hother : ∀ j, ((t.setEntry k L.zeroEntry).entries j).valid = true → j ≠ k := by
    intro j hv heq
    rw [heq, Table.setEntry_entries_self] at hv
    cases hv
  have hkeyed : L.Keyed (t.setEntry k L.zeroEntry).entries := by
    apply h.clear
    intro j hv
    exact t.setEntry_entries_of_ne (hother j hv) _
  refine ⟨hkeyed, ?_⟩
  apply contents_eq_of_holds hkeyed
  intro key r
  by_cases heq : key = (t.entries k).key
  · rw [heq, Function.update_self]
    constructor
    · rintro ⟨j, hj, hv, hkey, -⟩
      have hne := hother j hv
      rw [t.setEntry_entries_of_ne hne] at hv hkey
      exact absurd (h.distinct j hj k hk hv hvalid hkey) hne
    · intro hr
      cases hr
  · rw [Function.update_of_ne heq, contents_eq_some_iff h]
    constructor
    · rintro ⟨j, hj, hv, hkey, hr⟩
      have hne := hother j hv
      rw [t.setEntry_entries_of_ne hne] at hv hkey hr
      exact ⟨j, hj, hv, hkey, hr⟩
    · rintro ⟨j, hj, hv, hkey, hr⟩
      have hne : j ≠ k := by
        rintro rfl
        exact heq hkey.symm
      rw [← t.setEntry_entries_of_ne hne L.zeroEntry] at hv hkey hr
      exact ⟨j, hj, hv, hkey, hr⟩

/-- The map has as many keys as the table has records. -/
theorem Keyed.ncard_keys (h : L.Keyed t.entries) :
    (StateMap.keys (L.contents t)).ncard = (L.live t.entries).card := by
  have hkeys : StateMap.keys (L.contents t) =
      ((L.live t.entries).image fun k => (t.entries k).key : Finset Text) := by
    ext key
    rw [Finset.mem_coe, Finset.mem_image]
    unfold StateMap.keys
    rw [Set.mem_ofPred_eq, Ne, contents_eq_none_iff]
    push Not
    constructor
    · rintro ⟨k, hk, hv, hkey⟩
      exact ⟨k, mem_live.mpr ⟨hk, hv⟩, hkey⟩
    · rintro ⟨k, hmem, hkey⟩
      rcases mem_live.mp hmem with ⟨hk, hv⟩
      exact ⟨k, hk, hv, hkey⟩
  rw [hkeys, Set.ncard_coe_finset, Finset.card_image_of_injOn]
  intro j hj k hk heq
  rcases mem_live.mp hj with ⟨hj, hvj⟩
  rcases mem_live.mp hk with ⟨hk, hvk⟩
  exact h.distinct j hj k hk hvj hvk heq

theorem card_live_lt {entries : Nat → Entry ρ} (hk : k < L.capacity)
    (hfree : (entries k).valid = false) : (L.live entries).card < L.capacity := by
  have hlt : (L.live entries).card < (Finset.range L.capacity).card := by
    apply Finset.card_lt_card
    have hsub : L.live entries ⊆ Finset.range L.capacity := Finset.filter_subset _ _
    rw [Finset.ssubset_iff_of_subset hsub]
    refine ⟨k, Finset.mem_range.mpr hk, ?_⟩
    rw [mem_live, hfree]
    simp
  rwa [Finset.card_range] at hlt

theorem newEntry_key (hfits : L.Fits key) : (L.newEntry key).key = key := by
  unfold newEntry strlcpy
  have hlt := hfits.2
  exact List.take_of_length_le (by omega)

/-- A new key takes a free entry. -/
theorem WellFormed.add (h : L.WellFormed t) (hk : k < L.capacity)
    (hfree : (t.entries k).valid = false) (hfits : L.Fits key) (habsent : L.contents t key = none) :
    ∃ index, insertFrom L.slots t.index (k + 1) L.slots (L.home key) = some index ∧
      L.WellFormed { t.setEntry k (L.newEntry key) with index } ∧
      L.contents { t.setEntry k (L.newEntry key) with index } =
        Function.update (L.contents t) key (some L.zero) := by
  have hkey := newEntry_key hfits
  have hnew : k ∉ L.live t.entries := by
    rw [mem_live, hfree]
    simp
  have hcard : (L.live t.entries).card < L.slots :=
    Nat.lt_of_le_of_lt (card_live_le L t.entries) L.capacity_lt
  rw [contents_eq_none_iff] at habsent
  rcases h.indexed.exists_insertFrom hcard (k + 1) (L.home_lt key) with ⟨index, hinsert⟩
  refine ⟨index, hinsert, ?_⟩
  have hkeyed : L.Keyed (t.setEntry k (L.newEntry key)).entries := by
    constructor
    · intro j hj hv
      by_cases heq : j = k
      · rw [heq, Table.setEntry_entries_self, hkey]
        exact hfits
      · rw [t.setEntry_entries_of_ne heq] at hv ⊢
        exact h.keyed.fits j hj hv
    · intro i hi j hj hvi hvj hsame
      by_cases hik : i = k
      · by_cases hjk : j = k
        · rw [hik, hjk]
        · rw [hik, Table.setEntry_entries_self, t.setEntry_entries_of_ne hjk, hkey] at hsame
          rw [t.setEntry_entries_of_ne hjk] at hvj
          exact absurd hsame.symm (habsent j hj hvj)
      · rw [t.setEntry_entries_of_ne hik] at hvi hsame
        by_cases hjk : j = k
        · rw [hjk, Table.setEntry_entries_self, hkey] at hsame
          exact absurd hsame (habsent i hi hvi)
        · rw [t.setEntry_entries_of_ne hjk] at hvj hsame
          exact h.keyed.distinct i hi j hj hvi hvj hsame
  refine ⟨⟨hkeyed, ?_⟩, ?_⟩
  · have hlive : L.live (t.setEntry k (L.newEntry key)).entries =
        insert k (L.live t.entries) := by
      ext j
      rw [mem_live, Finset.mem_insert, mem_live]
      by_cases heq : j = k
      · rw [heq, Table.setEntry_entries_self]
        simp [newEntry, hk]
      · rw [t.setEntry_entries_of_ne heq]
        simp [heq]
    -- the home slots of the entries filed before are unchanged
    have hold : Indexed L.slots (fun j => L.home ((t.setEntry k (L.newEntry key)).entries j).key)
        (L.live t.entries) t.index := by
      apply h.indexed.congr
      intro j hj
      have hne : j ≠ k := by
        rintro rfl
        exact hnew hj
      rw [t.setEntry_entries_of_ne hne]
    have hhome : L.home ((t.setEntry k (L.newEntry key)).entries k).key = L.home key := by
      rw [Table.setEntry_entries_self, hkey]
    change Indexed L.slots _ (L.live (t.setEntry k (L.newEntry key)).entries) index
    rw [hlive]
    apply hold.insert hnew (L.home_lt _)
    rw [hhome]
    exact hinsert
  · apply contents_eq_of_holds hkeyed
    intro key' r
    unfold Holds
    by_cases heq : key' = key
    · rw [heq, Function.update_self]
      constructor
      · rintro ⟨j, hj, hv, hkj, hr⟩
        by_cases hjk : j = k
        · rw [hjk, Table.setEntry_entries_self] at hr
          rw [← hr]
          rfl
        · rw [t.setEntry_entries_of_ne hjk] at hv hkj
          exact absurd hkj (habsent j hj hv)
      · intro hr
        cases hr
        refine ⟨k, hk, ?_⟩
        rw [Table.setEntry_entries_self]
        exact ⟨rfl, hkey, rfl⟩
    · rw [Function.update_of_ne heq, contents_eq_some_iff h.keyed]
      constructor
      · rintro ⟨j, hj, hv, hkj, hr⟩
        have hjk : j ≠ k := by
          rintro rfl
          rw [Table.setEntry_entries_self, hkey] at hkj
          exact heq hkj.symm
        rw [t.setEntry_entries_of_ne hjk] at hv hkj hr
        exact ⟨j, hj, hv, hkj, hr⟩
      · rintro ⟨j, hj, hv, hkj, hr⟩
        have hjk : j ≠ k := by
          rintro rfl
          rw [hfree] at hv
          cases hv
        rw [← t.setEntry_entries_of_ne hjk (L.newEntry key)] at hv hkj hr
        exact ⟨j, hj, hv, hkj, hr⟩

theorem victim_lt (L : Layout ρ) (t : Table ρ) (prefs : List (Text → ρ → Bool)) :
    L.victim t prefs < L.capacity := by
  unfold victim
  cases hscan : prefs.findSome? fun p => L.firstEntry t fun e => e.valid && p e.key e.record with
  | none => exact L.capacity_pos
  | some k =>
    rcases List.exists_of_findSome?_eq_some hscan with ⟨p, -, hp⟩
    exact (firstEntry_eq_some hp).1

/-- What getting or creating an entry returns: an entry with the key, in a well
formed table whose map has gained the key if it was absent. -/
structure Obtained (L : Layout ρ) (t : Table ρ) (key : Text) (result : Option Nat × Table ρ)
    (k : Nat) : Prop where
  returned : result.1 = some k
  lt : k < L.capacity
  valid : (result.2.entries k).valid = true
  key_eq : (result.2.entries k).key = key
  wellFormed : L.WellFormed result.2
  map : StateMap.Upserted L.capacity L.zero key id (L.contents t) (L.contents result.2)

/-- A free slot takes a new key. -/
theorem WellFormed.obtained_add {t₀ : Table ρ} (h : L.WellFormed t) (hk : k < L.capacity)
    (hfree : (t.entries k).valid = false) (hfits : L.Fits key) (habsent : L.contents t key = none)
    (hmap : StateMap.Upserted L.capacity L.zero key id (L.contents t₀)
      (Function.update (L.contents t) key (some L.zero))) {result : Option Nat × Table ρ}
    (hresult : result = match insertFrom L.slots t.index (k + 1) L.slots (L.home key) with
      | some index => (some k, { t.setEntry k (L.newEntry key) with index })
      | none => (none, L.rebuild ((t.setEntry k (L.newEntry key)).setEntry k
          { L.newEntry key with key := [], valid := false }))) : L.Obtained t₀ key result k := by
  rcases h.add hk hfree hfits habsent with ⟨index, hinsert, hwell, hcontents⟩
  rw [hinsert] at hresult
  subst hresult
  constructor
  · rfl
  · exact hk
  · simp [newEntry]
  · simpa using newEntry_key hfits
  · exact hwell
  · rw [hcontents]
    exact hmap

/-- A key is given an entry, by eviction when there is none. -/
theorem WellFormed.create (h : L.WellFormed t) (prefs : List (Text → ρ → Bool)) (hfits : L.Fits key)
    (habsent : L.contents t key = none) : ∃ k, L.Obtained t key (L.create t prefs key) k := by
  cases hscan : L.firstEntry t fun e => !e.valid with
  | some k =>
    rcases firstEntry_eq_some hscan with ⟨hk, hfree⟩
    rw [Bool.not_eq_true'] at hfree
    have hroom : (StateMap.keys (L.contents t)).ncard < L.capacity := by
      rw [h.keyed.ncard_keys]
      exact card_live_lt hk hfree
    refine ⟨k, h.obtained_add hk hfree hfits habsent (.added habsent hroom) ?_⟩
    unfold Layout.create
    rw [hscan]
    rfl
  | none =>
    have hfull := firstEntry_eq_none.mp hscan
    simp only [Bool.not_eq_false'] at hfull
    have hk := L.victim_lt t prefs
    have hvalid := hfull _ hk
    rcases h.keyed.contents_clear hk hvalid with ⟨hkeyed, hcontents⟩
    have hwell := hkeyed.rebuild
    have hcard : (StateMap.keys (L.contents t)).ncard = L.capacity := by
      rw [h.keyed.ncard_keys]
      have hlive : L.live t.entries = Finset.range L.capacity := by
        apply Finset.filter_true_of_mem
        intro k hk
        exact hfull k (Finset.mem_range.mp hk)
      rw [hlive, Finset.card_range]
    have hheld : L.contents t (t.entries (L.victim t prefs)).key ≠ none := by
      intro hnone
      exact contents_eq_none_iff.mp hnone _ hk hvalid rfl
    have hgone : L.contents (L.rebuild (t.setEntry (L.victim t prefs) L.zeroEntry)) key =
        none := by
      rw [contents_rebuild, hcontents, Function.update_apply, habsent]
      exact ite_self none
    refine ⟨_, hwell.obtained_add hk ?_ hfits hgone ?_ ?_⟩
    · change ((t.setEntry _ _).entries _).valid = false
      rw [Table.setEntry_entries_self]
      rfl
    · rw [contents_rebuild, hcontents]
      exact .evicted _ habsent hcard hheld
    · unfold Layout.create
      rw [hscan]
      rfl

/-- Getting or creating an entry succeeds and changes the map accordingly. -/
theorem WellFormed.getOrCreate (h : L.WellFormed t) (prefs : List (Text → ρ → Bool))
    (hfits : L.Fits key) : ∃ k, L.Obtained t key (L.getOrCreate t prefs key) k := by
  unfold Layout.getOrCreate
  cases hfind : L.find t key with
  | none =>
    rw [h.find_eq] at hfind
    apply h.create prefs hfits
    unfold contents
    rw [hfind]
    rfl
  | some k =>
    rw [h.find_eq] at hfind
    rcases firstEntry_eq_some hfind with ⟨hk, hhit⟩
    rw [Bool.and_eq_true, decide_eq_true_iff] at hhit
    have hheld : L.contents t key = some (t.entries k).record :=
      (contents_eq_some_iff h.keyed).mpr ⟨k, hk, hhit.1, hhit.2, rfl⟩
    refine ⟨k, rfl, hk, hhit.1, hhit.2, h, ?_⟩
    have hsame : StateMap.Upserted L.capacity L.zero key id (L.contents t)
        (Function.update (L.contents t) key (some (t.entries k).record)) := .held hheld
    rw [← hheld, Function.update_eq_self] at hsame
    exact hsame

end Layout

/-- Changing the record that was obtained. -/
theorem StateMap.Upserted.map {capacity : Nat} {zero : ρ} {key : Text} {m m' : StateMap ρ}
    (h : StateMap.Upserted capacity zero key id m m') (f : ρ → ρ) :
    StateMap.Upserted capacity zero key f m (Function.update m' key ((m' key).map f)) := by
  cases h with
  | held hr =>
    rw [Function.update_self, Function.update_idem, Option.map_some]
    exact .held hr
  | added habsent hroom =>
    rw [Function.update_self, Function.update_idem, Option.map_some]
    exact .added habsent hroom
  | evicted victim habsent hcard hheld =>
    rw [Function.update_self, Function.update_idem, Option.map_some]
    exact .evicted victim habsent hcard hheld

namespace Layout

variable {L : Layout ρ} {t : Table ρ}

theorem upsert_table {α : Type} (L : Layout ρ) (t : Table ρ) (prefs : List (Text → ρ → Bool))
    (key : Text) (f : ρ → α × ρ) :
    (L.upsert t prefs key f).2 = (L.upsert t prefs key fun r => ((), (f r).2)).2 := by
  unfold Layout.upsert
  split <;> rfl

/-- An upsert of the table is one of the map. -/
theorem WellFormed.upsert {α : Type} (h : L.WellFormed t) (prefs : List (Text → ρ → Bool))
    {key : Text} (hfits : L.Fits key) (f : ρ → α × ρ) :
    (L.upsert t prefs key f).1.isSome = true ∧ L.WellFormed (L.upsert t prefs key f).2 ∧
      StateMap.Upserted L.capacity L.zero key (fun r => (f r).2) (L.contents t)
        (L.contents (L.upsert t prefs key f).2) := by
  rcases h.getOrCreate prefs hfits with ⟨k, hobtained⟩
  have hreturned := hobtained.returned
  unfold Layout.upsert
  split
  · rename_i k' t' hresult
    rw [hresult] at hobtained
    cases hobtained.returned
    have hwell : L.WellFormed t' := hobtained.wellFormed
    have hcontents := hwell.contents_setRecord hobtained.lt hobtained.valid
      hobtained.key_eq fun r => (f r).2
    refine ⟨rfl, hwell.setRecord k fun r => (f r).2, ?_⟩
    change StateMap.Upserted _ _ _ _ _ (L.contents (t'.setRecord k fun r => (f r).2))
    rw [hcontents]
    exact hobtained.map.map _
  · rename_i t' hresult
    rw [hresult] at hreturned
    cases hreturned

/-- Every operation keeps a table well formed and refines a step of the map. -/
theorem WellFormed.apply (h : L.WellFormed t) {op : Op ρ} (hfits : op.Fits L) :
    L.WellFormed (L.apply t op) ∧
      StateMap.Step L.capacity L.zero (L.contents t) op (L.contents (L.apply t op)) := by
  cases op with
  | query key => exact ⟨h, rfl⟩
  | modify key f => exact h.modify key f
  | upsert key prefs f => exact (h.upsert prefs hfits fun r => ((), f r)).2
  | prune p => exact h.prune p
  | updateAll f => exact h.updateAll f

theorem wellFormed_empty (L : Layout ρ) : L.WellFormed L.empty := by
  have hlive : L.live L.empty.entries = ∅ := by
    ext k
    rw [mem_live]
    simp [empty, zeroEntry]
  constructor
  · constructor
    · intro k _ hv
      cases hv
    · intro j _ k _ hv
      cases hv
  · rw [hlive]
    exact Indexed.empty L.slots _

theorem contents_empty (L : Layout ρ) : L.contents L.empty = fun _ => none := by
  funext key
  rw [contents_eq_none_iff]
  intro k _ hv
  cases hv

end Layout
end ShadowMount.StateTable
