import ShadowMount.WatchRegistry.Ownership

/-!
# Watch registry - The descriptor index

The index files the owners by the hash of their descriptors.  It is at most half
full, so that every probe meets a free slot.
-/

namespace ShadowMount.WatchRegistry
namespace Registry

open Foundation

theorem le_doubleUntil {target rounds capacity : Nat} (h : target ≤ capacity * 2 ^ rounds) :
    target ≤ doubleUntil target rounds capacity := by
  induction rounds generalizing capacity with
  | zero => simpa [doubleUntil] using h
  | succ rounds ih =>
    unfold doubleUntil
    split
    · apply ih
      rw [Nat.mul_assoc, ← Nat.pow_succ']
      exact h
    · omega

theorem doubleUntil_eq (target rounds capacity : Nat) :
    ∃ k, doubleUntil target rounds capacity = capacity * 2 ^ k := by
  induction rounds generalizing capacity with
  | zero => exact ⟨0, by simp [doubleUntil]⟩
  | succ rounds ih =>
    unfold doubleUntil
    split
    · rcases ih (capacity * 2) with ⟨k, hk⟩
      exact ⟨k + 1, by rw [hk, Nat.mul_assoc, ← Nat.pow_succ']⟩
    · exact ⟨0, by simp⟩

theorem doubleUntil_le {target rounds capacity k : Nat} (h : target ≤ capacity * 2 ^ k) :
    doubleUntil target rounds capacity ≤ capacity * 2 ^ k := by
  have hself : capacity ≤ capacity * 2 ^ k := Nat.le_mul_of_pos_right _ (Nat.two_pow_pos k)
  induction rounds generalizing capacity k with
  | zero => simpa [doubleUntil] using hself
  | succ rounds ih =>
    unfold doubleUntil
    split
    · rename_i hlt
      cases k with
      | zero => simp at h; omega
      | succ k =>
        have hstep : capacity * 2 ^ (k + 1) = capacity * 2 * 2 ^ k := by
          rw [Nat.mul_assoc, ← Nat.pow_succ']
        rw [hstep] at h ⊢
        exact ih h (Nat.le_mul_of_pos_right _ (Nat.two_pow_pos k))
    · exact hself

theorem neededCapacity_eq (n : Nat) : ∃ k, neededCapacity n = 16 * 2 ^ k :=
  doubleUntil_eq _ _ _

theorem two_mul_le_neededCapacity (n : Nat) : n * 2 ≤ neededCapacity n := by
  apply le_doubleUntil
  have hlt : n * 2 < 2 ^ (n * 2) := Nat.lt_two_pow_self
  omega

theorem neededCapacity_mono {m n : Nat} (h : m ≤ n) : neededCapacity m ≤ neededCapacity n := by
  rcases neededCapacity_eq n with ⟨k, hk⟩
  rw [hk]
  apply doubleUntil_le
  rw [← hk]
  exact Nat.le_trans (Nat.mul_le_mul_right 2 h) (two_mul_le_neededCapacity n)

theorem neededCapacity_pos (n : Nat) : 0 < neededCapacity n := by
  rcases neededCapacity_eq n with ⟨k, hk⟩
  have hpos := Nat.two_pow_pos k
  omega

variable {s : Registry}

variable (s) in
/-- The entries that own their descriptor. -/
def owners : Finset Nat := (Finset.range s.count).filter fun i => (s.records i).ownsFd = true

variable (s) in
/-- The index files exactly the owners, and is at most half full. -/
structure Current : Prop where
  indexed : Indexed s.fdIndexCapacity (fun i => s.homeSlot (s.records i).fd) s.owners s.fdIndex
  room : s.owners.card * 2 ≤ s.fdIndexCapacity

variable (s) in
/-- The shape of the index in every state: its capacity is a power of two, every
probe meets a free slot, and it is current unless it is too small for the table. -/
structure Indexing : Prop where
  power : s.fdIndexCapacity = 0 ∨ ∃ k, s.fdIndexCapacity = 2 ^ k
  free : s.fdIndexCapacity ≠ 0 → ∃ slot < s.fdIndexCapacity, s.fdIndex slot = 0
  current : s.Current ∨ s.fdIndexCapacity < neededCapacity s.count

theorem mem_owners {i : Nat} : i ∈ s.owners ↔ i < s.count ∧ (s.records i).ownsFd = true := by
  simp [owners]

theorem card_owners_le : s.owners.card ≤ s.count := by
  calc s.owners.card ≤ (Finset.range s.count).card := Finset.card_filter_le _ _
    _ = s.count := Finset.card_range _

theorem homeSlot_lt (hpos : s.fdIndexCapacity ≠ 0) (ident : Nat) :
    s.homeSlot ident < s.fdIndexCapacity :=
  Nat.mod_lt _ (Nat.pos_of_ne_zero hpos)

/-- The owners are filed one by one. -/
theorem fileOwners_spec {entries : List Nat} {live : Finset Nat}
    (h : Indexed s.fdIndexCapacity (fun i => s.homeSlot (s.records i).fd) live s.fdIndex)
    (hnodup : entries.Nodup) (hnew : ∀ i ∈ entries, i ∉ live)
    (hroom : live.card + entries.length < s.fdIndexCapacity) :
    ∃ index, fileOwners entries s = some (true, { s with fdIndex := index }) ∧
      Indexed s.fdIndexCapacity (fun i => s.homeSlot (s.records i).fd)
        (live ∪ (entries.filter fun i => (s.records i).ownsFd).toFinset) index := by
  induction entries generalizing s live with
  | nil => exact ⟨s.fdIndex, rfl, by simpa using h⟩
  | cons i entries ih =>
    rw [List.nodup_cons] at hnodup
    rw [List.length_cons] at hroom
    have hpos : s.fdIndexCapacity ≠ 0 := by omega
    unfold fileOwners
    by_cases howns : (s.entries i).ownsFd = true
    · have hrec : (s.records i).ownsFd = true := howns
      have hi := hnew i List.mem_cons_self
      rcases h.exists_insertFrom (by omega) (i + 1) (homeSlot_lt hpos (s.records i).fd) with
        ⟨index, hinsert⟩
      have hone := h.insert hi (homeSlot_lt hpos _) hinsert
      have hstep : s.insertScannerWatchFdIndexEntry (s.entries i).fd i =
          some (true, { s with fdIndex := index }) := by
        unfold insertScannerWatchFdIndexEntry
        rw [if_neg hpos]
        have hinsert' : insertFrom s.fdIndexCapacity s.fdIndex (i + 1) s.fdIndexCapacity
            (s.homeSlot (s.entries i).fd) = some index := hinsert
        rw [hinsert']
        rfl
      rw [howns, hstep]
      have hrest := ih (s := { s with fdIndex := index }) hone hnodup.2 ?_ ?_
      · rcases hrest with ⟨result, hfile, hindexed⟩
        refine ⟨result, hfile, ?_⟩
        have hlive : live ∪ ((i :: entries).filter fun i => (s.records i).ownsFd).toFinset =
            insert i live ∪ (entries.filter fun i => (s.records i).ownsFd).toFinset := by
          rw [List.filter_cons, hrec, if_pos rfl, List.toFinset_cons, Finset.union_insert,
            Finset.insert_union]
        rw [hlive]
        exact hindexed
      · intro j hj hmem
        rcases Finset.mem_insert.mp hmem with rfl | hmem
        · exact hnodup.1 hj
        · exact hnew j (List.mem_cons_of_mem i hj) hmem
      · rw [Finset.card_insert_of_notMem hi]
        show live.card + 1 + entries.length < s.fdIndexCapacity
        omega
    · have hnot : (s.entries i).ownsFd = false := by simpa using howns
      have hrec : (s.records i).ownsFd = false := hnot
      rw [hnot]
      have hfilter : (i :: entries).filter (fun i => (s.records i).ownsFd) =
          entries.filter fun i => (s.records i).ownsFd := by
        rw [List.filter_cons, hrec]
        rfl
      rw [hfilter]
      exact ih h hnodup.2 (fun j hj => hnew j (List.mem_cons_of_mem i hj)) (by omega)

/-- A rebuild ends.  It files exactly the owners in an index large enough for the
given number of entries, unless the index had to grow and could not. -/
theorem rebuild_spec (grows : Bool) {n : Nat} (hn : s.count ≤ n)
    (hpower : s.fdIndexCapacity = 0 ∨ ∃ k, s.fdIndexCapacity = 2 ^ k) :
    (s.fdIndexCapacity < neededCapacity n ∧ grows = false ∧
        s.rebuildScannerWatchFdIndexWithCount grows n = some (false, s)) ∨
      ∃ index capacity,
        s.rebuildScannerWatchFdIndexWithCount grows n =
          some (true, { s with fdIndex := index, fdIndexCapacity := capacity }) ∧
        neededCapacity n ≤ capacity ∧
        { s with fdIndex := index, fdIndexCapacity := capacity }.Current ∧
        { s with fdIndex := index, fdIndexCapacity := capacity }.Indexing := by
  unfold rebuildScannerWatchFdIndexWithCount
  by_cases hfail : s.fdIndexCapacity < neededCapacity n ∧ grows = false
  · left
    exact ⟨hfail.1, hfail.2, if_pos hfail⟩
  · right
    simp only [if_neg hfail]
    generalize hcap : (if s.fdIndexCapacity < neededCapacity n then neededCapacity n
      else s.fdIndexCapacity) = capacity
    have hneeded : neededCapacity n ≤ capacity := by
      rw [← hcap]
      split <;> omega
    have hcount : s.count * 2 ≤ capacity :=
      Nat.le_trans (Nat.mul_le_mul_right 2 hn)
        (Nat.le_trans (two_mul_le_neededCapacity n) hneeded)
    have hpos := neededCapacity_pos n
    have hpower' : capacity = 0 ∨ ∃ k, capacity = 2 ^ k := by
      rw [← hcap]
      split
      · rcases neededCapacity_eq n with ⟨k, hk⟩
        exact .inr ⟨4 + k, by rw [hk, Nat.pow_add]⟩
      · exact hpower
    have hroom : (∅ : Finset Nat).card + (List.range s.count).length < capacity := by
      rw [Finset.card_empty, List.length_range]
      omega
    rcases fileOwners_spec
        (s := { s with fdIndex := fun _ => 0, fdIndexCapacity := capacity })
        (Indexed.empty capacity _) List.nodup_range
        (fun i _ => Finset.notMem_empty i) hroom with
      ⟨index, hfile, hindexed⟩
    have howners : ∅ ∪ ((List.range s.count).filter fun i => (s.records i).ownsFd).toFinset =
        s.owners := by
      ext i
      simp [owners]
    have hcurrent : { s with fdIndex := index, fdIndexCapacity := capacity }.Current := by
      refine ⟨?_, ?_⟩
      · have hfiled : Indexed capacity (fun i => scannerWatchFdHash (s.records i).fd % capacity)
            (∅ ∪ ((List.range s.count).filter fun i => (s.records i).ownsFd).toFinset) index :=
          hindexed
        rw [howners] at hfiled
        exact hfiled
      · have hcard := card_owners_le (s := s)
        show s.owners.card * 2 ≤ capacity
        omega
    refine ⟨index, capacity, hfile, hneeded, hcurrent, hpower', ?_, .inl hcurrent⟩
    intro _
    apply hcurrent.indexed.exists_free
    have hcard := card_owners_le (s := s)
    show s.owners.card < capacity
    omega

/-- The search is one by probing. -/
theorem findFrom_eq {ident fuel slot i : Nat} (hslot : slot < s.fdIndexCapacity) (hi : i < fuel)
    (hfree : s.fdIndex (probe s.fdIndexCapacity slot i) = 0) :
    s.findFrom ident fuel slot = some (searchFrom s.fdIndexCapacity s.fdIndex
      (fun k => (s.records k).fd = ident) fuel slot) := by
  induction fuel generalizing slot i with
  | zero => omega
  | succ fuel ih =>
    unfold findFrom searchFrom
    by_cases hzero : s.fdIndex slot = 0
    · rw [if_pos hzero, if_pos hzero]
    · rw [if_neg hzero, if_neg hzero]
      by_cases hhit : (s.entries (s.fdIndex slot - 1)).fd = ident
      · have hhit' : (s.records (s.fdIndex slot - 1)).fd = ident := hhit
        rw [if_pos hhit, if_pos (by simpa using hhit')]
      · have hmiss : ¬(s.records (s.fdIndex slot - 1)).fd = ident := hhit
        rw [if_neg hhit, if_neg (by simpa using hmiss)]
        cases i with
        | zero =>
          rw [probe_zero hslot] at hfree
          exact absurd hfree hzero
        | succ i =>
          rw [← probe_succ] at hfree
          exact ih (Nat.mod_lt _ (by omega)) (by omega) hfree

theorem findScannerWatchEntryByFd_eq (h : s.Indexing) (ident : Nat) :
    s.findScannerWatchEntryByFd ident =
      some (if s.fdIndexCapacity = 0 then none
        else searchFrom s.fdIndexCapacity s.fdIndex (fun k => (s.records k).fd = ident)
          s.fdIndexCapacity (s.homeSlot ident)) := by
  unfold findScannerWatchEntryByFd
  by_cases hzero : s.fdIndexCapacity = 0
  · rw [if_pos hzero, if_pos hzero]
  · rw [if_neg hzero, if_neg hzero]
    rcases h.free hzero with ⟨slot, hslot, hfree⟩
    rcases exists_probe_eq (homeSlot_lt hzero ident) hslot with ⟨i, hi, rfl⟩
    exact findFrom_eq (homeSlot_lt hzero ident) hi hfree

/-- The search for a descriptor ends, and finds its owner if the descriptor is in
the table and nothing otherwise. -/
theorem findScannerWatchEntryByFd_spec (h : s.Indexing) (hcurrent : s.Current) (howned : s.Owned)
    (ident : Nat) :
    ∃ found, s.findScannerWatchEntryByFd ident = some found ∧
      ∀ i, found = some i ↔
        i < s.count ∧ (s.records i).ownsFd = true ∧ (s.records i).fd = ident := by
  refine ⟨_, findScannerWatchEntryByFd_eq h ident, ?_⟩
  intro i
  by_cases hzero : s.fdIndexCapacity = 0
  · rw [if_pos hzero]
    constructor
    · intro hnone
      cases hnone
    · rintro ⟨hi, howns, _⟩
      rcases hcurrent.indexed.reached i (mem_owners.mpr ⟨hi, howns⟩) with ⟨k, hk, _⟩
      omega
  · rw [if_neg hzero]
    constructor
    · intro hfound
      rcases searchFrom_eq_some (homeSlot_lt hzero ident) hfound with ⟨hhit, slot, hslot, hat⟩
      have hmem := hcurrent.indexed.sound slot hslot (by omega)
      rw [hat, Nat.add_sub_cancel] at hmem
      rcases mem_owners.mp hmem with ⟨hi, howns⟩
      exact ⟨hi, howns, by simpa using hhit⟩
    · rintro ⟨hi, howns, hfd⟩
      have hreached : ∃ found ∈ s.owners, decide ((s.records found).fd = ident) = true ∧
          searchFrom s.fdIndexCapacity s.fdIndex (fun k => (s.records k).fd = ident)
            s.fdIndexCapacity (s.homeSlot (s.records i).fd) = some found :=
        hcurrent.indexed.searchFrom (mem_owners.mpr ⟨hi, howns⟩) (decide_eq_true hfd)
          (homeSlot_lt hzero _)
      rcases hreached with ⟨found, hmem, hhit, hsearch⟩
      rcases mem_owners.mp hmem with ⟨hfound, hfowns⟩
      have hffd : (s.records found).fd = ident := by simpa using hhit
      have heq := howned.single found i hfound hi hfowns howns (hffd.trans hfd.symm)
      rw [hfd, heq] at hsearch
      exact hsearch

/-- The descriptors, the owners and the index are the same. -/
structure SameOwners (s t : Registry) : Prop where
  owners : t.owners = s.owners
  fds : ∀ i ∈ s.owners, (t.records i).fd = (s.records i).fd
  fdIndex : t.fdIndex = s.fdIndex
  fdIndexCapacity : t.fdIndexCapacity = s.fdIndexCapacity

theorem Current.congr {t : Registry} (h : s.Current) (hsame : SameOwners s t) : t.Current where
  indexed := by
    rw [hsame.owners, hsame.fdIndex, hsame.fdIndexCapacity]
    apply h.indexed.congr
    intro i hi
    unfold homeSlot
    rw [hsame.fds i hi, hsame.fdIndexCapacity]
  room := by
    rw [hsame.owners, hsame.fdIndexCapacity]
    exact h.room

theorem Indexing.congr {t : Registry} (h : s.Indexing) (hsame : SameOwners s t)
    (hcount : s.count ≤ t.count) : t.Indexing where
  power := by
    rw [hsame.fdIndexCapacity]
    exact h.power
  free := by
    rw [hsame.fdIndexCapacity, hsame.fdIndex]
    exact h.free
  current := by
    rcases h.current with hcurrent | hsmall
    · exact .inl (hcurrent.congr hsame)
    · right
      rw [hsame.fdIndexCapacity]
      exact Nat.lt_of_lt_of_le hsmall (neededCapacity_mono hcount)

theorem empty_current : Registry.empty.Current := by
  have howners : Registry.empty.owners = ∅ := rfl
  refine ⟨?_, ?_⟩
  · rw [howners]
    exact Indexed.empty 0 _
  · rw [howners]
    rfl

theorem empty_indexing : Registry.empty.Indexing where
  power := .inl rfl
  free h := absurd rfl h
  current := .inl empty_current

theorem sameOwners_share (fd : Nat) (r : Request) :
    SameOwners s (s.appendScannerWatchSubscription fd false r) := by
  have hbody := append_sameBody (s := s) fd false r
  have hrecords := append_records (s := s) fd false r
  have hcount : (s.appendScannerWatchSubscription fd false r).count = s.count + 1 := hbody.count
  have hold : ∀ i, i ≠ s.count →
      (s.appendScannerWatchSubscription fd false r).records i = s.records i := by
    intro i hi
    rw [hrecords, Function.update_of_ne hi]
  refine ⟨?_, ?_, hbody.fdIndex, hbody.fdIndexCapacity⟩
  · ext i
    rw [mem_owners, mem_owners, hcount]
    by_cases hi : i = s.count
    · rw [hi, hrecords, Function.update_self]
      simp [Request.entry, WatchEntry.unlinked]
    · rw [hold i hi]
      constructor
      · rintro ⟨hlt, howns⟩
        exact ⟨by omega, howns⟩
      · rintro ⟨hlt, howns⟩
        exact ⟨by omega, howns⟩
  · intro i hi
    have hlt := (mem_owners.mp hi).1
    rw [hold i (by omega)]

/-- A new descriptor gets its place in the index. -/
theorem Current.own (h : s.Current)
    (hpower : s.fdIndexCapacity = 0 ∨ ∃ k, s.fdIndexCapacity = 2 ^ k)
    (hroom : neededCapacity (s.count + 1) ≤ s.fdIndexCapacity) (fd : Nat) (r : Request) :
    ∃ index,
      (s.appendScannerWatchSubscription fd true r).insertScannerWatchFdIndexEntry fd s.count =
        some (true, { s.appendScannerWatchSubscription fd true r with fdIndex := index }) ∧
      { s.appendScannerWatchSubscription fd true r with fdIndex := index }.Current ∧
      { s.appendScannerWatchSubscription fd true r with fdIndex := index }.Indexing := by
  have hbody := append_sameBody (s := s) fd true r
  have hrecords := append_records (s := s) fd true r
  generalize s.appendScannerWatchSubscription fd true r = t at hbody hrecords
  have hcount : t.count = s.count + 1 := hbody.count
  have hcapacity : t.fdIndexCapacity = s.fdIndexCapacity := hbody.fdIndexCapacity
  have hindex : t.fdIndex = s.fdIndex := hbody.fdIndex
  have htwo := two_mul_le_neededCapacity (s.count + 1)
  have hpos : t.fdIndexCapacity ≠ 0 := by omega
  have hnew : s.count ∉ s.owners := by
    intro hmem
    exact absurd (mem_owners.mp hmem).1 (Nat.lt_irrefl _)
  have hhome : ∀ i ∈ s.owners, t.homeSlot (t.records i).fd = s.homeSlot (s.records i).fd := by
    intro i hi
    have hlt := (mem_owners.mp hi).1
    unfold homeSlot
    rw [hrecords, Function.update_of_ne (by omega), hcapacity]
  have hnewfd : (t.records s.count).fd = fd := by
    rw [hrecords, Function.update_self]
    rfl
  have howners : t.owners = insert s.count s.owners := by
    ext i
    rw [Finset.mem_insert, mem_owners, mem_owners, hcount, hrecords]
    by_cases hi : i = s.count
    · rw [hi, Function.update_self]
      simp [Request.entry, WatchEntry.unlinked]
    · rw [Function.update_of_ne hi]
      constructor
      · rintro ⟨hlt, howns⟩
        exact .inr ⟨by omega, howns⟩
      · rintro (heq | ⟨hlt, howns⟩)
        · exact absurd heq hi
        · exact ⟨by omega, howns⟩
  have hindexed : Indexed t.fdIndexCapacity (fun i => t.homeSlot (t.records i).fd) s.owners
      t.fdIndex := by
    rw [hindex, hcapacity]
    exact h.indexed.congr hhome
  have hcard := card_owners_le (s := s)
  rcases hindexed.exists_insertFrom (by omega) (s.count + 1) (homeSlot_lt hpos fd) with
    ⟨index, hinsert⟩
  have hone := hindexed.insert hnew (homeSlot_lt hpos _) (by rw [hnewfd]; exact hinsert)
  have hcurrent : { t with fdIndex := index }.Current := by
    refine ⟨?_, ?_⟩
    · show Indexed t.fdIndexCapacity (fun i => t.homeSlot (t.records i).fd) t.owners index
      rw [howners]
      exact hone
    · show t.owners.card * 2 ≤ t.fdIndexCapacity
      rw [howners, Finset.card_insert_of_notMem hnew]
      omega
  refine ⟨index, ?_, hcurrent, ?_, ?_, .inl hcurrent⟩
  · unfold insertScannerWatchFdIndexEntry
    rw [if_neg hpos, hinsert]
    rfl
  · show t.fdIndexCapacity = 0 ∨ ∃ k, t.fdIndexCapacity = 2 ^ k
    rw [hcapacity]
    exact hpower
  · intro _
    apply hcurrent.indexed.exists_free
    have hroom' := hcurrent.room
    have hpos' : ({ t with fdIndex := index } : Registry).fdIndexCapacity ≠ 0 := hpos
    omega

end Registry
end ShadowMount.WatchRegistry
