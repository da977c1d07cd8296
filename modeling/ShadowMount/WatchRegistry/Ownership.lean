import ShadowMount.WatchRegistry.Lists

/-!
# Watch registry - Descriptors and their owners

Subscriptions share descriptors.  Exactly one of the subscriptions of a descriptor
owns it; when the owner is removed another one takes over, and the last one closes
the descriptor.
-/

namespace ShadowMount.WatchRegistry

open Foundation

/-- The calls on every descriptor alternate: only a descriptor that is not open is
opened, and only one that is open is closed. -/
def Alternates : List FdCall → Prop
  | [] => True
  | .opened fd :: log => isOpen log fd = false ∧ Alternates log
  | .closed fd :: log => isOpen log fd = true ∧ Alternates log

theorem Alternates.count {log : List FdCall} (h : Alternates log) (fd : Nat) :
    log.count (.opened fd) = log.count (.closed fd) + if isOpen log fd then 1 else 0 := by
  induction log with
  | nil => simp [isOpen]
  | cons call log ih =>
    cases call with
    | opened x =>
      have ih := ih h.2
      by_cases hx : x = fd
      · subst hx
        simpa [isOpen, h.1] using ih
      · simpa [isOpen, hx, List.count_cons] using ih
    | closed x =>
      have ih := ih h.2
      by_cases hx : x = fd
      · subst hx
        simpa [isOpen, h.1] using ih
      · simpa [isOpen, hx, List.count_cons] using ih

/-- Closing open descriptors one by one. -/
theorem Alternates.closeAll {log : List FdCall} (h : Alternates log) {fds : List Nat}
    (hnodup : fds.Nodup) (hopen : ∀ fd ∈ fds, isOpen log fd = true) :
    Alternates ((fds.map FdCall.closed).reverse ++ log) ∧
      ∀ x, isOpen ((fds.map FdCall.closed).reverse ++ log) x = true ↔
        x ∉ fds ∧ isOpen log x = true := by
  induction fds generalizing log with
  | nil => exact ⟨h, by simp⟩
  | cons fd fds ih =>
    rw [List.nodup_cons] at hnodup
    have hclosed : Alternates (.closed fd :: log) := ⟨hopen fd List.mem_cons_self, h⟩
    have hrest : ∀ x ∈ fds, isOpen (.closed fd :: log) x = true := by
      intro x hx
      have hne : fd ≠ x := fun heq => hnodup.1 (heq ▸ hx)
      simp [isOpen, hne, hopen x (List.mem_cons_of_mem fd hx)]
    have hsplit : ((fd :: fds).map FdCall.closed).reverse ++ log =
        (fds.map FdCall.closed).reverse ++ .closed fd :: log := by
      simp
    rw [hsplit]
    refine ⟨(ih hclosed hnodup.2 hrest).1, ?_⟩
    intro x
    rw [(ih hclosed hnodup.2 hrest).2 x]
    simp only [isOpen, List.mem_cons, not_or, Bool.and_eq_true, decide_eq_true_eq, ne_eq]
    constructor
    · rintro ⟨hx, hne, hlog⟩
      exact ⟨⟨fun heq => hne heq.symm, hx⟩, hlog⟩
    · rintro ⟨⟨hne, hx⟩, hlog⟩
      exact ⟨hx, fun heq => hne heq.symm, hlog⟩

/-- Among the live indices every descriptor has exactly one owner, and the open
descriptors are the ones in the table. -/
structure OwnedOn (live : Nat → Prop) (records : Nat → WatchEntry) (log : List FdCall) :
    Prop where
  owner : ∀ i, live i → ∃ k, live k ∧ (records k).ownsFd = true ∧ (records k).fd = (records i).fd
  single : ∀ i k, live i → live k → (records i).ownsFd = true → (records k).ownsFd = true →
    (records i).fd = (records k).fd → i = k
  opened : ∀ fd, isOpen log fd = true ↔ ∃ i, live i ∧ (records i).fd = fd
  alternates : Alternates log

variable {live live' : Nat → Prop} {records records' : Nat → WatchEntry} {log : List FdCall}

theorem OwnedOn.relabel (h : OwnedOn live records log) (σ : Nat → Nat)
    (hlive : ∀ i, live' i → live (σ i))
    (hfds : ∀ i, live' i → (records' i).fd = (records (σ i)).fd)
    (howns : ∀ i, live' i → (records' i).ownsFd = (records (σ i)).ownsFd)
    (hinj : ∀ i k, live' i → live' k → σ i = σ k → i = k)
    (hsurj : ∀ k, live k → ∃ i, live' i ∧ σ i = k) : OwnedOn live' records' log where
  owner i hi := by
    rcases h.owner (σ i) (hlive i hi) with ⟨k, hk, hkowns, hfd⟩
    rcases hsurj k hk with ⟨j, hj, rfl⟩
    refine ⟨j, hj, ?_, ?_⟩
    · rw [howns j hj]
      exact hkowns
    · rw [hfds j hj, hfds i hi]
      exact hfd
  single i k hi hk hiowns hkowns hfd := by
    rw [hfds i hi, hfds k hk] at hfd
    rw [howns i hi] at hiowns
    rw [howns k hk] at hkowns
    exact hinj i k hi hk (h.single _ _ (hlive i hi) (hlive k hk) hiowns hkowns hfd)
  opened fd := by
    rw [h.opened fd]
    constructor
    · rintro ⟨k, hk, hfd⟩
      rcases hsurj k hk with ⟨j, hj, rfl⟩
      exact ⟨j, hj, (hfds j hj).trans hfd⟩
    · rintro ⟨i, hi, hfd⟩
      exact ⟨σ i, hlive i hi, (hfds i hi).symm.trans hfd⟩
  alternates := h.alternates

theorem OwnedOn.forget (h : OwnedOn live records log) {index : Nat}
    (howns : (records index).ownsFd = false) :
    OwnedOn (fun i => live i ∧ i ≠ index) records log where
  owner i hi := by
    rcases h.owner i hi.1 with ⟨k, hk, hk', hfd⟩
    refine ⟨k, ⟨hk, ?_⟩, hk', hfd⟩
    rintro rfl
    rw [howns] at hk'
    cases hk'
  single i k hi hk := h.single i k hi.1 hk.1
  opened fd := by
    rw [h.opened fd]
    constructor
    · rintro ⟨i, hi, rfl⟩
      rcases h.owner i hi with ⟨k, hk, hk', hfd⟩
      refine ⟨k, ⟨hk, ?_⟩, hfd⟩
      rintro rfl
      rw [howns] at hk'
      cases hk'
    · rintro ⟨i, hi, hfd⟩
      exact ⟨i, hi.1, hfd⟩
  alternates := h.alternates

/-- The descriptor goes to the next entry that shares it. -/
theorem OwnedOn.handOn (h : OwnedOn live records log) {index i : Nat} (hindex : live index)
    (howns : (records index).ownsFd = true) (hi : live i) (hne : i ≠ index)
    (hfd : (records i).fd = (records index).fd) {e : WatchEntry} (heowns : e.ownsFd = true)
    (hefd : e.fd = (records i).fd) :
    OwnedOn (fun k => live k ∧ k ≠ index) (Function.update records i e) log := by
  have hfds : ∀ k, (Function.update records i e k).fd = (records k).fd := by
    intro k
    by_cases hk : k = i
    · rw [hk, Function.update_self, hefd]
    · rw [Function.update_of_ne hk]
  -- the heir is the only owner of the descriptor now
  have honly : ∀ k, live k → k ≠ index → (Function.update records i e k).ownsFd = true →
      (records k).fd = (records index).fd → k = i := by
    intro k hk hki howns' hkfd
    by_contra hkne
    rw [Function.update_of_ne hkne] at howns'
    exact hki (h.single k index hk hindex howns' howns hkfd)
  constructor
  · intro k hk
    by_cases hkfd : (records k).fd = (records index).fd
    · refine ⟨i, ⟨hi, hne⟩, ?_, ?_⟩
      · rw [Function.update_self]
        exact heowns
      · rw [hfds, hfds, hfd, hkfd]
    · rcases h.owner k hk.1 with ⟨j, hj, hjowns, hjfd⟩
      have hji : j ≠ i := by
        rintro rfl
        exact hkfd (hjfd.symm.trans hfd)
      refine ⟨j, ⟨hj, ?_⟩, ?_, ?_⟩
      · rintro rfl
        exact hkfd hjfd.symm
      · rw [Function.update_of_ne hji]
        exact hjowns
      · rw [hfds, hfds]
        exact hjfd
  · intro k j hk hj hkowns hjowns hkj
    rw [hfds, hfds] at hkj
    by_cases hkfd : (records k).fd = (records index).fd
    · rw [honly k hk.1 hk.2 hkowns hkfd, honly j hj.1 hj.2 hjowns (hkj.symm.trans hkfd)]
    · have hki : k ≠ i := by
        rintro rfl
        exact hkfd hfd
      have hji : j ≠ i := by
        rintro rfl
        exact hkfd (hkj.trans hfd)
      rw [Function.update_of_ne hki] at hkowns
      rw [Function.update_of_ne hji] at hjowns
      exact h.single k j hk.1 hj.1 hkowns hjowns hkj
  · intro fd
    rw [h.opened fd]
    constructor
    · rintro ⟨k, hk, rfl⟩
      by_cases hki : k = index
      · exact ⟨i, ⟨hi, hne⟩, by rw [hfds, hki, hfd]⟩
      · exact ⟨k, ⟨hk, hki⟩, hfds k⟩
    · rintro ⟨k, hk, hkfd⟩
      rw [hfds] at hkfd
      exact ⟨k, hk.1, hkfd⟩
  · exact h.alternates

theorem OwnedOn.closeLast (h : OwnedOn live records log) {index : Nat} (hindex : live index)
    (hlast : ∀ i, live i → i ≠ index → (records i).fd ≠ (records index).fd) :
    OwnedOn (fun k => live k ∧ k ≠ index) records (.closed (records index).fd :: log) where
  owner i hi := by
    rcases h.owner i hi.1 with ⟨k, hk, hkowns, hfd⟩
    refine ⟨k, ⟨hk, ?_⟩, hkowns, hfd⟩
    rintro rfl
    exact hlast i hi.1 hi.2 hfd.symm
  single i k hi hk := h.single i k hi.1 hk.1
  opened fd := by
    have hopen := h.opened fd
    simp only [isOpen, Bool.and_eq_true, decide_eq_true_eq, ne_eq]
    constructor
    · rintro ⟨hne, hlog⟩
      rcases hopen.mp hlog with ⟨i, hi, rfl⟩
      exact ⟨i, ⟨hi, fun heq => hne (by rw [heq])⟩, rfl⟩
    · rintro ⟨i, ⟨hi, hne⟩, rfl⟩
      exact ⟨fun heq => hlast i hi hne heq.symm, hopen.mpr ⟨i, hi, rfl⟩⟩
  alternates := ⟨(h.opened _).mpr ⟨index, hindex, rfl⟩, h.alternates⟩

namespace Registry

variable {s : Registry}
variable {t : Registry} {index i count : Nat}

variable (s) in
/-- Every descriptor in the table has exactly one owner, the open descriptors are
the ones in the table, and the calls on each of them alternate. -/
def Owned : Prop := OwnedOn (fun i => i < s.count) s.records s.log

theorem empty_owned : Registry.empty.Owned where
  owner i hi := absurd hi (Nat.not_lt_zero i)
  single i _ hi := absurd hi (Nat.not_lt_zero i)
  opened fd := by simp [Registry.empty, isOpen]
  alternates := trivial

theorem Owned.congr (h : s.Owned) (hcount : t.count = s.count)
    (hfds : ∀ i, (t.records i).fd = (s.records i).fd)
    (howns : ∀ i, (t.records i).ownsFd = (s.records i).ownsFd) (hlog : t.log = s.log) :
    t.Owned := by
  unfold Owned
  rw [hcount, hlog]
  exact OwnedOn.relabel h id (fun _ hi => hi) (fun i _ => hfds i) (fun i _ => howns i)
    (fun _ _ _ _ heq => heq) (fun k hk => ⟨k, hk, rfl⟩)

theorem heir_eq_some (h : s.heir index = some i) :
    i < s.count ∧ i ≠ index ∧ (s.entries i).fd = (s.entries index).fd := by
  have hfound := List.find?_some h
  have hmem := List.mem_of_find?_eq_some h
  simp only [Bool.and_eq_true, decide_eq_true_eq, ne_eq] at hfound
  exact ⟨List.mem_range.mp hmem, hfound⟩

theorem heir_eq_none (h : s.heir index = none) :
    ∀ i < s.count, i ≠ index → (s.entries i).fd ≠ (s.entries index).fd := by
  intro i hi hne hfd
  have hnot := List.find?_eq_none.mp h i (List.mem_range.mpr hi)
  simp [hne, hfd] at hnot

/-- Handing the descriptor of an entry on, or closing it, frees the entry. -/
theorem Owned.releaseFd (h : s.Owned) (hindex : index < s.count) :
    OwnedOn (fun i => i < s.count ∧ i ≠ index) (s.releaseFd index).records
      (s.releaseFd index).log := by
  unfold Registry.releaseFd
  by_cases howns : (s.entries index).ownsFd = true
  · rw [howns]
    simp only [Bool.not_true, Bool.false_eq_true, if_false]
    cases hheir : s.heir index with
    | some i =>
      rcases heir_eq_some hheir with ⟨hi, hne, hfd⟩
      have hon := OwnedOn.handOn h hindex howns hi hne hfd
        (e := { s.entries i with ownsFd := true }.unlinked) rfl rfl
      rw [modifyEntry_records]
      exact hon
    | none =>
      exact OwnedOn.closeLast h hindex (heir_eq_none hheir)
  · have hnot : (s.entries index).ownsFd = false := by simpa using howns
    rw [hnot]
    simp only [Bool.not_false, if_true]
    exact OwnedOn.forget h hnot

/-- The entry that stands at an index after another one was removed. -/
def movedFrom (count index i : Nat) : Nat := if i = index then count - 1 else i

theorem movedFrom_lt (hindex : index < count) (hi : i < count - 1) :
    movedFrom count index i < count ∧ movedFrom count index i ≠ index := by
  unfold movedFrom
  split <;> omega

theorem movedFrom_inj {k : Nat} (hi : i < count - 1) (hk : k < count - 1)
    (heq : movedFrom count index i = movedFrom count index k) : i = k := by
  unfold movedFrom at heq
  split at heq <;> split at heq <;> omega

theorem exists_movedFrom {k : Nat} (hindex : index < count) (hk : k < count) (hne : k ≠ index) :
    ∃ i < count - 1, movedFrom count index i = k := by
  unfold movedFrom
  by_cases hlast : k = count - 1
  · exact ⟨index, by omega, by simp [hlast]⟩
  · exact ⟨k, by omega, if_neg hne⟩

/-- Where the entries stand after the hole was filled. -/
theorem dropLast_moveLast_records (hi : i < s.count - 1) :
    (s.moveLast index).dropLast.records i = s.records (movedFrom s.count index i) := by
  have hmoved := moveLast_moved (s := s) index
  have hdrop : (s.moveLast index).dropLast.records i = (s.moveLast index).records i := by
    have hcount := hmoved.count
    have hne : i ≠ (s.moveLast index).count - 1 := by omega
    simp [Registry.dropLast, Registry.records, modifyEntry, hne]
  rw [hdrop, hmoved.records]
  unfold movedFrom
  by_cases hi' : i = index
  · rw [hi', Function.update_self, if_pos rfl]
  · rw [Function.update_of_ne hi', if_neg hi']

/-- A registry after an entry was removed. -/
structure Removed (s t : Registry) (index : Nat) : Prop where
  count : t.count = s.count - 1
  fdIndex : t.fdIndex = s.fdIndex
  fdIndexCapacity : t.fdIndexCapacity = s.fdIndexCapacity
  /-- The other entries are there, with perhaps another owner among them. -/
  records : ∀ i < s.count - 1, ∃ owns,
    t.records i = { s.records (movedFrom s.count index i) with ownsFd := owns }

theorem releaseFd_records (index i : Nat) :
    ∃ owns, (s.releaseFd index).records i = { s.records i with ownsFd := owns } := by
  unfold releaseFd
  split
  · exact ⟨_, rfl⟩
  · split
    · rename_i k _
      rw [modifyEntry_records]
      by_cases hi : i = k
      · rw [hi, Function.update_self]
        exact ⟨true, rfl⟩
      · rw [Function.update_of_ne hi]
        exact ⟨_, rfl⟩
    · exact ⟨_, rfl⟩

theorem moveLast_fdIndex (index : Nat) : (s.moveLast index).fdIndex = s.fdIndex ∧
    (s.moveLast index).fdIndexCapacity = s.fdIndexCapacity := by
  unfold moveLast
  by_cases hlast : index ≠ s.count - 1
  · simp only [if_pos hlast]
    have hbody := rebindScannerWatchEntryRootIndex_sameBody (s.count - 1) index
      (s := s.modifyEntry index fun _ => s.entries (s.count - 1))
    exact ⟨hbody.fdIndex, hbody.fdIndexCapacity⟩
  · rw [if_neg hlast]
    exact ⟨rfl, rfl⟩

theorem releaseFd_fdIndex (index : Nat) : (s.releaseFd index).fdIndex = s.fdIndex ∧
    (s.releaseFd index).fdIndexCapacity = s.fdIndexCapacity := by
  unfold releaseFd
  by_cases howns : (!(s.entries index).ownsFd) = true
  · rw [if_pos howns]
    exact ⟨rfl, rfl⟩
  · rw [if_neg howns]
    cases s.heir index with
    | none => exact ⟨rfl, rfl⟩
    | some i => exact ⟨rfl, rfl⟩

theorem removeAt_removed (hindex : index < s.count) :
    Removed s (s.removeScannerWatchEntryAt index) index := by
  rw [removeScannerWatchEntryAt_of_lt hindex]
  have hbody := unlinkScannerWatchEntryFromRoot_sameBody (s := s) index
  generalize s.unlinkScannerWatchEntryFromRoot index = u at hbody
  have hcount := (releaseFd_count (s := u) index).trans hbody.count
  have hrelease := releaseFd_fdIndex (s := u) index
  have hmove := moveLast_fdIndex (s := u.releaseFd index) index
  constructor
  · show ((u.releaseFd index).moveLast index).count - 1 = s.count - 1
    rw [(moveLast_moved index).count, hcount]
  · exact (hmove.1.trans hrelease.1).trans hbody.fdIndex
  · exact (hmove.2.trans hrelease.2).trans hbody.fdIndexCapacity
  · intro i hi
    rw [dropLast_moveLast_records (hcount ▸ hi), hcount]
    rcases releaseFd_records (s := u) index (movedFrom s.count index i) with ⟨owns, howns⟩
    exact ⟨owns, by rw [howns, hbody.records]⟩

/-- Removing an entry hands its descriptor on, or closes it if no other entry has
it. -/
theorem Owned.removeAt (h : s.Owned) (index : Nat) : (s.removeScannerWatchEntryAt index).Owned := by
  by_cases hindex : s.count ≤ index
  · unfold removeScannerWatchEntryAt
    rw [if_pos hindex]
    exact h
  · have hindex := Nat.lt_of_not_le hindex
    have hremoved := (removeAt_removed hindex).count
    rw [removeScannerWatchEntryAt_of_lt hindex] at hremoved ⊢
    have hbody := unlinkScannerWatchEntryFromRoot_sameBody (s := s) index
    generalize s.unlinkScannerWatchEntryFromRoot index = u at hbody hremoved
    have howned : u.Owned := h.congr hbody.count (fun i => by rw [hbody.records])
      (fun i => by rw [hbody.records]) hbody.log
    have hreleased := howned.releaseFd (hbody.count ▸ hindex)
    have hcount := (releaseFd_count (s := u) index).trans hbody.count
    rw [hbody.count] at hreleased
    generalize u.releaseFd index = v at hreleased hcount hremoved
    have hrecords : ∀ i < s.count - 1, (v.moveLast index).dropLast.records i =
        v.records (movedFrom s.count index i) := by
      intro i hi
      rw [dropLast_moveLast_records (hcount ▸ hi), hcount]
    have hlog : (v.moveLast index).dropLast.log = v.log := (moveLast_moved index).log
    unfold Owned
    rw [hremoved, hlog]
    refine hreleased.relabel (movedFrom s.count index) ?_ ?_ ?_ ?_ ?_
    · intro i hi
      exact movedFrom_lt hindex hi
    · intro i hi
      rw [hrecords i hi]
    · intro i hi
      rw [hrecords i hi]
    · intro i k hi hk heq
      exact movedFrom_inj hi hk heq
    · intro k hk
      exact exists_movedFrom hindex hk.1 hk.2

/-- Clearing the registry closes every descriptor once. -/
theorem Owned.clear (h : s.Owned) : s.clearScannerWatchEntries.Owned := by
  have hnodup : (((List.range s.count).filter fun i => (s.entries i).ownsFd).map fun i =>
      (s.entries i).fd).Nodup := by
    refine List.Nodup.map_on ?_ (List.nodup_range.filter _)
    intro i hi k hk hfd
    rw [List.mem_filter, List.mem_range] at hi hk
    exact h.single i k hi.1 hk.1 hi.2 hk.2 hfd
  have hopen : ∀ fd ∈ ((List.range s.count).filter fun i => (s.entries i).ownsFd).map fun i =>
      (s.entries i).fd, isOpen s.log fd = true := by
    intro fd hfd
    rcases List.mem_map.mp hfd with ⟨i, hi, rfl⟩
    rw [List.mem_filter, List.mem_range] at hi
    exact (h.opened _).mpr ⟨i, hi.1, rfl⟩
  have hall := h.alternates.closeAll hnodup hopen
  have hlog : s.clearScannerWatchEntries.log =
      ((((List.range s.count).filter fun i => (s.entries i).ownsFd).map fun i =>
        (s.entries i).fd).map FdCall.closed).reverse ++ s.log := by
    unfold clearScannerWatchEntries
    rw [List.map_map]
    rfl
  unfold Owned
  rw [hlog]
  refine ⟨?_, ?_, ?_, hall.1⟩
  · intro i hi
    exact absurd hi (Nat.not_lt_zero i)
  · intro i _ hi
    exact absurd hi (Nat.not_lt_zero i)
  · intro fd
    rw [hall.2 fd]
    constructor
    · rintro ⟨hnot, hfd⟩
      rcases (h.opened fd).mp hfd with ⟨i, hi, rfl⟩
      rcases h.owner i hi with ⟨k, hk, hkowns, hkfd⟩
      refine absurd (List.mem_map.mpr ⟨k, ?_, hkfd⟩) hnot
      rw [List.mem_filter, List.mem_range]
      exact ⟨hk, hkowns⟩
    · rintro ⟨i, hi, _⟩
      exact absurd hi (Nat.not_lt_zero i)

theorem append_sameBody (fd : Nat) (ownsFd : Bool) (r : Request) :
    SameBody (s.pushEntry (r.entry fd ownsFd)) (s.appendScannerWatchSubscription fd ownsFd r) :=
  linkScannerWatchEntryToRoot_sameBody s.count

theorem pushEntry_records (e : WatchEntry) :
    (s.pushEntry e).records = Function.update s.records s.count e.unlinked := by
  funext i
  by_cases hi : i = s.count
  · rw [hi, Function.update_self]
    unfold records
    rw [pushEntry_entries_self]
  · rw [Function.update_of_ne hi]
    unfold records
    rw [pushEntry_entries_of_ne e hi]

theorem append_records (fd : Nat) (ownsFd : Bool) (r : Request) :
    (s.appendScannerWatchSubscription fd ownsFd r).records =
      Function.update s.records s.count (r.entry fd ownsFd).unlinked :=
  (append_sameBody fd ownsFd r).records.trans (pushEntry_records _)

theorem Owned.reopen (h : s.Owned) {fd : Nat} (hfresh : isOpen s.log fd = false)
    (hrecords : t.records = s.records) (hcount : t.count = s.count)
    (hlog : t.log = .closed fd :: .opened fd :: s.log) : t.Owned := by
  unfold Owned
  rw [hrecords, hcount, hlog]
  refine ⟨h.owner, h.single, ?_, ?_⟩
  · intro x
    rw [← h.opened x]
    by_cases hx : fd = x
    · subst hx
      simp [isOpen, hfresh]
    · simp [isOpen, hx]
  · exact ⟨by simp [isOpen], hfresh, h.alternates⟩

/-- A new subscription of a descriptor in the table. -/
theorem Owned.share (h : s.Owned) (hi : i < s.count) (r : Request) :
    (s.appendScannerWatchSubscription (s.records i).fd false r).Owned := by
  have hbody := append_sameBody (s := s) (s.records i).fd false r
  unfold Owned
  rw [append_records, hbody.count, hbody.log]
  show OwnedOn (fun k => k < s.count + 1) _ s.log
  have hold : ∀ {k : Nat}, k < s.count → Function.update s.records s.count
      (r.entry (s.records i).fd false).unlinked k = s.records k := by
    intro k hk
    exact Function.update_of_ne (by omega) _ _
  have hnew : Function.update s.records s.count (r.entry (s.records i).fd false).unlinked
      s.count = (r.entry (s.records i).fd false).unlinked := Function.update_self _ _ _
  have howner : ∀ {k : Nat}, k < s.count + 1 → (Function.update s.records s.count
      (r.entry (s.records i).fd false).unlinked k).ownsFd = true → k < s.count := by
    intro k hk howns
    by_contra hge
    have heq : k = s.count := by omega
    rw [heq, hnew] at howns
    cases howns
  -- a new entry has the descriptor of an old one
  have hfd : ∀ {k : Nat}, k < s.count + 1 → ∃ j < s.count, (s.records j).fd =
      (Function.update s.records s.count (r.entry (s.records i).fd false).unlinked k).fd := by
    intro k hk
    by_cases hlt : k < s.count
    · exact ⟨k, hlt, by rw [hold hlt]⟩
    · have heq : k = s.count := by omega
      rw [heq, hnew]
      exact ⟨i, hi, rfl⟩
  constructor
  · intro k hk
    rcases hfd hk with ⟨j, hj, hjk⟩
    rcases h.owner j hj with ⟨o, ho, hoowns, hofd⟩
    refine ⟨o, Nat.lt_succ_of_lt ho, ?_, ?_⟩
    · rw [hold ho]
      exact hoowns
    · rw [hold ho, ← hjk]
      exact hofd
  · intro k j hk hj hkowns hjowns hkj
    have hk' := howner hk hkowns
    have hj' := howner hj hjowns
    rw [hold hk'] at hkowns hkj
    rw [hold hj'] at hjowns hkj
    exact h.single k j hk' hj' hkowns hjowns hkj
  · intro fd
    rw [h.opened fd]
    constructor
    · rintro ⟨k, hk, hkfd⟩
      exact ⟨k, Nat.lt_succ_of_lt hk, by rw [hold hk]; exact hkfd⟩
    · rintro ⟨k, hk, hkfd⟩
      rcases hfd hk with ⟨j, hj, hjk⟩
      exact ⟨j, hj, hjk.trans hkfd⟩
  · exact h.alternates

/-- A new subscription of a descriptor of its own. -/
theorem Owned.own (h : s.Owned) {fd : Nat} (hfresh : isOpen s.log fd = false)
    (hrecords : t.records = s.records) (hcount : t.count = s.count)
    (hlog : t.log = .opened fd :: s.log) (r : Request) :
    (t.appendScannerWatchSubscription fd true r).Owned := by
  have hbody := append_sameBody (s := t) fd true r
  have hnot : ∀ i < s.count, (s.records i).fd ≠ fd := by
    intro i hi heq
    have hopen := (h.opened fd).mpr ⟨i, hi, heq⟩
    rw [hfresh] at hopen
    cases hopen
  have hold : ∀ {k : Nat}, k < s.count → Function.update s.records s.count
      (r.entry fd true).unlinked k = s.records k := by
    intro k hk
    exact Function.update_of_ne (by omega) _ _
  have hnew : Function.update s.records s.count (r.entry fd true).unlinked s.count =
      (r.entry fd true).unlinked := Function.update_self _ _ _
  have hcount' : (t.pushEntry (r.entry fd true)).count = s.count + 1 := by
    rw [← hcount]
    rfl
  unfold Owned
  rw [append_records, hbody.count, hbody.log, hrecords, hcount, hcount']
  show OwnedOn (fun k => k < s.count + 1) _ t.log
  rw [hlog]
  have hcases : ∀ {k : Nat}, k < s.count + 1 → k < s.count ∨ k = s.count := by
    intro k hk
    omega
  constructor
  · intro k hk
    rcases hcases hk with hk' | rfl
    · rcases h.owner k hk' with ⟨o, ho, hoowns, hofd⟩
      refine ⟨o, Nat.lt_succ_of_lt ho, ?_, ?_⟩
      · rw [hold ho]
        exact hoowns
      · rw [hold ho, hold hk']
        exact hofd
    · refine ⟨s.count, Nat.lt_succ_self _, ?_, rfl⟩
      rw [hnew]
      rfl
  · intro k j hk hj hkowns hjowns hkj
    rcases hcases hk with hk' | rfl
    · rcases hcases hj with hj' | rfl
      · rw [hold hk'] at hkowns hkj
        rw [hold hj'] at hjowns hkj
        exact h.single k j hk' hj' hkowns hjowns hkj
      · rw [hold hk', hnew] at hkj
        exact absurd hkj (hnot k hk')
    · rcases hcases hj with hj' | rfl
      · rw [hold hj', hnew] at hkj
        exact absurd hkj.symm (hnot j hj')
      · rfl
  · intro x
    simp only [isOpen, Bool.or_eq_true, decide_eq_true_eq]
    rw [h.opened x]
    constructor
    · rintro (rfl | ⟨k, hk, hkfd⟩)
      · exact ⟨s.count, Nat.lt_succ_self _, by rw [hnew]; rfl⟩
      · exact ⟨k, Nat.lt_succ_of_lt hk, by rw [hold hk]; exact hkfd⟩
    · rintro ⟨k, hk, hkfd⟩
      rcases hcases hk with hk' | rfl
      · rw [hold hk'] at hkfd
        exact Or.inr ⟨k, hk', hkfd⟩
      · rw [hnew] at hkfd
        exact Or.inl hkfd
  · exact ⟨hfresh, h.alternates⟩

end Registry
end ShadowMount.WatchRegistry
