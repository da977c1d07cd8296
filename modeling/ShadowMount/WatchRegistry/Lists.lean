import ShadowMount.WatchRegistry.Model

/-!
# Watch registry - The lists of the scan roots

What the operations of the registry do to the links, and what they leave alone.
-/

namespace ShadowMount.WatchRegistry

open Foundation

/-- An entry without its links. -/
def WatchEntry.unlinked (e : WatchEntry) : WatchEntry :=
  { e with prevRootWatchIndex := none, nextRootWatchIndex := none }

namespace Registry

variable (s : Registry)
variable {t : Registry} {i index : Nat} {root : Fin maxScanPaths}

/-- The links of the entries and the heads of the lists. -/
def links : Links Nat (Fin maxScanPaths) where
  prev i := (s.entries i).prevRootWatchIndex
  next i := (s.entries i).nextRootWatchIndex
  heads := s.heads

/-- The entries without their links. -/
def records (i : Nat) : WatchEntry := (s.entries i).unlinked

/-- The list that an index belongs to. -/
def belongs (i : Nat) : Option (Fin maxScanPaths) :=
  if i < s.count then (s.records i).scanRootIndex else none

/-- Every root's list holds exactly the entries of the root, once each, with links
that agree in both directions. -/
def Listed : Prop := Chained s.links s.belongs

/-- The lists are right but for one entry, which is in no list. -/
def ListedBut (index : Nat) : Prop :=
  Chained s.links (Function.update s.belongs index none)

variable {s}

@[simp]
theorem setPrev_links (cell value : Option Nat) :
    (s.setPrev cell value).links = { s.links with prev := relink s.links.prev cell value } := by
  cases cell with
  | none => simp [setPrev]
  | some c =>
    ext i : 2
    · by_cases hi : i = c
      · simp [setPrev, modifyEntry, links, relink, hi]
      · simp [setPrev, modifyEntry, links, relink, hi]
    · by_cases hi : i = c
      · simp [setPrev, modifyEntry, links, hi]
      · simp [setPrev, modifyEntry, links, hi]
    · rfl

@[simp]
theorem setNext_links (cell value : Option Nat) :
    (s.setNext cell value).links = { s.links with next := relink s.links.next cell value } := by
  cases cell with
  | none => simp [setNext]
  | some c =>
    ext i : 2
    · by_cases hi : i = c
      · simp [setNext, modifyEntry, links, hi]
      · simp [setNext, modifyEntry, links, hi]
    · by_cases hi : i = c
      · simp [setNext, modifyEntry, links, relink, hi]
      · simp [setNext, modifyEntry, links, relink, hi]
    · rfl

@[simp]
theorem setHead_links (root : Fin maxScanPaths) (value : Option Nat) :
    (s.setHead root value).links =
      { s.links with heads := Function.update s.links.heads root value } := rfl

/-- The parts of the registry other than the links. -/
structure SameBody (s t : Registry) : Prop where
  records : t.records = s.records
  count : t.count = s.count
  capacity : t.capacity = s.capacity
  fdIndex : t.fdIndex = s.fdIndex
  fdIndexCapacity : t.fdIndexCapacity = s.fdIndexCapacity
  log : t.log = s.log

theorem SameBody.refl (s : Registry) : SameBody s s := ⟨rfl, rfl, rfl, rfl, rfl, rfl⟩

theorem SameBody.trans {s u : Registry} (h : SameBody s t) (h' : SameBody t u) : SameBody s u where
  records := h'.records.trans h.records
  count := h'.count.trans h.count
  capacity := h'.capacity.trans h.capacity
  fdIndex := h'.fdIndex.trans h.fdIndex
  fdIndexCapacity := h'.fdIndexCapacity.trans h.fdIndexCapacity
  log := h'.log.trans h.log

theorem SameBody.belongs {s : Registry} (h : SameBody s t) : t.belongs = s.belongs := by
  unfold Registry.belongs
  rw [h.records, h.count]

theorem modifyEntry_sameBody {f : WatchEntry → WatchEntry}
    (hf : (f (s.entries i)).unlinked = (s.entries i).unlinked) :
    SameBody s (s.modifyEntry i f) := by
  refine ⟨?_, rfl, rfl, rfl, rfl, rfl⟩
  funext k
  by_cases hk : k = i
  · subst hk
    simpa [Registry.records, modifyEntry] using hf
  · simp [Registry.records, modifyEntry, hk]

theorem setPrev_sameBody (cell value : Option Nat) : SameBody s (s.setPrev cell value) := by
  cases cell with
  | none => exact SameBody.refl s
  | some c =>
    unfold setPrev
    apply modifyEntry_sameBody
    rfl

theorem setNext_sameBody (cell value : Option Nat) : SameBody s (s.setNext cell value) := by
  cases cell with
  | none => exact SameBody.refl s
  | some c =>
    unfold setNext
    apply modifyEntry_sameBody
    rfl

theorem setHead_sameBody (root : Fin maxScanPaths) (value : Option Nat) :
    SameBody s (s.setHead root value) := ⟨rfl, rfl, rfl, rfl, rfl, rfl⟩

theorem records_scanRootIndex (i : Nat) :
    (s.records i).scanRootIndex = (s.entries i).scanRootIndex := rfl

theorem belongs_of_lt (hi : i < s.count) : s.belongs i = (s.entries i).scanRootIndex := by
  unfold belongs
  rw [if_pos hi, records_scanRootIndex]

theorem belongs_of_le (hi : s.count ≤ i) : s.belongs i = none := by
  unfold belongs
  rw [if_neg (by omega)]

theorem linkScannerWatchEntryToRoot_sameBody (index : Nat) :
    SameBody s (s.linkScannerWatchEntryToRoot index) := by
  unfold linkScannerWatchEntryToRoot
  split
  · exact SameBody.refl s
  · exact (((setPrev_sameBody _ _).trans (setNext_sameBody _ _)).trans
      (setPrev_sameBody _ _)).trans (setHead_sameBody _ _)

/-- Linking an entry links it in the chain of its root. -/
theorem linkScannerWatchEntryToRoot_links (hroot : (s.entries index).scanRootIndex = some root) :
    (s.linkScannerWatchEntryToRoot index).links = s.links.link root index := by
  unfold linkScannerWatchEntryToRoot
  rw [hroot]
  simp only [setHead_links, setPrev_links, setNext_links, Links.link]
  rfl

theorem unlinkScannerWatchEntryFromRoot_sameBody (index : Nat) :
    SameBody s (s.unlinkScannerWatchEntryFromRoot index) := by
  unfold unlinkScannerWatchEntryFromRoot
  split
  · exact SameBody.refl s
  · cases (s.entries index).prevRootWatchIndex with
    | none =>
      exact (((setHead_sameBody _ _).trans (setPrev_sameBody _ _)).trans
        (setPrev_sameBody _ _)).trans (setNext_sameBody _ _)
    | some p =>
      exact (((setNext_sameBody _ _).trans (setPrev_sameBody _ _)).trans
        (setPrev_sameBody _ _)).trans (setNext_sameBody _ _)

/-- Unlinking an entry unlinks it in the chain of its root. -/
theorem unlinkScannerWatchEntryFromRoot_links (hroot : (s.entries index).scanRootIndex = some root)
    (hself : s.links.prev index ≠ some index) :
    (s.unlinkScannerWatchEntryFromRoot index).links = s.links.unlink root index := by
  unfold unlinkScannerWatchEntryFromRoot
  rw [hroot]
  have hfields : ∀ t : Registry, (t.entries index).nextRootWatchIndex = t.links.next index ∧
      (t.entries index).prevRootWatchIndex = t.links.prev index := fun t => ⟨rfl, rfl⟩
  cases hprev : (s.entries index).prevRootWatchIndex with
  | none =>
    have hlink : s.links.prev index = none := hprev
    simp only [hfields, setHead_links, setPrev_links, setNext_links, Links.unlink, hlink,
      relink_none, if_pos]
  | some p =>
    have hlink : s.links.prev index = some p := hprev
    rw [hlink] at hself
    simp only [hfields, setPrev_links, setNext_links, Links.unlink, hlink,
      relink_of_ne _ (Ne.symm hself), reduceCtorEq, if_false]

theorem rebindScannerWatchEntryRootIndex_sameBody (oldIndex newIndex : Nat) :
    SameBody s (s.rebindScannerWatchEntryRootIndex oldIndex newIndex) := by
  unfold rebindScannerWatchEntryRootIndex
  split
  · exact SameBody.refl s
  · rename_i root _
    by_cases hhead : s.heads root = some oldIndex
    · simp only [if_pos hhead]
      exact ((setHead_sameBody _ _).trans (setNext_sameBody _ _)).trans (setPrev_sameBody _ _)
    · simp only [if_neg hhead]
      exact (setNext_sameBody _ _).trans (setPrev_sameBody _ _)

/-- The links of the last entry are rebound to its new place. -/
theorem rebind_copy_links {last : Nat} (hroot : (s.entries last).scanRootIndex = some root)
    (hprev : s.links.prev last ≠ some index) :
    ((s.modifyEntry index fun _ => s.entries last).rebindScannerWatchEntryRootIndex last
      index).links = s.links.rebind root last index := by
  have hcopy : (s.modifyEntry index fun _ => s.entries last).links =
      { s.links with
        prev := relink s.links.prev (some index) (s.links.prev last)
        next := relink s.links.next (some index) (s.links.next last) } := by
    ext i : 2
    · by_cases hi : i = index
      · simp [modifyEntry, links, relink, hi]
      · simp [modifyEntry, links, relink, hi]
    · by_cases hi : i = index
      · simp [modifyEntry, links, relink, hi]
      · simp [modifyEntry, links, relink, hi]
    · rfl
  have hindex : ((s.modifyEntry index fun _ => s.entries last).entries index).scanRootIndex =
      some root := by
    simpa [modifyEntry] using hroot
  generalize (s.modifyEntry index fun _ => s.entries last) = t at hcopy hindex
  unfold rebindScannerWatchEntryRootIndex
  rw [hindex]
  have hfields : ∀ t : Registry, (t.entries index).nextRootWatchIndex = t.links.next index ∧
      (t.entries index).prevRootWatchIndex = t.links.prev index := fun t => ⟨rfl, rfl⟩
  have hheads : t.heads = s.links.heads := congrArg Links.heads hcopy
  by_cases hhead : t.heads root = some last
  · have hhead' : s.links.heads root = some last := hheads ▸ hhead
    simp only [if_pos hhead, hfields, setHead_links, setPrev_links, setNext_links, hcopy,
      relink_self, relink_of_ne _ (Ne.symm hprev), Links.rebind, if_pos hhead']
  · have hhead' : ¬s.links.heads root = some last := hheads ▸ hhead
    simp only [if_neg hhead, hfields, setPrev_links, setNext_links, hcopy,
      relink_self, relink_of_ne _ (Ne.symm hprev), Links.rebind, if_neg hhead']

/-- The empty registry has empty chains. -/
theorem empty_listed : Registry.empty.Listed := by
  have hbelongs : Registry.empty.belongs = fun _ => none := by
    funext i
    exact belongs_of_le (Nat.zero_le i)
  unfold Listed
  rw [hbelongs]
  exact .empty fun _ => rfl

theorem Listed.congr (h : s.Listed) (hlinks : t.links = s.links)
    (hbelongs : t.belongs = s.belongs) : t.Listed := by
  unfold Listed at h ⊢
  rw [hlinks, hbelongs]
  exact h

theorem pushEntry_entries_self (e : WatchEntry) : (s.pushEntry e).entries s.count = e := by
  simp [pushEntry]

theorem pushEntry_entries_of_ne (e : WatchEntry) (hi : i ≠ s.count) :
    (s.pushEntry e).entries i = s.entries i := by
  simp [pushEntry, hi]

theorem pushEntry_belongs (e : WatchEntry) :
    (s.pushEntry e).belongs = Function.update s.belongs s.count e.scanRootIndex := by
  have hcount : (s.pushEntry e).count = s.count + 1 := rfl
  funext i
  by_cases hi : i = s.count
  · rw [hi, Function.update_self, belongs_of_lt (by omega), pushEntry_entries_self]
  · rw [Function.update_of_ne hi]
    by_cases hlt : i < s.count
    · rw [belongs_of_lt (by omega), belongs_of_lt hlt, pushEntry_entries_of_ne e hi]
    · rw [belongs_of_le (by omega), belongs_of_le (by omega)]

/-- A pushed entry is in no chain yet. -/
theorem Listed.pushEntry (h : s.Listed) (e : WatchEntry) :
    Chained (s.pushEntry e).links s.belongs := by
  have hkeep : ∀ i, s.belongs i ≠ none → (s.pushEntry e).entries i = s.entries i := by
    intro i hi
    apply pushEntry_entries_of_ne
    intro heq
    exact hi (belongs_of_le (by omega))
  refine .congr h rfl ?_ ?_
  · intro i hi
    exact congrArg WatchEntry.prevRootWatchIndex (hkeep i hi)
  · intro i hi
    exact congrArg WatchEntry.nextRootWatchIndex (hkeep i hi)

/-- A new subscription is linked into the list of its root. -/
theorem Listed.append (h : s.Listed) (fd : Nat) (ownsFd : Bool) (r : Request) :
    (s.appendScannerWatchSubscription fd ownsFd r).Listed := by
  have hnone : s.belongs s.count = none := belongs_of_le (Nat.le_refl _)
  have hroot : ((s.pushEntry (r.entry fd ownsFd)).entries s.count).scanRootIndex =
      r.scanRootIndex := by
    rw [pushEntry_entries_self]
    rfl
  have hchained := h.pushEntry (r.entry fd ownsFd)
  unfold Listed appendScannerWatchSubscription
  rw [(linkScannerWatchEntryToRoot_sameBody _).belongs, pushEntry_belongs]
  cases hr : r.scanRootIndex with
  | none =>
    have hsame : (s.pushEntry (r.entry fd ownsFd)).linkScannerWatchEntryToRoot s.count =
        s.pushEntry (r.entry fd ownsFd) := by
      unfold linkScannerWatchEntryToRoot
      rw [hroot, hr]
    have hkeep : Function.update s.belongs s.count (r.entry fd ownsFd).scanRootIndex =
        s.belongs := by
      rw [Function.update_eq_self_iff, hnone]
      exact hr
    rw [hsame, hkeep]
    exact hchained
  | some root =>
    rw [linkScannerWatchEntryToRoot_links (hroot.trans hr)]
    have hentry : (r.entry fd ownsFd).scanRootIndex = some root := hr
    rw [hentry]
    exact hchained.link hnone root

/-- An entry is taken out of its list. -/
theorem Listed.unlink (h : s.Listed) (hindex : index < s.count) :
    (s.unlinkScannerWatchEntryFromRoot index).ListedBut index := by
  unfold ListedBut
  rw [(unlinkScannerWatchEntryFromRoot_sameBody index).belongs]
  cases hroot : (s.entries index).scanRootIndex with
  | none =>
    have hsame : s.unlinkScannerWatchEntryFromRoot index = s := by
      unfold unlinkScannerWatchEntryFromRoot
      rw [hroot]
    have hkeep : Function.update s.belongs index none = s.belongs := by
      rw [Function.update_eq_self_iff, belongs_of_lt hindex, hroot]
    rw [hsame, hkeep]
    exact h
  | some root =>
    have hbelongs : s.belongs index = some root := (belongs_of_lt hindex).trans hroot
    have hself : s.links.prev index ≠ some index := by
      intro hprev
      exact (Chained.neighbour h hbelongs (Or.inl hprev)).2 rfl
    rw [unlinkScannerWatchEntryFromRoot_links hroot hself]
    exact .unlink h hbelongs

/-- What moving the last entry into the hole leaves alone. -/
structure Moved (s t : Registry) (index : Nat) : Prop where
  records : t.records = Function.update s.records index (s.records (s.count - 1))
  count : t.count = s.count
  log : t.log = s.log

theorem modifyEntry_records (i : Nat) (f : WatchEntry → WatchEntry) :
    (s.modifyEntry i f).records = Function.update s.records i (f (s.entries i)).unlinked := by
  funext k
  by_cases hk : k = i
  · subst hk
    simp [records, modifyEntry]
  · simp [records, modifyEntry, hk]

theorem moveLast_moved (index : Nat) : Moved s (s.moveLast index) index := by
  unfold moveLast
  by_cases hlast : index ≠ s.count - 1
  · simp only [if_pos hlast]
    have hbody := rebindScannerWatchEntryRootIndex_sameBody (s.count - 1) index
      (s := s.modifyEntry index fun _ => s.entries (s.count - 1))
    exact ⟨hbody.records.trans (modifyEntry_records index _), hbody.count, hbody.log⟩
  · have heq : s.count - 1 = index := by omega
    simp only [if_neg hlast]
    exact ⟨by rw [heq, Function.update_eq_self], rfl, rfl⟩

/-- The last entry takes the root of the place it moves to. -/
theorem Moved.belongs (h : Moved s t index) (hindex : index < s.count) :
    t.belongs = Function.update s.belongs index (s.belongs (s.count - 1)) := by
  funext i
  unfold Registry.belongs
  rw [h.count, h.records]
  by_cases hi : i = index
  · rw [hi, Function.update_self, Function.update_self, if_pos hindex, if_pos (by omega)]
  · rw [Function.update_of_ne hi, Function.update_of_ne hi]

/-- The last entry moves into the gap. -/
theorem ListedBut.moveLast (h : s.ListedBut index) (hindex : index < s.count) :
    (s.moveLast index).ListedBut (s.count - 1) := by
  unfold ListedBut
  rw [(moveLast_moved index).belongs hindex]
  by_cases hlast : index = s.count - 1
  · have hsame : s.moveLast index = s := by
      unfold Registry.moveLast
      rw [if_neg (not_not.mpr hlast)]
    rw [hsame, ← hlast, Function.update_idem]
    exact h
  · have hbut : Function.update s.belongs index none (s.count - 1) =
        (s.entries (s.count - 1)).scanRootIndex := by
      rw [Function.update_of_ne (Ne.symm hlast), belongs_of_lt (by omega)]
    have hhole : Function.update s.belongs index none index = none := Function.update_self _ _ _
    unfold Registry.moveLast
    rw [if_pos hlast, Function.update_comm hlast]
    cases hroot : (s.entries (s.count - 1)).scanRootIndex with
    | none =>
      have hcopied : ((s.modifyEntry index fun _ => s.entries (s.count - 1)).entries
          index).scanRootIndex = none := by
        simpa [modifyEntry] using hroot
      have hsame : (s.modifyEntry index fun _ =>
          s.entries (s.count - 1)).rebindScannerWatchEntryRootIndex (s.count - 1) index =
            s.modifyEntry index fun _ => s.entries (s.count - 1) := by
        unfold rebindScannerWatchEntryRootIndex
        rw [hcopied]
      have hbelongs : Function.update (Function.update s.belongs (s.count - 1) none) index
          (s.belongs (s.count - 1)) = Function.update s.belongs index none := by
        have hnone : s.belongs (s.count - 1) = none := (belongs_of_lt (by omega)).trans hroot
        rw [hnone]
        congr 1
        rw [Function.update_eq_self_iff]
        exact hnone.symm
      rw [hsame, hbelongs]
      have hother : ∀ i, Function.update s.belongs index none i ≠ none →
          (s.modifyEntry index fun _ => s.entries (s.count - 1)).entries i = s.entries i := by
        intro i hi
        have hne : i ≠ index := fun heq => hi (heq ▸ hhole)
        simp [modifyEntry, hne]
      refine .congr h rfl ?_ ?_
      · intro i hi
        exact congrArg WatchEntry.prevRootWatchIndex (hother i hi)
      · intro i hi
        exact congrArg WatchEntry.nextRootWatchIndex (hother i hi)
    | some root =>
      have hprev : s.links.prev (s.count - 1) ≠ some index := by
        intro heq
        have hin := (Chained.neighbour h (hbut.trans hroot) (Or.inl heq)).1
        rw [hhole] at hin
        cases hin
      rw [rebind_copy_links hroot hprev]
      have hbelongs : Function.update (Function.update s.belongs (s.count - 1) none) index
          (s.belongs (s.count - 1)) =
            Function.update (Function.update (Function.update s.belongs index none)
              (s.count - 1) none) index (some root) := by
        have hsome : s.belongs (s.count - 1) = some root :=
          (belongs_of_lt (by omega)).trans hroot
        rw [hsome, Function.update_comm hlast, Function.update_idem]
      rw [hbelongs]
      exact .rebind h (hbut.trans hroot) hhole

theorem dropLast_belongs (hpos : 0 < s.count) :
    s.dropLast.belongs = Function.update s.belongs (s.count - 1) none := by
  have hcount : s.dropLast.count = s.count - 1 := rfl
  funext i
  by_cases hi : i = s.count - 1
  · rw [hi, Function.update_self]
    exact belongs_of_le (Nat.le_of_eq hcount)
  · rw [Function.update_of_ne hi]
    by_cases hlt : i < s.count - 1
    · rw [belongs_of_lt (hcount ▸ hlt), belongs_of_lt (by omega)]
      simp [dropLast, modifyEntry, hi]
    · rw [belongs_of_le (by omega), belongs_of_le (by omega)]

/-- The last place is given up. -/
theorem ListedBut.dropLast (h : s.ListedBut (s.count - 1)) (hpos : 0 < s.count) :
    s.dropLast.Listed := by
  have hother : ∀ i, Function.update s.belongs (s.count - 1) none i ≠ none →
      s.dropLast.entries i = s.entries i := by
    intro i hi
    have hne : i ≠ s.count - 1 := fun heq => hi (heq ▸ Function.update_self _ _ _)
    simp [Registry.dropLast, modifyEntry, hne]
  unfold Listed
  rw [dropLast_belongs hpos]
  refine .congr h rfl ?_ ?_
  · intro i hi
    exact congrArg WatchEntry.prevRootWatchIndex (hother i hi)
  · intro i hi
    exact congrArg WatchEntry.nextRootWatchIndex (hother i hi)

theorem releaseFd_links (index : Nat) : (s.releaseFd index).links = s.links := by
  unfold releaseFd
  split
  · rfl
  · split
    · rename_i i _
      ext k : 2
      · by_cases hk : k = i
        · simp [modifyEntry, links, hk]
        · simp [modifyEntry, links, hk]
      · by_cases hk : k = i
        · simp [modifyEntry, links, hk]
        · simp [modifyEntry, links, hk]
      · rfl
    · rfl

theorem releaseFd_count (index : Nat) : (s.releaseFd index).count = s.count := by
  unfold releaseFd
  split
  · rfl
  · split <;> rfl

theorem releaseFd_belongs (index : Nat) : (s.releaseFd index).belongs = s.belongs := by
  funext k
  unfold belongs
  rw [releaseFd_count]
  congr 1
  unfold releaseFd
  split
  · rfl
  · split
    · rename_i i _
      rw [modifyEntry_records]
      by_cases hk : k = i
      · rw [hk, Function.update_self]
        rfl
      · rw [Function.update_of_ne hk]
    · rfl

/-- The parts of a removal, one after the other. -/
theorem removeScannerWatchEntryAt_of_lt (hindex : index < s.count) :
    s.removeScannerWatchEntryAt index =
      (((s.unlinkScannerWatchEntryFromRoot index).releaseFd index).moveLast index).dropLast := by
  unfold removeScannerWatchEntryAt
  rw [if_neg (by omega)]

/-- Removing an entry keeps the lists of all roots. -/
theorem Listed.removeAt (h : s.Listed) (index : Nat) :
    (s.removeScannerWatchEntryAt index).Listed := by
  by_cases hindex : s.count ≤ index
  · unfold removeScannerWatchEntryAt
    rw [if_pos hindex]
    exact h
  · rw [removeScannerWatchEntryAt_of_lt (by omega)]
    have hbut := h.unlink (Nat.lt_of_not_le hindex)
    have hcount : ((s.unlinkScannerWatchEntryFromRoot index).releaseFd index).count = s.count := by
      rw [releaseFd_count]
      exact (unlinkScannerWatchEntryFromRoot_sameBody index).count
    have hreleased : ((s.unlinkScannerWatchEntryFromRoot index).releaseFd index).ListedBut
        index := by
      unfold ListedBut at hbut ⊢
      rw [releaseFd_links, releaseFd_belongs]
      exact hbut
    have hmoved := hreleased.moveLast (by omega)
    have hsame := (moveLast_moved index).count
      (s := (s.unlinkScannerWatchEntryFromRoot index).releaseFd index)
    apply ListedBut.dropLast
    · rw [hsame]
      exact hmoved
    · omega

end Registry
end ShadowMount.WatchRegistry
