import ShadowMount.WatchRegistry.Index

/-!
# Watch registry - The operations

Every operation ends, and leaves a registry whose lists, owners and index are
right.  The removals work on a registry whose index is out of date, and rebuild it
at their end.
-/

namespace ShadowMount.WatchRegistry
namespace Registry

open Foundation

variable {s t : Registry}
variable {i fuel fd : Nat} {before : Bool} {result : Option (Bool × Registry)}

variable (s) in
/-- What holds of the registry after every operation. -/
structure Sound : Prop where
  listed : s.Listed
  owned : s.Owned
  indexing : s.Indexing

variable (s) in
/-- What holds of the registry while entries are removed. -/
structure Loose : Prop where
  listed : s.Listed
  owned : s.Owned
  power : s.fdIndexCapacity = 0 ∨ ∃ k, s.fdIndexCapacity = 2 ^ k
  free : s.fdIndexCapacity ≠ 0 → ∃ slot < s.fdIndexCapacity, s.fdIndex slot = 0

theorem Sound.loose (h : s.Sound) : s.Loose :=
  ⟨h.listed, h.owned, h.indexing.power, h.indexing.free⟩

theorem empty_sound : Registry.empty.Sound :=
  ⟨empty_listed, empty_owned, empty_indexing⟩

/-- Any number of removals, one after another. -/
def Thinned : Registry → Registry → Prop :=
  Relation.ReflTransGen fun s t => ∃ i < s.count, t = s.removeScannerWatchEntryAt i

theorem Loose.removeAt (h : s.Loose) (hi : i < s.count) :
    (s.removeScannerWatchEntryAt i).Loose := by
  have hremoved := removeAt_removed hi
  refine ⟨h.listed.removeAt i, h.owned.removeAt i, ?_, ?_⟩
  · rw [hremoved.fdIndexCapacity]
    exact h.power
  · rw [hremoved.fdIndexCapacity, hremoved.fdIndex]
    exact h.free

theorem Thinned.loose (h : Thinned s t) (hs : s.Loose) : t.Loose := by
  induction h with
  | refl => exact hs
  | tail _ hstep ih =>
    rcases hstep with ⟨i, hi, rfl⟩
    exact ih.removeAt hi

theorem Thinned.removeAt_trans (hi : i < s.count) (h : Thinned (s.removeScannerWatchEntryAt i) t) :
    Thinned s t :=
  Relation.ReflTransGen.head ⟨i, hi, rfl⟩ h

/-- How a removal loop ends: the entries that are left, and whether any was removed. -/
def Drained (s : Registry) (before : Bool) (result : Option (Bool × Registry)) : Prop :=
  ∃ removedAny t, result = some (removedAny, t) ∧ Thinned s t ∧
    (removedAny = false → before = false ∧ t = s)

theorem Drained.rfl : Drained s before (some (before, s)) :=
  ⟨before, s, Eq.refl _, Relation.ReflTransGen.refl, fun h => ⟨h, Eq.refl _⟩⟩

theorem Drained.removeAt (hi : i < s.count)
    (h : Drained (s.removeScannerWatchEntryAt i) true result) : Drained s before result := by
  rcases h with ⟨removedAny, t, hresult, hthin, hany⟩
  refine ⟨removedAny, t, hresult, hthin.removeAt_trans hi, ?_⟩
  intro hfalse
  cases (hany hfalse).1

theorem Drained.bind {next : Bool × Registry → Option (Bool × Registry)}
    (h : Drained s before result)
    (hnext : ∀ removedAny t, Thinned s t → Drained t removedAny (next (removedAny, t))) :
    Drained s before (result.bind next) := by
  rcases h with ⟨removedAny, t, rfl, hthin, hany⟩
  rcases hnext removedAny t hthin with ⟨removedAny', u, hresult, hthin', hany'⟩
  refine ⟨removedAny', u, hresult, Relation.ReflTransGen.trans hthin hthin', ?_⟩
  intro hfalse
  rcases hany' hfalse with ⟨hmid, hut⟩
  rcases hany hmid with ⟨hbefore, hts⟩
  exact ⟨hbefore, hut.trans hts⟩

theorem lt_of_belongs {root : Fin maxScanPaths} (h : s.belongs i = some root) : i < s.count := by
  by_contra hge
  rw [belongs_of_le (by omega)] at h
  cases h

theorem Listed.head_lt (h : s.Listed) {root : Fin maxScanPaths} (hhead : s.heads root = some i) :
    i < s.count := by
  rcases Chained.heads_eq h root with ⟨k, hk, hbelongs⟩ | ⟨hnone, _⟩
  · have heq : s.links.heads root = some i := hhead
    rw [hk] at heq
    cases heq
    exact lt_of_belongs hbelongs
  · have heq : s.links.heads root = some i := hhead
    rw [hnone] at heq
    cases heq

theorem drainRoot_spec (hs : s.Loose) (root : Fin maxScanPaths) (hfuel : s.count < fuel)
    (before : Bool) : Drained s before (drainRoot root fuel before s) := by
  induction fuel generalizing s before with
  | zero => omega
  | succ fuel ih =>
    unfold drainRoot
    cases hhead : s.heads root with
    | none => exact Drained.rfl
    | some i =>
      have hi := hs.listed.head_lt hhead
      have hcount := (removeAt_removed hi).count
      exact (ih (hs.removeAt hi) (by omega) true).removeAt hi

theorem drainRoots_spec (hs : s.Loose) (roots : List (Fin maxScanPaths)) (before : Bool) :
    Drained s before (drainRoots roots before s) := by
  induction roots generalizing s before with
  | nil => exact Drained.rfl
  | cons root rest ih =>
    unfold drainRoots
    refine (drainRoot_spec hs root (Nat.lt_succ_self _) before).bind ?_
    intro removedAny t hthin
    exact ih (hthin.loose hs) removedAny

theorem drainUsb_spec (hs : s.Loose) (hi : i ≤ s.count) (hfuel : s.count < fuel + i)
    (before : Bool) : Drained s before (drainUsb fuel i before s) := by
  induction fuel generalizing s i before with
  | zero => omega
  | succ fuel ih =>
    unfold drainUsb
    split
    · exact Drained.rfl
    · rename_i hlt
      have hlt : i < s.count := by omega
      split
      · have hcount := (removeAt_removed hlt).count
        exact (ih (hs.removeAt hlt) (by omega) (by omega) true).removeAt hlt
      · exact ih hs hlt (by omega) before

theorem length_le_count {l : List Nat} (hnodup : l.Nodup) (hlt : ∀ i ∈ l, i < s.count) :
    l.length ≤ s.count := by
  have hsub : l ⊆ List.range s.count := fun i hi => List.mem_range.mpr (hlt i hi)
  have hle := (hnodup.subperm hsub).length_le
  rw [List.length_range] at hle
  exact hle

/-- The loop over the list of a root, from some place in the list on. -/
theorem drainPath_spec (hs : s.Loose) (root : Fin maxScanPaths) (path : Text) (passed : List Nat)
    {rest : List Nat} (hholds : s.links.Holds root (passed ++ rest))
    (hmem : ∀ i, i ∈ passed ++ rest ↔ s.belongs i = some root)
    (hfuel : s.count * (s.count + 1) + rest.length < fuel) (before : Bool) :
    Drained s before (drainPath root path fuel before rest.head? s) := by
  induction fuel generalizing s passed rest before with
  | zero => omega
  | succ fuel ih =>
    cases rest with
    | nil => exact Drained.rfl
    | cons i rest =>
      rw [List.length_cons] at hfuel
      have hin : i ∈ passed ++ i :: rest := by simp
      have hi : i < s.count := lt_of_belongs ((hmem i).mp hin)
      rw [List.head?_cons]
      unfold drainPath
      split
      · -- the loop starts over in a registry with one entry less
        have hloose := hs.removeAt hi
        have hcount := (removeAt_removed hi).count
        rcases hloose.listed root with ⟨l, hl, hlmem⟩
        have hlength : l.length ≤ (s.removeScannerWatchEntryAt i).count := by
          apply length_le_count hl.nodup
          intro k hk
          exact lt_of_belongs ((hlmem k).mp hk)
        have hhead : (s.removeScannerWatchEntryAt i).heads root = l.head? := hl.head
        show Drained s before (drainPath root path fuel true
          ((s.removeScannerWatchEntryAt i).heads root) (s.removeScannerWatchEntryAt i))
        rw [hhead]
        have hstep : (s.count - 1) * (s.count - 1 + 1) + (s.count - 1) < fuel := by
          have hle : (s.count - 1) * (s.count - 1 + 1) ≤ s.count * s.count :=
            Nat.mul_le_mul (by omega) (by omega)
          rw [Nat.mul_succ] at hfuel
          omega
        refine (ih hloose [] hl hlmem ?_ true).removeAt hi
        rw [hcount] at hlength ⊢
        omega
      · have hnext : (s.entries i).nextRootWatchIndex = rest.head? := by
          have hlinked := (linked_append.mp hholds.linked).2
          have hlink := hlinked.2.1
          rw [Option.or_none] at hlink
          exact hlink
        rw [hnext]
        have hsplit : passed ++ i :: rest = (passed ++ [i]) ++ rest := by simp
        rw [hsplit] at hholds hmem
        exact ih hs (passed ++ [i]) hholds hmem (by omega) before

theorem drainPath_heads (hs : s.Loose) (root : Fin maxScanPaths) (path : Text) :
    Drained s false (drainPath root path ((s.count + 1) * (s.count + 1)) false (s.heads root)
      s) := by
  rcases hs.listed root with ⟨l, hl, hmem⟩
  have hlength : l.length ≤ s.count := by
    apply length_le_count hl.nodup
    intro i hi
    exact lt_of_belongs ((hmem i).mp hi)
  have hhead : s.heads root = l.head? := hl.head
  rw [hhead]
  refine drainPath_spec hs root path [] hl hmem ?_ false
  rw [Nat.add_mul, Nat.one_mul]
  omega

/-- How an operation that removes entries ends. -/
structure Leaves (s u : Registry) (grows ok : Bool) : Prop where
  sound : u.Sound
  granted : grows = true → ok = true
  current : ok = true → s.Current → u.Current
  thinned : ∃ t, Thinned s t ∧ u.records = t.records ∧ u.count = t.count

theorem Loose.rebuild (h : t.Loose) (grows : Bool) :
    ∃ ok u, t.rebuildScannerWatchFdIndex grows = some (ok, u) ∧ u.Sound ∧
      u.records = t.records ∧ u.count = t.count ∧ (grows = true → ok = true) ∧
      (ok = true → u.Current) := by
  unfold rebuildScannerWatchFdIndex
  rcases rebuild_spec grows (Nat.le_refl t.count) h.power with
    ⟨hsmall, hgrows, hfail⟩ | ⟨index, capacity, hok, _, hcurrent, hindexing⟩
  · have hsound : t.Sound := ⟨h.listed, h.owned, h.power, h.free, .inr hsmall⟩
    refine ⟨false, t, hfail, hsound, rfl, rfl, ?_, ?_⟩
    · intro htrue
      rw [hgrows] at htrue
      exact htrue
    · intro hfalse
      cases hfalse
  · have hlisted : { t with fdIndex := index, fdIndexCapacity := capacity }.Listed :=
      h.listed.congr rfl rfl
    have howned : { t with fdIndex := index, fdIndexCapacity := capacity }.Owned :=
      h.owned.congr rfl (fun _ => rfl) (fun _ => rfl) rfl
    exact ⟨true, _, hok, ⟨hlisted, howned, hindexing⟩, rfl, rfl, fun _ => rfl, fun _ => hcurrent⟩

/-- The rebuild at the end of a removal. -/
theorem finishRemoval_spec (hs : s.Sound) (h : Drained s false result) (grows : Bool) :
    ∃ ok u, result.bind (finishRemoval grows) = some (ok, u) ∧ Leaves s u grows ok := by
  rcases h with ⟨removedAny, t, rfl, hthin, hany⟩
  rw [Option.bind_some]
  cases removedAny with
  | false =>
    rcases hany rfl with ⟨_, rfl⟩
    exact ⟨true, t, rfl, hs, fun _ => rfl, fun _ hcurrent => hcurrent, t, hthin, rfl, rfl⟩
  | true =>
    rcases (hthin.loose hs.loose).rebuild grows with
      ⟨ok, u, hresult, hsound, hrecords, hcount, hgranted, hcurrent⟩
    exact ⟨ok, u, hresult, hsound, hgranted, fun hok _ => hcurrent hok, t, hthin, hrecords,
      hcount⟩

/-- What a removal does. -/
theorem removal_spec (h : s.Sound) {op : Operation} (hop : op.rebuilds = true) :
    ∃ ok u, op.apply s = some (ok, u) ∧ Leaves s u op.indexGrows ok := by
  have hfuel : s.count < s.count + 1 := Nat.lt_succ_self _
  have husb : Drained s false (drainUsb (s.count + 1) 0 false s) :=
    drainUsb_spec h.loose (Nat.zero_le s.count) hfuel false
  cases op with
  | register r a => cases hop
  | event ident immediate => cases hop
  | clear => cases hop
  | removeRoot root grows =>
    exact finishRemoval_spec h (drainRoot_spec h.loose root hfuel false) grows
  | removePath root path grows =>
    exact finishRemoval_spec h (drainPath_heads h.loose root path) grows
  | suspendUsb usbRoots grows =>
    have hdrained : Drained s false ((drainUsb (s.count + 1) 0 false s).bind
        fun r => drainRoots usbRoots r.1 r.2) := by
      apply husb.bind
      intro removedAny t hthin
      exact drainRoots_spec (hthin.loose h.loose) usbRoots removedAny
    exact finishRemoval_spec h hdrained grows
  | removeUsb grows =>
    rcases husb with ⟨removedAny, t, ht, hthin, _⟩
    rcases (hthin.loose h.loose).rebuild grows with
      ⟨ok, u, hu, hsound, hrecords, hcount, hgranted, hcurrent⟩
    refine ⟨ok, u, ?_, hsound, hgranted, fun hok _ => hcurrent hok, t, hthin, hrecords, hcount⟩
    show (drainUsb (s.count + 1) 0 false s).bind
      (fun r => r.2.rebuildScannerWatchFdIndex grows) = some (ok, u)
    rw [ht]
    exact hu

variable (s) in
/-- The entry passes the tests of a registration: its descriptor may be shared, and
it names the same directory. -/
structure Fits (r : Request) (a : Answers) (i : Nat) : Prop where
  shareable : (s.records i).fdShareable = true
  path : (s.records i).path = r.path
  identity : a.sameIdentity i = true

/-- A descriptor that is shared fits the request. -/
theorem searchShared_done {r : Request} {a : Answers} {entries : List Nat} {shared : Option Nat}
    (h : s.searchShared r a entries shared = .done (some fd)) :
    shared = some fd ∨ ∃ i ∈ entries, (s.records i).fd = fd ∧ s.Fits r a i := by
  induction entries generalizing shared with
  | nil =>
    unfold searchShared at h
    cases h
    exact .inl rfl
  | cons i entries ih =>
    -- an entry that is passed over leaves the search as it was
    have hpass : s.searchShared r a entries shared = .done (some fd) →
        shared = some fd ∨ ∃ k ∈ i :: entries, (s.records k).fd = fd ∧ s.Fits r a k := by
      intro hrest
      rcases ih hrest with hshared | ⟨k, hk, hfd⟩
      · exact .inl hshared
      · exact .inr ⟨k, List.mem_cons_of_mem i hk, hfd⟩
    unfold searchShared at h
    simp only at h
    split at h
    · exact hpass h
    · rename_i hfit
      split at h
      · exact hpass h
      · rename_i hidentity
        split at h
        · split at h <;> cases h
        · cases shared with
          | some other => exact hpass h
          | none =>
            have hand : (s.entries i).fdShareable = true ∧ (s.entries i).path = r.path := by
              simpa using hfit
            have hsame : a.sameIdentity i = true := by simpa using hidentity
            rcases ih h with hshared | ⟨k, hk, hfd⟩
            · have hfd : (s.entries i).fd = fd := by simpa using hshared
              exact .inr ⟨i, List.mem_cons_self, hfd, hand.1, hand.2, hsame⟩
            · exact .inr ⟨k, List.mem_cons_of_mem i hk, hfd⟩

theorem searchShared_other {r : Request} {a : Answers} {entries : List Nat} {shared : Option Nat}
    {result : Option Nat} (h : s.searchShared r a entries shared = .done result) :
    ∀ i ∈ entries, s.Fits r a i → (s.records i).scanRootIndex ≠ r.scanRootIndex := by
  induction entries generalizing shared with
  | nil =>
    intro i hi
    cases hi
  | cons k entries ih =>
    intro i hi hfits
    rcases List.mem_cons.mp hi with rfl | hi
    · intro hroot
      have hshareable : (s.entries i).fdShareable = true := hfits.shareable
      have hpath : (s.entries i).path = r.path := hfits.path
      have hroot : (s.entries i).scanRootIndex = r.scanRootIndex := hroot
      unfold searchShared at h
      simp only [hshareable, hpath, hfits.identity, hroot] at h
      simp only [Bool.not_true, ne_eq, not_true_eq_false, decide_false, Bool.or_self,
        Bool.false_eq_true, if_false, Bool.and_false, if_true] at h
      split at h <;> cases h
    · unfold searchShared at h
      simp only at h
      split at h
      · exact ih h i hi hfits
      · split at h
        · exact ih h i hi hfits
        · split at h
          · split at h <;> cases h
          · exact ih h i hi hfits

/-- What a registration leaves behind. -/
structure Registered (s t : Registry) : Prop where
  sound : t.Sound
  current : s.Current → t.Current

/-- A registration that opens a descriptor and closes it again, with an index that
may have been rebuilt. -/
theorem Sound.reopened (h : s.Sound) (hfresh : isOpen s.log fd = false)
    (hrecords : t.records = s.records) (hcount : t.count = s.count) (hlinks : t.links = s.links)
    (hlog : t.log = .closed fd :: .opened fd :: s.log) (hindexing : t.Indexing) : t.Sound := by
  have hbelongs : t.belongs = s.belongs := by
    unfold belongs
    rw [hrecords, hcount]
  exact ⟨h.listed.congr hlinks hbelongs, h.owned.reopen hfresh hrecords hcount hlog, hindexing⟩

theorem sameOwners_of_eq (hrecords : t.records = s.records) (hcount : t.count = s.count)
    (hindex : t.fdIndex = s.fdIndex) (hcapacity : t.fdIndexCapacity = s.fdIndexCapacity) :
    SameOwners s t := by
  refine ⟨?_, fun i _ => by rw [hrecords], hindex, hcapacity⟩
  unfold owners
  rw [hrecords, hcount]

/-- The index grows or stays as it is. -/
theorem ensureScannerWatchFdIndexCapacity_spec (h : s.Indexing) (grows : Bool) :
    s.ensureScannerWatchFdIndexCapacity grows (s.count + 1) = some (false, s) ∨
      ∃ index capacity,
        s.ensureScannerWatchFdIndexCapacity grows (s.count + 1) =
          some (true, { s with fdIndex := index, fdIndexCapacity := capacity }) ∧
        neededCapacity (s.count + 1) ≤ capacity ∧
        { s with fdIndex := index, fdIndexCapacity := capacity }.Current ∧
        { s with fdIndex := index, fdIndexCapacity := capacity }.Indexing := by
  unfold ensureScannerWatchFdIndexCapacity
  split
  · rename_i hlarge
    right
    have hcurrent : s.Current := by
      rcases h.current with hcurrent | hsmall
      · exact hcurrent
      · have hmono : neededCapacity s.count ≤ neededCapacity (s.count + 1) :=
          neededCapacity_mono (Nat.le_succ s.count)
        omega
    exact ⟨s.fdIndex, s.fdIndexCapacity, rfl, hlarge.2, hcurrent, h⟩
  · rcases rebuild_spec grows (Nat.le_succ s.count) h.power with
      ⟨_, _, hfail⟩ | ⟨index, capacity, hok, hneeded, hcurrent, hindexing⟩
    · exact .inl hfail
    · exact .inr ⟨index, capacity, hok, hneeded, hcurrent, hindexing⟩

/-- What a registration adds to the entries. -/
inductive Added (s t : Registry) (r : Request) (a : Answers) : Prop where
  | same (records : t.records = s.records) (count : t.count = s.count)
  | own (fd : Nat) (answered : a.fd = some fd) (fresh : isOpen s.log fd = false)
      (records : t.records = Function.update s.records s.count (r.entry fd true).unlinked)
      (count : t.count = s.count + 1)
  | shared (fd : Nat)
      (search : s.searchShared r a (List.range s.count) none = .done (some fd))
      (records : t.records = Function.update s.records s.count (r.entry fd false).unlinked)
      (count : t.count = s.count + 1)

/-- A new owner is registered. -/
theorem Sound.registerOwner (h : s.Sound) (r : Request) (a : Answers) (hanswered : a.fd = some fd)
    (hfresh : isOpen s.log fd = false) :
    ∃ ok t, ({ s with log := .opened fd :: s.log }).registerOwner r a fd = some (ok, t) ∧
      Registered s t ∧ Added s t r a := by
  generalize hopened : ({ s with log := .opened fd :: s.log } : Registry) = u
  have hrecords : u.records = s.records := by rw [← hopened]; rfl
  have hcount : u.count = s.count := by rw [← hopened]
  have hlinks : u.links = s.links := by rw [← hopened]; rfl
  have hlog : u.log = .opened fd :: s.log := by rw [← hopened]
  have hindex : u.fdIndex = s.fdIndex := by rw [← hopened]
  have hcapacity : u.fdIndexCapacity = s.fdIndexCapacity := by rw [← hopened]
  have hsame : SameOwners s u := sameOwners_of_eq hrecords hcount hindex hcapacity
  have hindexing : u.Indexing := h.indexing.congr hsame (Nat.le_of_eq hcount.symm)
  unfold Registry.registerOwner
  rcases ensureScannerWatchFdIndexCapacity_spec hindexing a.indexGrows with
    hfail | ⟨index, capacity, hensure, hneeded, hcurrent, hindexed⟩
  · rw [hfail]
    have hclosed : SameOwners s (u.close fd) :=
      sameOwners_of_eq hrecords hcount hindex hcapacity
    exact ⟨false, u.close fd, rfl, ⟨h.reopened hfresh hrecords hcount hlinks (congrArg _ hlog)
      (h.indexing.congr hclosed (Nat.le_of_eq hcount.symm)), fun hs => hs.congr hclosed⟩,
      Added.same hrecords hcount⟩
  · rw [hensure]
    generalize hgrown :
      ({ u with fdIndex := index, fdIndexCapacity := capacity } : Registry) = v at *
    have hvrecords : v.records = s.records := by rw [← hgrown, ← hrecords]; rfl
    have hvcount : v.count = s.count := by rw [← hgrown]; exact hcount
    have hvlinks : v.links = s.links := by rw [← hgrown, ← hlinks]; rfl
    have hvlog : v.log = .opened fd :: s.log := by rw [← hgrown]; exact hlog
    have hvcapacity : v.fdIndexCapacity = capacity := by rw [← hgrown]
    simp only
    cases hwatched : a.watched with
    | false =>
      have hsameclosed : SameOwners v (v.close fd) := sameOwners_of_eq rfl rfl rfl rfl
      exact ⟨false, v.close fd, rfl, ⟨h.reopened hfresh hvrecords hvcount hvlinks
        (congrArg _ hvlog) (hindexed.congr hsameclosed (Nat.le_refl _)),
        fun _ => hcurrent.congr hsameclosed⟩, Added.same hvrecords hvcount⟩
    | true =>
      rcases hcurrent.own hindexed.power (by rw [hvcapacity, hvcount, ← hcount]; exact hneeded)
        fd r with ⟨index', hinsert, hcurrent', hindexing'⟩
      rw [hinsert]
      have hlisted : v.Listed := by
        refine h.listed.congr hvlinks ?_
        unfold belongs
        rw [hvrecords, hvcount]
      have howned := h.owned.own hfresh hvrecords hvcount hvlog r
      have happend := append_records (s := v) fd true r
      have hbody := append_sameBody (s := v) fd true r
      refine ⟨true, _, rfl, ⟨⟨?_, ?_, hindexing'⟩, fun _ => hcurrent'⟩,
        Added.own fd hanswered hfresh ?_ ?_⟩
      · exact (hlisted.append fd true r).congr rfl rfl
      · exact howned.congr rfl (fun _ => rfl) (fun _ => rfl) rfl
      · rw [← hvrecords, ← hvcount]
        exact happend
      · rw [← hvcount]
        exact hbody.count

theorem searchShared_congr (h : t.entries = s.entries) (r : Request) (a : Answers)
    (entries : List Nat) (shared : Option Nat) :
    t.searchShared r a entries shared = s.searchShared r a entries shared := by
  induction entries generalizing shared with
  | nil => rfl
  | cons i entries ih =>
    unfold searchShared
    simp only [h, ih]

theorem ensureScannerWatchCapacity_eq (grows : Bool) (needed : Nat) :
    ∃ ok capacity, s.ensureScannerWatchCapacity grows needed =
      (ok, { s with capacity := capacity }) := by
  unfold ensureScannerWatchCapacity
  split
  · exact ⟨true, s.capacity, rfl⟩
  · split
    · exact ⟨false, s.capacity, rfl⟩
    · exact ⟨true, _, rfl⟩

theorem Sound.withCapacity (h : s.Sound) (capacity : Nat) :
    Registered s { s with capacity := capacity } := by
  have hsame : SameOwners s { s with capacity := capacity } := sameOwners_of_eq rfl rfl rfl rfl
  refine ⟨⟨h.listed.congr rfl rfl, h.owned.congr rfl (fun _ => rfl) (fun _ => rfl) rfl, ?_⟩, ?_⟩
  · exact h.indexing.congr hsame (Nat.le_refl _)
  · intro hcurrent
    exact hcurrent.congr hsame

theorem Registered.trans {u : Registry} (h : Registered s t) (h' : Registered t u) :
    Registered s u :=
  ⟨h'.sound, fun hcurrent => h'.current (h.current hcurrent)⟩

theorem Sound.registerClosed (h : s.Sound) (hfresh : isOpen s.log fd = false) :
    Registered s ({ s with log := .opened fd :: s.log }.close fd) := by
  have hsame : SameOwners s ({ s with log := .opened fd :: s.log }.close fd) :=
    sameOwners_of_eq rfl rfl rfl rfl
  refine ⟨h.reopened hfresh rfl rfl rfl rfl (h.indexing.congr hsame (Nat.le_refl _)), ?_⟩
  intro hcurrent
  exact hcurrent.congr hsame

theorem Sound.share (h : s.Sound) (hi : i < s.count) (r : Request) :
    Registered s (s.appendScannerWatchSubscription (s.records i).fd false r) := by
  have hsame := sameOwners_share (s := s) (s.records i).fd r
  have hcount := (append_sameBody (s := s) (s.records i).fd false r).count
  refine ⟨⟨h.listed.append _ _ r, h.owned.share hi r, ?_⟩, ?_⟩
  · apply h.indexing.congr hsame
    rw [hcount]
    exact Nat.le_succ s.count
  · intro hcurrent
    exact hcurrent.congr hsame

/-- A registration ends, and keeps the lists, the owners and the index. -/
theorem Sound.register (h : s.Sound) (r : Request) (a : Answers)
    (hfresh : ∀ fd, a.fd = some fd → isOpen s.log fd = false) :
    ∃ ok t, s.registerScannerWatchEntry r a = some (ok, t) ∧ Registered s t ∧ Added s t r a := by
  unfold registerScannerWatchEntry
  rcases ensureScannerWatchCapacity_eq (s := s) a.entriesGrow (s.count + 1) with
    ⟨ok, capacity, hensure⟩
  have hgrown := h.withCapacity capacity
  rw [hensure]
  cases ok with
  | false => exact ⟨false, _, rfl, hgrown, Added.same rfl rfl⟩
  | true =>
    cases hfd : a.fd with
    | none => exact ⟨true, _, rfl, hgrown, Added.same rfl rfl⟩
    | some fd =>
      have hfd' := hfresh fd hfd
      have hclosed := hgrown.trans (hgrown.sound.registerClosed hfd')
      have hsearch : ({ s with capacity := capacity, log := .opened fd :: s.log } :
          Registry).searchShared r a (List.range s.count) none =
            s.searchShared r a (List.range s.count) none := by
        apply searchShared_congr
        rfl
      simp only [hsearch]
      cases hresult : s.searchShared r a (List.range s.count) none with
      | subscribed => exact ⟨true, _, rfl, hclosed, Added.same rfl rfl⟩
      | conflict => exact ⟨false, _, rfl, hclosed, Added.same rfl rfl⟩
      | done shared =>
        cases shared with
        | none =>
          rcases hgrown.sound.registerOwner r a hfd hfd' with ⟨ok, t, ht, hreg, hadded⟩
          refine ⟨ok, t, ht, hgrown.trans hreg, ?_⟩
          cases hadded with
          | same hrecords hcount => exact Added.same hrecords hcount
          | own fd hanswered hfresh hrecords hcount =>
            exact Added.own fd hanswered hfresh hrecords hcount
          | shared fd hshared _ _ =>
            have hsame : ({ s with capacity := capacity } : Registry).searchShared r a
                (List.range s.count) none =
                  s.searchShared r a (List.range s.count) none := by
              apply searchShared_congr
              rfl
            have hnone := hsame.symm.trans hshared
            rw [hresult] at hnone
            cases hnone
        | some sharedFd =>
          rcases searchShared_done hresult with hnone | ⟨i, hi, hifd, _⟩
          · cases hnone
          · have hlt := List.mem_range.mp hi
            have hshare := hclosed.sound.share (i := i) hlt r
            have hrecord : (({ s with capacity := capacity, log := .opened fd :: s.log } :
                Registry).close fd).records i = s.records i := rfl
            rw [hrecord, hifd] at hshare
            refine ⟨true, _, rfl, hclosed.trans hshare, Added.shared sharedFd hresult ?_ ?_⟩
            · exact append_records _ _ r
            · exact (append_sameBody _ _ r).count

/-- Two registries that differ in which descriptors may be shared only. -/
structure Flagged (s t : Registry) : Prop where
  links : t.links = s.links
  count : t.count = s.count
  fdIndex : t.fdIndex = s.fdIndex
  fdIndexCapacity : t.fdIndexCapacity = s.fdIndexCapacity
  log : t.log = s.log
  records : ∀ i, ∃ shareable, t.records i = { s.records i with fdShareable := shareable }

theorem Flagged.refl (s : Registry) : Flagged s s :=
  ⟨rfl, rfl, rfl, rfl, rfl, fun _ => ⟨_, rfl⟩⟩

theorem Flagged.trans {u : Registry} (h : Flagged s t) (h' : Flagged t u) : Flagged s u where
  links := h'.links.trans h.links
  count := h'.count.trans h.count
  fdIndex := h'.fdIndex.trans h.fdIndex
  fdIndexCapacity := h'.fdIndexCapacity.trans h.fdIndexCapacity
  log := h'.log.trans h.log
  records i := by
    rcases h.records i with ⟨a, ha⟩
    rcases h'.records i with ⟨b, hb⟩
    exact ⟨b, by rw [hb, ha]⟩

theorem flagged_modifyEntry (i : Nat) :
    Flagged s (s.modifyEntry i fun e => { e with fdShareable := false }) := by
  refine ⟨?_, rfl, rfl, rfl, rfl, ?_⟩
  · ext k : 2
    · by_cases hk : k = i
      · simp [modifyEntry, Registry.links, hk]
      · simp [modifyEntry, Registry.links, hk]
    · by_cases hk : k = i
      · simp [modifyEntry, Registry.links, hk]
      · simp [modifyEntry, Registry.links, hk]
    · rfl
  · intro k
    rw [modifyEntry_records]
    by_cases hk : k = i
    · rw [hk, Function.update_self]
      exact ⟨false, rfl⟩
    · rw [Function.update_of_ne hk]
      exact ⟨_, rfl⟩

theorem Flagged.sound (h : Flagged s t) (hs : s.Sound) : Registered s t := by
  have hfields : ∀ i, (t.records i).fd = (s.records i).fd ∧
      (t.records i).ownsFd = (s.records i).ownsFd ∧
      (t.records i).scanRootIndex = (s.records i).scanRootIndex := by
    intro i
    rcases h.records i with ⟨shareable, hi⟩
    rw [hi]
    exact ⟨rfl, rfl, rfl⟩
  have hbelongs : t.belongs = s.belongs := by
    funext i
    unfold belongs
    rw [h.count, (hfields i).2.2]
  have hsame : SameOwners s t := by
    refine ⟨?_, fun i _ => (hfields i).1, h.fdIndex, h.fdIndexCapacity⟩
    ext i
    rw [mem_owners, mem_owners, h.count, (hfields i).2.1]
  refine ⟨⟨hs.listed.congr h.links hbelongs, ?_, ?_⟩, fun hcurrent => hcurrent.congr hsame⟩
  · exact hs.owned.congr h.count (fun i => (hfields i).1) (fun i => (hfields i).2.1) h.log
  · exact hs.indexing.congr hsame (Nat.le_of_eq h.count.symm)

theorem collectSubscriptions_flagged (ident : Nat) (immediate : Bool) (entries : List Nat)
    (subscriptions : List EventSubscription) :
    Flagged s (collectSubscriptions ident immediate entries subscriptions s).2.2 := by
  induction entries generalizing s subscriptions with
  | nil => exact Flagged.refl s
  | cons i entries ih =>
    unfold collectSubscriptions
    split
    · exact ih _
    · have hstep : Flagged s (if immediate then
          s.modifyEntry i fun e => { e with fdShareable := false } else s) := by
        split
        · exact flagged_modifyEntry i
        · exact Flagged.refl s
      simp only
      split
      · exact hstep
      · exact hstep.trans (ih _)

variable (s) in
/-- The subscription of an entry. -/
def subscription (i : Nat) : EventSubscription :=
  ⟨(s.entries i).scanRootIndex, (s.entries i).depth, (s.entries i).kind⟩

/-- The subscriptions of a descriptor are copied in the order of the table, as many as there is room
for, and the copy fails exactly when there are more. -/
theorem collectSubscriptions_spec (ident : Nat) (immediate : Bool) (entries : List Nat)
    {copied : List EventSubscription} (hcopied : copied.length ≤ maxSubscriptions) :
    let wanted := copied ++ (entries.filter fun i => (s.entries i).fd = ident).map s.subscription
    let result := collectSubscriptions ident immediate entries copied s
    (result.1 = true ↔ wanted.length ≤ maxSubscriptions) ∧
      result.2.1 = wanted.take maxSubscriptions := by
  induction entries generalizing s copied with
  | nil => simp [collectSubscriptions, hcopied]
  | cons i entries ih =>
    dsimp only
    unfold collectSubscriptions
    by_cases hfd : (s.entries i).fd = ident
    · rw [if_neg (not_not_intro hfd), List.filter_cons_of_pos (by simpa using hfd), List.map_cons]
      dsimp only
      have hsame : ∀ j, ((if immediate then s.modifyEntry i fun e => { e with fdShareable := false }
          else s).entries j).fd = (s.entries j).fd ∧
          (if immediate then s.modifyEntry i fun e => { e with fdShareable := false }
          else s).subscription j = s.subscription j := by
        intro j
        cases immediate with
        | false => exact ⟨rfl, rfl⟩
        | true =>
          by_cases hj : j = i
          · simp [modifyEntry, subscription, hj]
          · simp [modifyEntry, subscription, hj]
      generalize (if immediate then s.modifyEntry i fun e => { e with fdShareable := false }
        else s) = u at hsame ⊢
      split
      next hfull =>
        rw [List.take_append_of_le_length hfull, List.take_of_length_le hcopied]
        simp
        omega
      next hroom =>
        have hlength : (copied ++ [u.subscription i]).length ≤ maxSubscriptions := by
          rw [List.length_append]
          exact Nat.not_le.mp hroom
        have hrest := ih (s := u) hlength
        have hmap : u.subscription = s.subscription := funext fun j => (hsame j).2
        simp only [(hsame _).1, hmap, List.append_assoc, List.singleton_append] at hrest
        exact hmap ▸ hrest
    · rw [if_pos hfd, List.filter_cons_of_neg (by simpa using hfd)]
      exact ih hcopied

/-- An event ends, and changes flags only. -/
theorem Sound.event (h : s.Sound) (ident : Nat) (immediate : Bool) :
    ∃ ok subscriptions t, s.processVnodeEvent ident immediate = some (ok, subscriptions, t) ∧
      Flagged s t := by
  unfold processVnodeEvent
  rw [findScannerWatchEntryByFd_eq h.indexing]
  cases (if s.fdIndexCapacity = 0 then none
    else searchFrom s.fdIndexCapacity s.fdIndex (fun k => (s.records k).fd = ident)
      s.fdIndexCapacity (s.homeSlot ident)) with
  | none => exact ⟨true, [], s, rfl, Flagged.refl s⟩
  | some i => exact ⟨_, _, _, rfl, collectSubscriptions_flagged ident immediate _ []⟩

theorem Sound.clear (h : s.Sound) :
    s.clearScannerWatchEntries.Sound ∧ s.clearScannerWatchEntries.Current := by
  have hsame : SameOwners Registry.empty s.clearScannerWatchEntries :=
    sameOwners_of_eq rfl rfl rfl rfl
  refine ⟨⟨empty_listed.congr rfl rfl, h.owned.clear, ?_⟩, empty_current.congr hsame⟩
  exact empty_indexing.congr hsame (Nat.le_refl _)

end Registry
end ShadowMount.WatchRegistry
