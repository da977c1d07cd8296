import ShadowMount.ImageCache.Invariant

/-!
# Image cache - what the operations do to one record

What matters for detaching is which device a record names, whether an attempt is active
and whether a detach was requested.  Most operations leave all of this alone, or clear the
record, or start a new one without a device; this is said once, for every slot.  The four
operations that hand a device over have a description of their own.
-/

namespace ShadowMount.ImageCache

variable {n : Nat}
variable {c : Cache n}

/-- What an operation that hands over no device does to a slot. -/
inductive SlotStep (nodes : NodeView) (generation : Nat) (e e' : Entry) : Prop where
  | same (h : e' = e)
  | cleared (h : e'.valid = false)
  /-- A new record, without a device. -/
  | renewed (hgeneration : generation < e'.generation) (hunit : e'.unitId < 0)
      (hrecord : e'.state = .attaching →
        e'.detachState = .zero ∧ e'.detachAttemptActive = false)
  /-- A record of a device, whose state changes and whose identity is looked up. -/
  | touched (state : AttachedDeviceState) (hunit : 0 ≤ e.unitId)
      (h : e' = (refreshAttachedUnitIdentity nodes { e with state := state }).1)

theorem slotStep_set {nodes : NodeView} {generation : Nat} {k : Fin n} {e : Entry}
    (h : SlotStep nodes generation (c.entries k) e) (j : Fin n) :
    SlotStep nodes generation (c.entries j) ((c.set k e).entries j) := by
  by_cases hjk : j = k
  · subst hjk
    rw [set_entries_self]
    exact h
  · rw [set_entries_of_ne c e hjk]
    exact .same rfl

theorem slotStep_clear {nodes : NodeView} {generation : Nat} (k j : Fin n) :
    SlotStep nodes generation (c.entries j) ((c.set k Entry.zero).entries j) :=
  slotStep_set (.cleared rfl) j

theorem resolveOrMergeMappingIndex_slots (nodes : NodeView) (generation : Nat) {c' : Cache n}
    {path mountPoint : Text} {index : Option (Fin n)} {merged : Bool}
    (hresult : resolveOrMergeMappingIndex c path mountPoint = .ok (index, c', merged)) (j : Fin n) :
    SlotStep nodes generation (c.entries j) (c'.entries j) := by
  unfold resolveOrMergeMappingIndex at hresult
  split at hresult
  · cases hresult
  · cases hresult
    exact .same rfl
  · cases hresult
    exact .same rfl
  · split at hresult
    · cases hresult
      exact .same rfl
    · split at hresult
      · cases hresult
      · cases hresult
        exact slotStep_clear _ j

/-- A record that the upsert does not find under its own mapping is a record without a
device. -/
theorem upsertImageSourceMapping_slots (h : WellFormed c) (hwrap : c.generation + 1 < 2 ^ 64)
    (nodes : NodeView) (path mountPoint : Text) (j : Fin n) :
    SlotStep nodes c.generation (c.entries j)
      ((upsertImageSourceMapping c path mountPoint).1.entries j) := by
  unfold upsertImageSourceMapping
  split
  · exact .same rfl
  · split
    · exact .same rfl
    · split
      · exact .same rfl
      · rename_i k c' merged hresult
        have hslots := resolveOrMergeMappingIndex_slots nodes c.generation hresult
        have hgeneration : c'.generation = c.generation := by
          have hadv := (resolveOrMergeMappingIndex_spec h hresult).1
          exact le_antisymm (by simpa using hadv.bound) hadv.le
        simp only
        split
        · exact hslots j
        · rename_i hmeta
          split
          · rename_i hchanged
            rw [hchanged, Bool.and_true] at hmeta
            have hbare := cacheEntryIsMetadataOnly_iff.mp (by simpa using hmeta)
            by_cases hjk : j = k
            · subst hjk
              simp only [set_entries_self]
              refine .renewed ?_ hbare.2.1 ?_
              · simp only [nextCacheGeneration_eq (hgeneration ▸ hwrap)]
                omega
              · intro hattaching
                simp [hbare.1] at hattaching
            · simp only [set_entries_of_ne c' _ hjk]
              exact hslots j
          · rename_i hchanged
            have hsame : (c'.entries k).path = path ∧
                (c'.entries k).mountPoint = mountPoint := by
              simp only [ne_eq, decide_not, Bool.or_eq_true, Bool.not_eq_eq_eq_not,
                Bool.not_true, decide_eq_false_iff_not, not_or, not_not] at hchanged
              exact ⟨hchanged.1.2, hchanged.2⟩
            by_cases hjk : j = k
            · subst hjk
              simp only [set_entries_self, ← hsame.1, ← hsame.2]
              exact hslots j
            · simp only [set_entries_of_ne c' _ hjk]
              exact hslots j
      · rename_i c' merged hresult
        have hslots := resolveOrMergeMappingIndex_slots nodes c.generation hresult
        have hgeneration : c'.generation = c.generation := by
          have hadv := (resolveOrMergeMappingIndex_spec h hresult).1
          exact le_antisymm (by simpa using hadv.bound) hadv.le
        split
        · exact hslots j
        · rename_i k hfree
          by_cases hjk : j = k
          · subst hjk
            simp only [set_entries_self]
            refine .renewed ?_ (by simp) (by simp)
            simp only [nextCacheGeneration_eq (hgeneration ▸ hwrap)]
            omega
          · simp only [set_entries_of_ne c' _ hjk]
            exact hslots j

theorem upsertImageSourceMapping_mapping {c : Cache n} {path mountPoint : Text} {k : Fin n}
    (hk : (upsertImageSourceMapping c path mountPoint).2 = .ok k) :
    ((upsertImageSourceMapping c path mountPoint).1.entries k).path = path ∧
      ((upsertImageSourceMapping c path mountPoint).1.entries k).mountPoint = mountPoint := by
  unfold upsertImageSourceMapping at hk ⊢
  split at hk
  · cases hk
  · rename_i hnonempty
    rw [if_neg hnonempty]
    split at hk
    · cases hk
    · rename_i hlength
      rw [if_neg hlength]
      split at hk
      · cases hk
      · rename_i j c' merged hresult
        simp only at hk ⊢
        split at hk
        · cases hk
        · rename_i hmeta
          rw [if_neg hmeta]
          split at hk
          · rename_i hchanged
            cases hk
            rw [if_pos hchanged]
            simp
          · rename_i hchanged
            cases hk
            rw [if_neg hchanged]
            simp
      · rename_i c' merged hresult
        split at hk
        · cases hk
        · cases hk
          simp

section Operations

variable {nodes : NodeView} {path mountPoint : Option Text} {generation : Nat} {unitId : Int}
variable {backend : AttachBackend} {index : Int} {expected : Option EntryView}

/-- What a reservation does to each slot. -/
theorem beginImageAttachment_slots (h : WellFormed c) (hwrap : c.generation + 2 < 2 ^ 64)
    (j : Fin n) :
    SlotStep nodes c.generation (c.entries j)
      ((beginImageAttachment c path mountPoint).1.entries j) := by
  unfold beginImageAttachment
  split
  · rename_i path mountPoint
    have hslots := upsertImageSourceMapping_slots h (by omega) nodes path mountPoint
    have hadv := (upsertImageSourceMapping_spec h (by omega) path mountPoint).1
    split <;> rename_i hup <;> rw [hup] at hslots hadv
    · exact hslots j
    · rename_i c' k
      split
      · exact hslots j
      · have hle := hadv.le
        have hbound := hadv.bound
        simp only at hle hbound
        by_cases hjk : j = k
        · subst hjk
          simp only [set_entries_self]
          refine .renewed ?_ (by simp) fun _ => ⟨rfl, rfl⟩
          simp only [nextCacheGeneration_eq (show c'.generation + 1 < 2 ^ 64 by omega)]
          omega
        · simp only [set_entries_of_ne c' _ hjk]
          exact hslots j
  · exact .same rfl

theorem cancelImageAttachment_slots (j : Fin n) :
    SlotStep nodes c.generation (c.entries j)
      ((cancelImageAttachment c path generation).1.entries j) := by
  unfold cancelImageAttachment
  split
  · exact .same rfl
  · split
    · exact .same rfl
    · split
      · exact .same rfl
      · split
        · exact slotStep_clear _ j
        · exact .same rfl

theorem completeImageAttachment_slots (j : Fin n) :
    SlotStep nodes c.generation (c.entries j)
      ((completeImageAttachment nodes c path generation unitId backend).1.entries j) := by
  unfold completeImageAttachment
  split
  · exact .same rfl
  · split
    · exact .same rfl
    · rename_i hargs
      simp only [not_or, not_lt] at hargs
      split
      · exact .same rfl
      · rename_i k hfind
        simp only
        split
        · exact .same rfl
        · rename_i hrecord
          simp only [ne_eq, decide_not, Bool.or_eq_true, Bool.not_eq_eq_eq_not, Bool.not_true,
            decide_eq_false_iff_not, not_or, not_not] at hrecord
          refine slotStep_set (.touched .mounted ?_ rfl) j
          rw [hrecord.1.1.2]
          exact hargs.2.1

theorem markImageCacheDetachRequested_slots (j : Fin n) :
    SlotStep nodes c.generation (c.entries j)
      ((markImageCacheDetachRequested nodes c path generation unitId backend).1.entries j) := by
  unfold markImageCacheDetachRequested
  split
  · exact .same rfl
  · split
    · exact .same rfl
    · rename_i hargs
      simp only [not_or, not_lt] at hargs
      split
      · exact .same rfl
      · rename_i k hrecord
        have hunit : 0 ≤ (c.entries k).unitId := by
          rw [(findAttachmentRecord_eq_some hrecord).2.2.2.1]
          exact hargs.2.1
        split
        · rename_i e hrefresh
          exact slotStep_set (.touched .detachRequested hunit (by rw [hrefresh])) j
        · rename_i e hrefresh
          exact slotStep_set (.touched .detachRequested hunit (by rw [hrefresh])) j

theorem invalidateImageCacheEntry_slots (j : Fin n) :
    SlotStep nodes c.generation (c.entries j)
      ((invalidateImageCacheEntry c index expected).1.entries j) := by
  unfold invalidateImageCacheEntry
  split
  · exact .same rfl
  · split
    · simp only
      split
      · exact .same rfl
      · split
        · exact .same rfl
        · exact slotStep_clear _ j
    · exact .same rfl

end Operations

/-- The record of a device that was published. -/
def publishedEntry (nodes : NodeView) (e : Entry) (unitId : Int) (backend : AttachBackend) :
    Entry :=
  (refreshAttachedUnitIdentity nodes { e with unitId := unitId, backend := backend }).1

theorem publishImageAttachment_cases (nodes : NodeView) (c : Cache n) (path : Text)
    (generation : Nat) (unitId : Int) (backend : AttachBackend) :
    (∃ e, publishImageAttachment nodes c (some path) generation unitId backend = (c, .error e)) ∨
    ∃ k, (c.entries k).valid = true ∧ (c.entries k).state = .attaching ∧
      (c.entries k).unitId < 0 ∧ 0 ≤ unitId ∧
      publishImageAttachment nodes c (some path) generation unitId backend =
        (c.set k (publishedEntry nodes (c.entries k) unitId backend), .ok ()) := by
  unfold publishImageAttachment
  simp only
  split
  · exact .inl ⟨_, rfl⟩
  · rename_i hargs
    simp only [not_or, not_lt] at hargs
    split
    · exact .inl ⟨_, rfl⟩
    · rename_i k hfind
      split
      · rename_i hreserved
        simp only [isUnpublishedReservation, Bool.and_eq_true, decide_eq_true_eq] at hreserved
        exact .inr ⟨k, (findSourcePathIndex_eq_some hfind).1, hreserved.1.1.2, hreserved.1.2,
          hargs.2.1, rfl⟩
      · exact .inl ⟨_, rfl⟩

/-- The record of a device that was claimed. -/
def claimedEntry (nodes : NodeView) (e : Entry) : Entry :=
  { (refreshAttachedUnitIdentity nodes e).1 with
    state := .detachRequested
    detachAttemptActive := true }

/-- What a claim does to the record. -/
theorem claimImageCacheDetach_cases (nodes : NodeView) (c : Cache n) (path : Text)
    (generation : Nat) (unitId : Int) (backend : AttachBackend) :
    (∃ c' e, claimImageCacheDetach nodes c (some path) generation unitId backend = (c', .error e) ∧
      ∀ j, SlotStep nodes c.generation (c.entries j) (c'.entries j)) ∨
    ∃ k, (c.entries k).valid = true ∧ (c.entries k).path = path ∧
      (c.entries k).generation = generation ∧ (c.entries k).unitId = unitId ∧
      (c.entries k).backend = backend ∧ 0 ≤ unitId ∧
      (c.entries k).detachAttemptActive = false ∧
      (refreshAttachedUnitIdentity nodes (c.entries k)).2 = true ∧
      claimImageCacheDetach nodes c (some path) generation unitId backend =
        (c.set k (claimedEntry nodes (c.entries k)),
          .ok (copyCacheEntry (claimedEntry nodes (c.entries k)))) := by
  unfold claimImageCacheDetach
  simp only
  split
  · exact .inl ⟨_, _, rfl, fun _ => .same rfl⟩
  · rename_i hargs
    simp only [not_or, not_lt] at hargs
    split
    · exact .inl ⟨_, _, rfl, fun _ => .same rfl⟩
    · rename_i k hrecord
      obtain ⟨hvalid, hpath, hgeneration, hunit, hbackend⟩ := findAttachmentRecord_eq_some hrecord
      split
      · exact .inl ⟨_, _, rfl, fun _ => .same rfl⟩
      · rename_i hactive
        split
        · rename_i e hrefresh
          refine .inl ⟨_, _, rfl, slotStep_set (.touched (c.entries k).state ?_ ?_)⟩
          · rw [hunit]
            exact hargs.2.1
          · exact (congrArg Prod.fst hrefresh).symm
        · rename_i e hrefresh
          refine .inr ⟨k, hvalid, hpath, hgeneration, hunit, hbackend, hargs.2.1,
            by simpa using hactive, by rw [hrefresh], ?_⟩
          simp only [claimedEntry, hrefresh]

theorem finishImageCacheDetachAttempt_cases (c : Cache n) (path : Text) (generation : Nat)
    (unitId : Int) (backend : AttachBackend) (record : AttachedUnitDetachState) :
    (∃ e, finishImageCacheDetachAttempt c (some path) generation unitId backend (some record) =
      (c, .error e)) ∨
    ∃ k, (c.entries k).valid = true ∧ (c.entries k).path = path ∧
      (c.entries k).generation = generation ∧ (c.entries k).unitId = unitId ∧
      (c.entries k).backend = backend ∧ record.nodeIdentityValid = true ∧
      finishImageCacheDetachAttempt c (some path) generation unitId backend (some record) =
        (c.set k { c.entries k with
          detachState := record
          state := .detachRequested
          detachAttemptActive := false }, .ok ()) := by
  unfold finishImageCacheDetachAttempt
  simp only
  split
  · exact .inl ⟨_, rfl⟩
  · rename_i hargs
    simp only [not_or, not_lt, Bool.not_eq_true', Bool.not_eq_false] at hargs
    split
    · exact .inl ⟨_, rfl⟩
    · rename_i k hrecord
      obtain ⟨hvalid, hpath, hgeneration, hunit, hbackend⟩ := findAttachmentRecord_eq_some hrecord
      split
      · exact .inl ⟨_, rfl⟩
      · exact .inr ⟨k, hvalid, hpath, hgeneration, hunit, hbackend, hargs.2.2.2, rfl⟩

/-- The record of a mount that was found. -/
structure MountRecord (nodes : NodeView) (path mountPoint : Text) (unitId : Int)
    (backend : AttachBackend) (e : Entry) : Prop where
  path_eq : e.path = path
  mountPoint_eq : e.mountPoint = mountPoint
  unitId_eq : e.unitId = unitId
  backend_eq : e.backend = backend
  mounted : e.state = .mounted
  idle : e.detachAttemptActive = false
  identity : ∃ e₀ : Entry, e₀.backend = backend ∧ e₀.unitId = unitId ∧ e₀.detachState = .zero ∧
    e.detachState = (refreshAttachedUnitIdentity nodes e₀).1.detachState

/-- What recording a mount does, with the new generation. -/
theorem cacheImageMount_cases (h : WellFormed c) (hwrap : c.generation + 2 < 2 ^ 64)
    (nodes : NodeView) (path mountPoint : Text) (unitId : Int) (backend : AttachBackend) :
    (∃ c' e, cacheImageMount nodes c (some path) (some mountPoint) unitId backend =
      (c', .error e) ∧ ∀ j, SlotStep nodes c.generation (c.entries j) (c'.entries j)) ∨
    ∃ c' k, cacheImageMount nodes c (some path) (some mountPoint) unitId backend = (c', .ok ()) ∧
      (∀ j, j ≠ k → SlotStep nodes c.generation (c.entries j) (c'.entries j)) ∧
      c.generation < (c'.entries k).generation ∧ (c'.entries k).valid = true ∧
      MountRecord nodes path mountPoint unitId backend (c'.entries k) := by
  unfold cacheImageMount
  simp only
  split
  · exact .inl ⟨_, _, rfl, fun _ => .same rfl⟩
  · have hslots := upsertImageSourceMapping_slots h (by omega) nodes path mountPoint
    obtain ⟨hadv, hvalid⟩ := upsertImageSourceMapping_spec h (by omega) path mountPoint
    have hmapping := fun k => @upsertImageSourceMapping_mapping n c path mountPoint k
    split <;> rename_i hup <;> rw [hup] at hslots hadv hvalid hmapping
    · exact .inl ⟨_, _, rfl, hslots⟩
    · rename_i c' k
      have hle := hadv.le
      have hbound := hadv.bound
      simp only at hle hbound
      obtain ⟨hpath, hmount⟩ := hmapping k rfl
      have hk := hvalid k rfl
      have hrefresh := refreshAttachedUnitIdentity_eq nodes
        { c'.entries k with
          generation := nextCacheGeneration c'.generation
          unitId := unitId
          backend := backend
          state := .mounted
          detachState := .zero
          detachAttemptActive := false }
      rcases hrefresh with ⟨d, hd⟩
      refine .inr ⟨_, k, rfl, ?_, ?_, ?_, ?_⟩
      · intro j hjk
        simp only [set_entries_of_ne c' _ hjk]
        exact hslots j
      · simp only [set_entries_self, resetAttachedUnitIdentity, hd]
        rw [nextCacheGeneration_eq (by omega)]
        omega
      · simp only [set_entries_self, resetAttachedUnitIdentity, hd]
        exact hk
      · simp only [set_entries_self, resetAttachedUnitIdentity]
        refine ⟨?_, ?_, ?_, ?_, ?_, ?_, ?_⟩
        · rw [hd]
          exact hpath
        · rw [hd]
          exact hmount
        · rw [hd]
        · rw [hd]
        · rw [hd]
        · rw [hd]
        · exact ⟨_, rfl, rfl, rfl, rfl⟩

end ShadowMount.ImageCache
