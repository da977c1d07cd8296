import ShadowMount.ImageCache.Invariant

/-!
# Image cache - Failed operations

An operation that fails leaves every slot of the table as it was.  The stages of an
operation that come before its last check are the upsert of a mapping, which changes
only a slot without a device, and the request of a detach, which is kept although the
device node cannot be observed.

Main results:

- Theorem {lit}`failed_operation_atomic`: no failed operation changes the table, but for a
  request of a detach that answers {lit}`EAGAIN`.
-/

namespace ShadowMount.ImageCache

variable {n : Nat}
variable {c : Cache n} {e : Entry} {α : Type}

/-- The error of an outcome. -/
def failureOf {α : Type} : Outcome α → Option (Option Errno)
  | .error err => some err
  | .ok _ => none

/-- How a call of an operation fails. -/
def failure (c : Cache n) : Operation → Option (Option Errno)
  | .sourceMapping path mountPoint => failureOf (cacheImageSourceMapping c path mountPoint).2
  | .begin path mountPoint => failureOf (beginImageAttachment c path mountPoint).2
  | .cancel path generation => failureOf (cancelImageAttachment c path generation).2
  | .publish nodes path generation unitId backend =>
    failureOf (publishImageAttachment nodes c path generation unitId backend).2
  | .complete nodes path generation unitId backend =>
    failureOf (completeImageAttachment nodes c path generation unitId backend).2
  | .mount nodes path mountPoint unitId backend =>
    failureOf (cacheImageMount nodes c path mountPoint unitId backend).2
  | .markDetachRequested nodes path generation unitId backend =>
    failureOf (markImageCacheDetachRequested nodes c path generation unitId backend).2
  | .claimDetach nodes path generation unitId backend =>
    failureOf (claimImageCacheDetach nodes c path generation unitId backend).2
  | .finishDetach path generation unitId backend detachState =>
    failureOf (finishImageCacheDetachAttempt c path generation unitId backend detachState).2
  | .invalidate index expected => failureOf (invalidateImageCacheEntry c index expected).2

/-- No detach attempt is recorded in a free slot. -/
def IdleSlots (c : Cache n) : Prop :=
  ∀ k, (c.entries k).valid = false → (c.entries k).detachAttemptActive = false

theorem idleSlots_initial : IdleSlots (Cache.initial : Cache n) :=
  fun _ _ => rfl

theorem IdleSlots.set (h : IdleSlots c) (k : Fin n)
    (he : e.valid = false → e.detachAttemptActive = false) : IdleSlots (c.set k e) := by
  intro j hj
  by_cases hjk : j = k
  · subst hjk
    rw [set_entries_self] at hj ⊢
    exact he hj
  · rw [set_entries_of_ne c e hjk] at hj ⊢
    exact h j hj

theorem IdleSlots.clear (h : IdleSlots c) (k : Fin n) : IdleSlots (c.set k Entry.zero) :=
  h.set k fun _ => rfl

theorem IdleSlots.modify (h : IdleSlots c) (k : Fin n) (hvalid : e.valid = (c.entries k).valid)
    (hattempt : e.detachAttemptActive = (c.entries k).detachAttemptActive) :
    IdleSlots (c.set k e) := by
  refine h.set k fun hv => ?_
  rw [hattempt]
  exact h k (hvalid ▸ hv)

theorem IdleSlots.withGeneration (h : IdleSlots c) (g : Nat) :
    IdleSlots { c with generation := g } :=
  h

theorem refreshAttachedUnitIdentity_flags (nodes : NodeView) (e : Entry) :
    (refreshAttachedUnitIdentity nodes e).1.valid = e.valid ∧
      (refreshAttachedUnitIdentity nodes e).1.detachAttemptActive = e.detachAttemptActive := by
  obtain ⟨d, hd⟩ := refreshAttachedUnitIdentity_eq nodes e
  rw [hd]
  exact ⟨rfl, rfl⟩

/-- Two entries are merged, or nothing is changed. -/
theorem resolveOrMergeMappingIndex_cases {c' : Cache n} {path mountPoint : Text}
    {index : Option (Fin n)} {merged : Bool}
    (h : resolveOrMergeMappingIndex c path mountPoint = .ok (index, c', merged)) :
    (merged = false ∧ c' = c) ∨ merged = true ∧
      ∃ p m, index = some p ∧ p ≠ m ∧ c' = c.set m Entry.zero ∧
        cacheEntryIsMetadataOnly (c.entries p) = true := by
  unfold resolveOrMergeMappingIndex at h
  split at h
  · cases h
  · cases h
    exact .inl ⟨rfl, rfl⟩
  · cases h
    exact .inl ⟨rfl, rfl⟩
  · split at h
    · cases h
      exact .inl ⟨rfl, rfl⟩
    · rename_i hne
      split at h
      · cases h
      · rename_i hmeta
        cases h
        refine .inr ⟨rfl, _, _, rfl, hne, rfl, ?_⟩
        simp only [Bool.or_eq_true, Bool.not_eq_true', not_or, Bool.not_eq_false] at hmeta
        exact hmeta.1

/-- What an upsert does: it fails and changes nothing, it returns a slot with a device and
changes nothing, or it returns a slot without a device. -/
theorem upsertImageSourceMapping_cases (h : IdleSlots c) (path mountPoint : Text) :
    IdleSlots (upsertImageSourceMapping c path mountPoint).1 ∧
      ((∃ err, upsertImageSourceMapping c path mountPoint = (c, .error err)) ∨
        ∃ k, (upsertImageSourceMapping c path mountPoint).2 = .ok k ∧
          ((upsertImageSourceMapping c path mountPoint).1 = c ∨
            cacheEntryIsMetadataOnly
              ((upsertImageSourceMapping c path mountPoint).1.entries k) = true)) := by
  unfold upsertImageSourceMapping
  split
  · exact ⟨h, .inl ⟨_, rfl⟩⟩
  split
  · exact ⟨h, .inl ⟨_, rfl⟩⟩
  split
  · exact ⟨h, .inl ⟨_, rfl⟩⟩
  · rename_i k c' merged hresolved
    have hidle : IdleSlots c' := by
      rcases resolveOrMergeMappingIndex_cases hresolved with ⟨-, rfl⟩ | ⟨-, _, m, -, -, rfl, -⟩
      · exact h
      · exact h.clear m
    dsimp only
    split
    · -- a slot with a device whose mapping would change; a merge returns no such slot
      rename_i hbusy
      refine ⟨hidle, .inl ?_⟩
      rcases resolveOrMergeMappingIndex_cases hresolved with
        ⟨-, rfl⟩ | ⟨-, p, m, hp, hne, rfl, hmeta⟩
      · exact ⟨_, rfl⟩
      · cases hp
        rw [set_entries_of_ne c _ hne, hmeta] at hbusy
        simp at hbusy
    · rename_i hallowed
      split
      · rename_i hchanged
        refine ⟨?_, .inr ⟨k, rfl, .inr ?_⟩⟩
        · refine IdleSlots.withGeneration ?_ _
          exact hidle.modify k rfl rfl
        · rw [hchanged, Bool.and_true, Bool.not_eq_true', Bool.not_eq_false] at hallowed
          simpa [cacheEntryIsMetadataOnly] using hallowed
      · rename_i hsame
        simp only [Bool.or_eq_true, not_or, Bool.not_eq_true, ne_eq, decide_not,
          Bool.not_eq_false', decide_eq_true_eq] at hsame
        refine ⟨hidle.modify k rfl rfl, .inr ⟨k, rfl, .inl ?_⟩⟩
        rcases resolveOrMergeMappingIndex_cases hresolved with ⟨-, rfl⟩ | ⟨hmerged, -⟩
        · have hentry : { c'.entries k with path := path, mountPoint := mountPoint } =
              c'.entries k := by
            rw [← hsame.1.2, ← hsame.2]
          rw [hentry]
          exact congrArg (fun entries => { c' with entries := entries })
            (Function.update_eq_self k c'.entries)
        · rw [hsame.1.1] at hmerged
          cases hmerged
  · rename_i c' merged hresolved
    have hsame : c' = c := by
      rcases resolveOrMergeMappingIndex_cases hresolved with ⟨-, rfl⟩ | ⟨-, _, _, hp, -⟩
      · rfl
      · cases hp
    subst hsame
    split
    · exact ⟨h, .inl ⟨_, rfl⟩⟩
    · rename_i k hfree
      refine ⟨(h.set k fun hv => by cases hv).withGeneration _, .inr ⟨k, rfl, .inr ?_⟩⟩
      have hattempt := h k (findFreeIndex_eq_some hfree)
      simp [cacheEntryIsMetadataOnly, hattempt]

/-- A call leaves no attempt in a free slot, and the table as it was if it fails. -/
structure Atomic {α : Type} (c : Cache n) (result : Cache n × Outcome α) : Prop where
  idle : IdleSlots result.1
  unchanged : ∀ err, result.2 = .error err → result.1.entries = c.entries

/-- An operation that fails without a change is atomic. -/
theorem Atomic.failed (h : IdleSlots c) (err : Option Errno) : Atomic (α := α) c (c, .error err) :=
  ⟨h, fun _ _ => rfl⟩

theorem Atomic.done {c' : Cache n} (h : IdleSlots c') (a : α) : Atomic c (c', .ok a) :=
  ⟨h, nofun⟩

section Operations

variable {nodes : NodeView} {path mountPoint : Option Text} {generation : Nat} {unitId : Int}
variable {backend : AttachBackend} {detachState : Option AttachedUnitDetachState}
variable {index : Int} {expected : Option EntryView}

theorem cacheImageSourceMapping_atomic (h : IdleSlots c) :
    Atomic c (cacheImageSourceMapping c path mountPoint) := by
  unfold cacheImageSourceMapping
  split
  · rename_i path mountPoint
    obtain ⟨hidle, ⟨err, hfailed⟩ | ⟨k, hok, -⟩⟩ := upsertImageSourceMapping_cases h path mountPoint
    · rw [hfailed]
      exact .failed h _
    · generalize upsertImageSourceMapping c path mountPoint = result at hidle hok
      obtain ⟨c', outcome⟩ := result
      cases hok
      exact .done hidle ()
  · exact .failed h _

/-- A reservation is made or the cache is as before. -/
theorem beginImageAttachment_atomic (h : IdleSlots c) :
    Atomic c (beginImageAttachment c path mountPoint) := by
  unfold beginImageAttachment
  split
  · rename_i path mountPoint
    obtain ⟨hidle, ⟨err, hfailed⟩ | ⟨k, hok, hkept⟩⟩ :=
      upsertImageSourceMapping_cases h path mountPoint
    · rw [hfailed]
      exact .failed h _
    · generalize upsertImageSourceMapping c path mountPoint = result at hidle hok hkept
      obtain ⟨c', outcome⟩ := result
      cases hok
      dsimp only
      split
      · rename_i hdevice
        rcases hkept with hsame | hmeta
        · have hsame : c' = c := hsame
          subst hsame
          exact .failed h _
        · rw [hmeta] at hdevice
          cases hdevice
      · refine .done (IdleSlots.withGeneration ?_ _) _
        exact hidle.set k fun _ => rfl
  · exact .failed h _

theorem cancelImageAttachment_atomic (h : IdleSlots c) :
    Atomic c (cancelImageAttachment c path generation) := by
  unfold cancelImageAttachment
  split
  · exact .failed h _
  split
  · exact .failed h _
  split
  · exact .failed h _
  split
  · exact .done (h.clear _) _
  · exact .failed h _

theorem IdleSlots.refresh (h : IdleSlots c) (nodes : NodeView) (k : Fin n)
    (hvalid : e.valid = (c.entries k).valid)
    (hattempt : e.detachAttemptActive = (c.entries k).detachAttemptActive) :
    IdleSlots (c.set k (refreshAttachedUnitIdentity nodes e).1) := by
  obtain ⟨hv, ha⟩ := refreshAttachedUnitIdentity_flags nodes e
  exact h.modify k (hv.trans hvalid) (ha.trans hattempt)

/-- A failed publication changes nothing. -/
theorem publishImageAttachment_atomic (h : IdleSlots c) :
    Atomic c (publishImageAttachment nodes c path generation unitId backend) := by
  unfold publishImageAttachment
  split
  · exact .failed h _
  split
  · exact .failed h _
  split
  · exact .failed h _
  split
  · refine .done ?_ _
    exact h.refresh nodes _ rfl rfl
  · exact .failed h _

theorem completeImageAttachment_atomic (h : IdleSlots c) :
    Atomic c (completeImageAttachment nodes c path generation unitId backend) := by
  unfold completeImageAttachment
  split
  · exact .failed h _
  split
  · exact .failed h _
  split
  · exact .failed h _
  dsimp only
  split
  · exact .failed h _
  · refine .done ?_ _
    exact h.refresh nodes _ rfl rfl

/-- A failed record of a mount changes nothing. -/
theorem cacheImageMount_atomic (h : IdleSlots c) :
    Atomic c (cacheImageMount nodes c path mountPoint unitId backend) := by
  unfold cacheImageMount
  split
  · rename_i path mountPoint
    split
    · exact .failed h _
    obtain ⟨hidle, ⟨err, hfailed⟩ | ⟨k, hok, -⟩⟩ := upsertImageSourceMapping_cases h path mountPoint
    · rw [hfailed]
      exact .failed h _
    · generalize upsertImageSourceMapping c path mountPoint = result at hidle hok
      obtain ⟨c', outcome⟩ := result
      cases hok
      refine .done (IdleSlots.withGeneration (hidle.set k fun _ => ?_) _) _
      exact (refreshAttachedUnitIdentity_flags nodes _).2
  · exact .failed h _

theorem refreshAttachedUnitIdentity_refused {nodes : NodeView} {e' : Entry} (hunit : 0 ≤ e.unitId)
    (hbackend : attachBackendIsValid e.backend = true)
    (h : refreshAttachedUnitIdentity nodes e = (e', false)) :
    e' = e ∧ nodes e.backend e.unitId = none := by
  unfold refreshAttachedUnitIdentity at h
  split at h
  · rename_i hdevice
    simp [hbackend] at hdevice
    omega
  split at h
  · cases h
  split at h
  · rename_i hnode
    cases h
    exact ⟨rfl, hnode⟩
  · cases h

/-- A failed claim changes nothing. -/
theorem claimImageCacheDetach_atomic (h : IdleSlots c) :
    Atomic c (claimImageCacheDetach nodes c path generation unitId backend) := by
  unfold claimImageCacheDetach
  split
  · exact .failed h _
  split
  · exact .failed h _
  rename_i hargs
  split
  · exact .failed h _
  rename_i k hrecord
  obtain ⟨hvalid, -, -, hunit, hbackend⟩ := findAttachmentRecord_eq_some hrecord
  simp only [not_or, not_lt, Bool.not_eq_true', Bool.not_eq_false] at hargs
  dsimp only
  split
  · exact .failed h _
  split
  · rename_i e hrefused
    obtain ⟨rfl, -⟩ := refreshAttachedUnitIdentity_refused (by rw [hunit]; exact hargs.2.1)
      (by rw [hbackend]; exact hargs.2.2) hrefused
    have hsame : c.set k (c.entries k) = c :=
      congrArg (fun entries => { c with entries := entries }) (Function.update_eq_self k c.entries)
    rw [hsame]
    exact .failed h _
  · rename_i e hrefreshed
    refine .done (h.set k fun hv => ?_) _
    have hflags := (refreshAttachedUnitIdentity_flags nodes (c.entries k)).1
    rw [hrefreshed] at hflags
    have hinvalid : e.valid = false := hv
    rw [hflags, hvalid] at hinvalid
    cases hinvalid

theorem finishImageCacheDetachAttempt_atomic (h : IdleSlots c) :
    Atomic c (finishImageCacheDetachAttempt c path generation unitId backend detachState) := by
  unfold finishImageCacheDetachAttempt
  split
  · split
    · exact .failed h _
    split
    · exact .failed h _
    dsimp only
    split
    · exact .failed h _
    · exact .done (h.set _ fun _ => rfl) _
  · exact .failed h _

theorem invalidateImageCacheEntry_atomic (h : IdleSlots c) :
    Atomic c (invalidateImageCacheEntry c index expected) := by
  unfold invalidateImageCacheEntry
  split
  · exact .failed h _
  split
  · dsimp only
    split
    · exact .failed h _
    split
    · exact .failed h _
    · exact .done (h.clear _) _
  · exact .failed h _

/-- A request of a detach that answers `EAGAIN`: the node of the addressed entry cannot be
observed, and the entry has moved to the requested state. -/
def RequestKept (c : Cache n) (op : Operation) (err : Option Errno) : Prop :=
  ∃ nodes path generation unitId backend k,
    op = .markDetachRequested nodes (some path) generation unitId backend ∧
      err = some .EAGAIN ∧ findAttachmentRecord c path generation unitId backend = some k ∧
      nodes backend unitId = none ∧
      (apply c op).entries =
        Function.update c.entries k { c.entries k with state := .detachRequested }

theorem markImageCacheDetachRequested_cases (h : IdleSlots c) :
    IdleSlots (markImageCacheDetachRequested nodes c path generation unitId backend).1 ∧
      ∀ err, (markImageCacheDetachRequested nodes c path generation unitId backend).2 = .error err →
        (markImageCacheDetachRequested nodes c path generation unitId backend).1.entries =
            c.entries ∨
          RequestKept c (.markDetachRequested nodes path generation unitId backend) err := by
  cases path with
  | none => exact ⟨h, fun _ _ => .inl rfl⟩
  | some path =>
    by_cases hargs : generation = 0 ∨ unitId < 0 ∨ !attachBackendIsValid backend
    · simp only [markImageCacheDetachRequested, if_pos hargs]
      exact ⟨h, fun _ _ => .inl trivial⟩
    cases hrecord : findAttachmentRecord c path generation unitId backend with
    | none =>
      simp only [markImageCacheDetachRequested, if_neg hargs, hrecord]
      exact ⟨h, fun _ _ => .inl trivial⟩
    | some k =>
      obtain ⟨hvalid, -, -, hunit, hbackend⟩ := findAttachmentRecord_eq_some hrecord
      have hrefresh := h.refresh nodes k
        (e := { c.entries k with state := .detachRequested }) rfl rfl
      rcases hresult : refreshAttachedUnitIdentity nodes
          { c.entries k with state := .detachRequested } with ⟨e, known⟩
      rw [hresult] at hrefresh
      cases known with
      | true =>
        simp only [markImageCacheDetachRequested, if_neg hargs, hrecord, hresult]
        exact ⟨hrefresh, fun _ herr => by cases herr⟩
      | false =>
        simp only [not_or, not_lt, Bool.not_eq_true', Bool.not_eq_false] at hargs
        obtain ⟨he, hnode⟩ := refreshAttachedUnitIdentity_refused (hunit ▸ hargs.2.1)
          (hbackend ▸ hargs.2.2) hresult
        have hnot : ¬ (generation = 0 ∨ unitId < 0 ∨ !attachBackendIsValid backend) := by
          simpa using hargs
        have hmark : markImageCacheDetachRequested nodes c (some path) generation unitId backend =
            (c.set k e, .error (some .EAGAIN)) := by
          simp only [markImageCacheDetachRequested, if_neg hnot, hrecord, hresult]
        rw [hmark]
        refine ⟨hrefresh, fun err herr => .inr ?_⟩
        cases herr
        refine ⟨nodes, path, generation, unitId, backend, k, rfl, rfl, hrecord, ?_, ?_⟩
        · rw [← hunit, ← hbackend]
          exact hnode
        · rw [apply, hmark, he]
          rfl

end Operations

theorem failureOf_eq_some {outcome : Outcome α} {err : Option Errno}
    (h : failureOf outcome = some err) : outcome = .error err := by
  cases outcome with
  | error e =>
    cases h
    rfl
  | ok a => cases h

/-- An operation that fails has changed nothing, or kept the request. -/
theorem apply_cases (h : IdleSlots c) (op : Operation) :
    IdleSlots (apply c op) ∧ ∀ err, failure c op = some err →
      (apply c op).entries = c.entries ∨ RequestKept c op err := by
  have hatomic : ∀ {α : Type} {result : Cache n × Outcome α}, Atomic c result →
      IdleSlots result.1 ∧ ∀ err, failureOf result.2 = some err →
        result.1.entries = c.entries ∨ RequestKept c op err :=
    fun hresult => ⟨hresult.idle,
      fun err herr => .inl (hresult.unchanged err (failureOf_eq_some herr))⟩
  cases op with
  | sourceMapping => exact hatomic (cacheImageSourceMapping_atomic h)
  | begin => exact hatomic (beginImageAttachment_atomic h)
  | cancel => exact hatomic (cancelImageAttachment_atomic h)
  | publish => exact hatomic (publishImageAttachment_atomic h)
  | complete => exact hatomic (completeImageAttachment_atomic h)
  | mount => exact hatomic (cacheImageMount_atomic h)
  | markDetachRequested =>
    obtain ⟨hidle, hkept⟩ := markImageCacheDetachRequested_cases h
    exact ⟨hidle, fun err herr => hkept err (failureOf_eq_some herr)⟩
  | claimDetach => exact hatomic (claimImageCacheDetach_atomic h)
  | finishDetach => exact hatomic (finishImageCacheDetachAttempt_atomic h)
  | invalidate => exact hatomic (invalidateImageCacheEntry_atomic h)

/-- In every run, an invalid entry has no detach attempt. -/
theorem run_idleSlots (ops : List Operation) : IdleSlots (run (Cache.initial : Cache n) ops) := by
  have hfrom : ∀ c : Cache n, IdleSlots c → IdleSlots (run c ops) := by
    induction ops with
    | nil => exact fun c h => h
    | cons op ops ih => exact fun c h => ih (apply c op) (apply_cases h op).1
  exact hfrom _ idleSlots_initial

/-- In every reachable table an operation that fails leaves every slot as it was, but for a
request of a detach whose node cannot be observed, which may move the addressed entry to the
requested state. -/
theorem failed_operation_atomic (ops : List Operation) (op : Operation) (err : Option Errno)
    (hfailed : failure (run (Cache.initial : Cache n) ops) op = some err) :
    (apply (run (Cache.initial : Cache n) ops) op).entries =
        (run (Cache.initial : Cache n) ops).entries ∨
      RequestKept (run (Cache.initial : Cache n) ops) op err :=
  (apply_cases (run_idleSlots ops) op).2 err hfailed

/-- A reserved path cannot be reserved again. -/
theorem failed_operation_atomic_busy :
    let ops : List Operation := [.begin (some "/a.ffpkg".toList) (some "/mnt/a".toList)]
    let op : Operation := .begin (some "/a.ffpkg".toList) (some "/mnt/a".toList)
    failure (run (Cache.initial : Cache 2) ops) op = some (some .EBUSY) ∧
      ((apply (run Cache.initial ops) op).entries = (run (Cache.initial : Cache 2) ops).entries ∨
        RequestKept (run (Cache.initial : Cache 2) ops) op (some .EBUSY)) :=
  ⟨by decide +kernel, failed_operation_atomic _ _ _ (by decide +kernel)⟩

end ShadowMount.ImageCache
