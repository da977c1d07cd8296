import ShadowMount.Types
import Mathlib.Data.Fin.Tuple.Basic
import Mathlib.Data.List.FinRange
import Mathlib.Logic.Function.Basic

/-!
# Image cache - the operations of {lit}`sm_image_cache.c`

The cache is a fixed table of entries and one generation counter, both guarded
by one mutex, so every public operation is one atomic step on that pair.  The
table is a function from its slots; a slot that is not valid is kept zeroed by
the operations, exactly as the {lit}`memset` calls of the source leave it.

The number of slots is a parameter.  The source fixes it to
{lit}`MAX_IMAGE_MOUNTS`; nothing below depends on the value.
-/

namespace ShadowMount.ImageCache

variable {n : Nat}

/-- One slot, `struct ImageCache`. -/
structure Entry where
  generation : Nat
  path : Text
  mountPoint : Text
  unitId : Int
  backend : AttachBackend
  state : AttachedDeviceState
  detachState : AttachedUnitDetachState
  detachAttemptActive : Bool
  valid : Bool
deriving DecidableEq

/-- A slot after `memset(…, 0, …)`. -/
def Entry.zero : Entry where
  generation := 0
  path := []
  mountPoint := []
  unitId := 0
  backend := .none
  state := .released
  detachState := .zero
  detachAttemptActive := false
  valid := false

/-- The table and `g_image_cache_generation`. -/
structure Cache (n : Nat) where
  entries : Fin n → Entry
  generation : Nat

/-- The cache at program start. -/
def Cache.initial : Cache n where
  entries := fun _ => Entry.zero
  generation := 0

/-- Store one slot. -/
def Cache.set (c : Cache n) (k : Fin n) (e : Entry) : Cache n :=
  { c with entries := Function.update c.entries k e }

/-- The copy of a slot that the accessors hand out, `image_cache_entry_t`. -/
structure EntryView where
  generation : Nat
  path : Text
  mountPoint : Text
  unitId : Int
  backend : AttachBackend
  state : AttachedDeviceState
  detachState : AttachedUnitDetachState
deriving DecidableEq

def copyCacheEntry (e : Entry) : EntryView where
  generation := e.generation
  path := e.path
  mountPoint := e.mountPoint
  unitId := e.unitId
  backend := e.backend
  state := e.state
  detachState := e.detachState

/-- The 64-bit counter skips zero when it wraps. -/
def nextCacheGeneration (g : Nat) : Nat :=
  let g := (g + 1) % 2 ^ 64
  if g = 0 then 1 else g

def attachBackendIsValid (b : AttachBackend) : Bool :=
  b = .md || b = .lvd

def deviceIdentityMatches (l r : AttachedUnitDetachState) : Bool :=
  l.nodeIdentityValid && r.nodeIdentityValid && l.nodeDevice = r.nodeDevice &&
    l.nodeInode = r.nodeInode && l.nodeRdev = r.nodeRdev

/-- Record the identity of the unit's device node unless one is known already.
The result tells whether an identity is known afterwards. -/
def refreshAttachedUnitIdentity (nodes : NodeView) (e : Entry) : Entry × Bool :=
  if !attachBackendIsValid e.backend || e.unitId < 0 then (e, false)
  else if e.detachState.nodeIdentityValid then (e, true)
  else match nodes e.backend e.unitId with
    | none => (e, false)
    | some st =>
      ({ e with detachState :=
          { e.detachState with
            nodeIdentityValid := true
            nodeDevice := st.device
            nodeInode := st.inode
            nodeRdev := st.rdev } }, true)

def resetAttachedUnitIdentity (nodes : NodeView) (e : Entry) : Entry :=
  (refreshAttachedUnitIdentity nodes { e with detachState := .zero }).1

def findSourcePathIndex (c : Cache n) (path : Text) : Option (Fin n) :=
  Fin.find? fun k => (c.entries k).valid && (c.entries k).path = path

def findMountPointIndex (c : Cache n) (mountPoint : Text) : Option (Fin n) :=
  Fin.find? fun k => (c.entries k).valid && (c.entries k).mountPoint = mountPoint

/-- The first slot that holds no entry. -/
def findFreeIndex (c : Cache n) : Option (Fin n) :=
  Fin.find? fun k => !(c.entries k).valid

def cacheEntryIsMetadataOnly (e : Entry) : Bool :=
  e.state = .released && e.unitId < 0 && e.backend = .none && !e.detachAttemptActive

/-- The scan of `find_mapping_indices`, slot by slot, with the two indices
found so far. -/
def findMappingIndicesFrom (c : Cache n) (path mountPoint : Text) :
    List (Fin n) → Option (Fin n) → Option (Fin n) →
      Except Errno (Option (Fin n) × Option (Fin n))
  | [], pathIndex, mountIndex => .ok (pathIndex, mountIndex)
  | k :: ks, pathIndex, mountIndex =>
    let e := c.entries k
    if !e.valid then findMappingIndicesFrom c path mountPoint ks pathIndex mountIndex
    else if e.path = path ∧ pathIndex.isSome then .error .EEXIST
    else
      let pathIndex := if e.path = path then some k else pathIndex
      if e.mountPoint = mountPoint ∧ mountIndex.isSome then .error .EEXIST
      else
        let mountIndex := if e.mountPoint = mountPoint then some k else mountIndex
        findMappingIndicesFrom c path mountPoint ks pathIndex mountIndex

/-- The slots owning the path and the mount point; `EEXIST` when one of them
is owned twice. -/
def findMappingIndices (c : Cache n) (path mountPoint : Text) :
    Except Errno (Option (Fin n) × Option (Fin n)) :=
  findMappingIndicesFrom c path mountPoint (List.finRange n) none none

/-- The slot a mapping belongs to, the table after a merge, and whether two
metadata-only half-mappings were merged. -/
def resolveOrMergeMappingIndex (c : Cache n) (path mountPoint : Text) :
    Except Errno (Option (Fin n) × Cache n × Bool) :=
  match findMappingIndices c path mountPoint with
  | .error err => .error err
  | .ok (none, mountIndex) => .ok (mountIndex, c, false)
  | .ok (some p, none) => .ok (some p, c, false)
  | .ok (some p, some m) =>
    if p = m then .ok (some p, c, false)
    else if !cacheEntryIsMetadataOnly (c.entries p) ||
        !cacheEntryIsMetadataOnly (c.entries m) then .error .EBUSY
    else .ok (some p, c.set m Entry.zero, true)

/-- The record of an attachment, found by path and confirmed by its token. -/
def findAttachmentRecord (c : Cache n) (path : Text) (generation : Nat)
    (unitId : Int) (backend : AttachBackend) : Option (Fin n) :=
  match findSourcePathIndex c path with
  | none => none
  | some k =>
    let e := c.entries k
    if e.generation ≠ generation || e.unitId ≠ unitId || e.backend ≠ backend then none
    else some k

/-- Reserve or retarget the slot of a (path, mount point) pair. -/
def upsertImageSourceMapping (c : Cache n) (path mountPoint : Text) :
    Cache n × Except Errno (Fin n) :=
  if path = [] ∨ mountPoint = [] then (c, .error .EINVAL)
  else if maxPath ≤ path.length ∨ maxPath ≤ mountPoint.length then
    (c, .error .ENAMETOOLONG)
  else match resolveOrMergeMappingIndex c path mountPoint with
    | .error err => (c, .error err)
    | .ok (some k, c, merged) =>
      let e := c.entries k
      let mappingChanged := merged || e.path ≠ path || e.mountPoint ≠ mountPoint
      if !cacheEntryIsMetadataOnly e && mappingChanged then (c, .error .EBUSY)
      else if mappingChanged then
        let g := nextCacheGeneration c.generation
        ({ c.set k { e with path := path, mountPoint := mountPoint, generation := g } with
            generation := g }, .ok k)
      else (c.set k { e with path := path, mountPoint := mountPoint }, .ok k)
    | .ok (none, c, _) =>
      match findFreeIndex c with
      | none => (c, .error .ENOSPC)
      | some k =>
        let g := nextCacheGeneration c.generation
        ({ c.set k { c.entries k with
              path := path
              mountPoint := mountPoint
              unitId := -1
              backend := .none
              state := .released
              generation := g
              valid := true } with
            generation := g }, .ok k)

/-- `cache_image_source_mapping`; a null pointer is `none`. -/
def cacheImageSourceMapping (c : Cache n) (path mountPoint : Option Text) :
    Cache n × Outcome Unit :=
  match path, mountPoint with
  | some path, some mountPoint =>
    match upsertImageSourceMapping c path mountPoint with
    | (c, .ok _) => (c, .ok ())
    | (c, .error err) => (c, .error (some err))
  | _, _ => (c, .error (some .EINVAL))

/-- `begin_image_attachment`: reserve a record before the attach ioctl. -/
def beginImageAttachment (c : Cache n) (path mountPoint : Option Text) :
    Cache n × Outcome Nat :=
  match path, mountPoint with
  | some path, some mountPoint =>
    match upsertImageSourceMapping c path mountPoint with
    | (c, .error err) => (c, .error (some err))
    | (c, .ok k) =>
      if !cacheEntryIsMetadataOnly (c.entries k) then (c, .error (some .EBUSY))
      else
        let g := nextCacheGeneration c.generation
        ({ c.set k { c.entries k with
              generation := g
              unitId := -1
              backend := .none
              state := .attaching
              detachState := .zero
              detachAttemptActive := false } with
            generation := g }, .ok g)
  | _, _ => (c, .error (some .EINVAL))

/-- Does the slot hold an unpublished reservation of this generation? -/
def isUnpublishedReservation (e : Entry) (generation : Nat) : Bool :=
  e.generation = generation && e.state = .attaching && e.unitId < 0 && e.backend = .none

/-- `cancel_image_attachment`. -/
def cancelImageAttachment (c : Cache n) (path : Option Text) (generation : Nat) :
    Cache n × Outcome Unit :=
  match path with
  | none => (c, .error none)
  | some path =>
    if generation = 0 then (c, .error none)
    else match findSourcePathIndex c path with
      | none => (c, .error none)
      | some k =>
        if isUnpublishedReservation (c.entries k) generation then
          (c.set k Entry.zero, .ok ())
        else (c, .error none)

/-- `publish_image_attachment`: record the unit the kernel returned. -/
def publishImageAttachment (nodes : NodeView) (c : Cache n) (path : Option Text)
    (generation : Nat) (unitId : Int) (backend : AttachBackend) :
    Cache n × Outcome Unit :=
  match path with
  | none => (c, .error (some .EINVAL))
  | some path =>
    if generation = 0 ∨ unitId < 0 ∨ !attachBackendIsValid backend then
      (c, .error (some .EINVAL))
    else match findSourcePathIndex c path with
      | none => (c, .error none)
      | some k =>
        if isUnpublishedReservation (c.entries k) generation then
          (c.set k (refreshAttachedUnitIdentity nodes
            { c.entries k with unitId := unitId, backend := backend }).1, .ok ())
        else (c, .error none)

/-- `complete_image_attachment`: the published device carries a verified
mount. -/
def completeImageAttachment (nodes : NodeView) (c : Cache n) (path : Option Text)
    (generation : Nat) (unitId : Int) (backend : AttachBackend) :
    Cache n × Outcome Unit :=
  match path with
  | none => (c, .error (some .EINVAL))
  | some path =>
    if generation = 0 ∨ unitId < 0 ∨ !attachBackendIsValid backend then
      (c, .error (some .EINVAL))
    else match findSourcePathIndex c path with
      | none => (c, .error none)
      | some k =>
        let e := c.entries k
        if e.generation ≠ generation || e.unitId ≠ unitId || e.backend ≠ backend ||
            e.state ≠ .attaching then (c, .error none)
        else
          (c.set k (refreshAttachedUnitIdentity nodes
            { e with state := .mounted }).1, .ok ())

/-- `cache_image_mount`: record a mount found in the kernel table. -/
def cacheImageMount (nodes : NodeView) (c : Cache n) (path mountPoint : Option Text)
    (unitId : Int) (backend : AttachBackend) : Cache n × Outcome Unit :=
  match path, mountPoint with
  | some path, some mountPoint =>
    if unitId < 0 ∨ !attachBackendIsValid backend then (c, .error (some .EINVAL))
    else match upsertImageSourceMapping c path mountPoint with
      | (c, .error err) => (c, .error (some err))
      | (c, .ok k) =>
        let g := nextCacheGeneration c.generation
        ({ c.set k (resetAttachedUnitIdentity nodes { c.entries k with
              generation := g
              unitId := unitId
              backend := backend
              state := .mounted
              detachAttemptActive := false }) with
            generation := g }, .ok ())
  | _, _ => (c, .error (some .EINVAL))

/-- `find_image_cache_entry`. -/
def findImageCacheEntry (c : Cache n) (path : Option Text) :
    Option (EntryView × Fin n) :=
  match path with
  | none => none
  | some path => (findSourcePathIndex c path).map fun k => (copyCacheEntry (c.entries k), k)

/-- `get_image_cache_entry`. -/
def getImageCacheEntry (c : Cache n) (index : Int) : Option EntryView :=
  if h : 0 ≤ index ∧ index.toNat < n then
    let e := c.entries ⟨index.toNat, h.2⟩
    if e.valid then some (copyCacheEntry e) else none
  else none

/-- `resolve_device_from_mount_cache`. -/
def resolveDeviceFromMountCache (c : Cache n) (mountPoint : Text) :
    Option (AttachBackend × Int) :=
  match findMountPointIndex c mountPoint with
  | none => none
  | some k =>
    let e := c.entries k
    if e.backend = .none || e.unitId < 0 then none else some (e.backend, e.unitId)

/-- `mark_image_cache_detach_requested`. -/
def markImageCacheDetachRequested (nodes : NodeView) (c : Cache n)
    (path : Option Text) (generation : Nat) (unitId : Int)
    (backend : AttachBackend) : Cache n × Outcome Unit :=
  match path with
  | none => (c, .error (some .EINVAL))
  | some path =>
    if generation = 0 ∨ unitId < 0 ∨ !attachBackendIsValid backend then
      (c, .error (some .EINVAL))
    else match findAttachmentRecord c path generation unitId backend with
      | none => (c, .error (some .ESTALE))
      | some k =>
        match refreshAttachedUnitIdentity nodes
            { c.entries k with state := .detachRequested } with
        | (e, true) => (c.set k e, .ok ())
        | (e, false) => (c.set k e, .error (some .EAGAIN))

/-- `claim_image_cache_detach`: at most one caller holds the attempt. -/
def claimImageCacheDetach (nodes : NodeView) (c : Cache n) (path : Option Text)
    (generation : Nat) (unitId : Int) (backend : AttachBackend) :
    Cache n × Outcome EntryView :=
  match path with
  | none => (c, .error (some .EINVAL))
  | some path =>
    if generation = 0 ∨ unitId < 0 ∨ !attachBackendIsValid backend then
      (c, .error (some .EINVAL))
    else match findAttachmentRecord c path generation unitId backend with
      | none => (c, .error (some .ESTALE))
      | some k =>
        if (c.entries k).detachAttemptActive then (c, .error (some .EINPROGRESS))
        else match refreshAttachedUnitIdentity nodes (c.entries k) with
          | (e, false) => (c.set k e, .error (some .EAGAIN))
          | (e, true) =>
            let e := { e with state := .detachRequested, detachAttemptActive := true }
            (c.set k e, .ok (copyCacheEntry e))

/-- `finish_image_cache_detach_attempt`. -/
def finishImageCacheDetachAttempt (c : Cache n) (path : Option Text)
    (generation : Nat) (unitId : Int) (backend : AttachBackend)
    (detachState : Option AttachedUnitDetachState) : Cache n × Outcome Unit :=
  match path, detachState with
  | some path, some detachState =>
    if generation = 0 ∨ unitId < 0 ∨ !attachBackendIsValid backend ∨
        !detachState.nodeIdentityValid then (c, .error (some .EINVAL))
    else match findAttachmentRecord c path generation unitId backend with
      | none => (c, .error (some .ESTALE))
      | some k =>
        let e := c.entries k
        if !e.detachAttemptActive ||
            !deviceIdentityMatches e.detachState detachState then
          (c, .error (some .ESTALE))
        else
          (c.set k { e with
              detachState := detachState
              state := .detachRequested
              detachAttemptActive := false }, .ok ())
  | _, _ => (c, .error (some .EINVAL))

/-- Does the slot still hold the complete expected attachment? -/
def ownsExpectedAttachment (e : Entry) (expected : EntryView) : Bool :=
  e.generation = expected.generation && e.path = expected.path &&
    e.mountPoint = expected.mountPoint && e.unitId = expected.unitId &&
    e.backend = expected.backend && e.state = expected.state &&
    !e.detachAttemptActive &&
    e.detachState.requested = expected.detachState.requested &&
    deviceIdentityMatches e.detachState expected.detachState

/-- `invalidate_image_cache_entry`. -/
def invalidateImageCacheEntry (c : Cache n) (index : Int)
    (expected : Option EntryView) : Cache n × Outcome Unit :=
  match expected with
  | none => (c, .error (some .EINVAL))
  | some expected =>
    if h : 0 ≤ index ∧ index.toNat < n then
      let k : Fin n := ⟨index.toNat, h.2⟩
      if !(c.entries k).valid then (c, .error (some .ESTALE))
      else if !ownsExpectedAttachment (c.entries k) expected then
        (c, .error (some .ESTALE))
      else (c.set k Entry.zero, .ok ())
    else (c, .error (some .ESTALE))

/-- A call of a public operation that may change the table, with its arguments
and with the device nodes it would observe. -/
inductive Operation where
  | sourceMapping (path mountPoint : Option Text)
  | begin (path mountPoint : Option Text)
  | cancel (path : Option Text) (generation : Nat)
  | publish (nodes : NodeView) (path : Option Text) (generation : Nat) (unitId : Int)
      (backend : AttachBackend)
  | complete (nodes : NodeView) (path : Option Text) (generation : Nat) (unitId : Int)
      (backend : AttachBackend)
  | mount (nodes : NodeView) (path mountPoint : Option Text) (unitId : Int)
      (backend : AttachBackend)
  | markDetachRequested (nodes : NodeView) (path : Option Text) (generation : Nat)
      (unitId : Int) (backend : AttachBackend)
  | claimDetach (nodes : NodeView) (path : Option Text) (generation : Nat) (unitId : Int)
      (backend : AttachBackend)
  | finishDetach (path : Option Text) (generation : Nat) (unitId : Int)
      (backend : AttachBackend) (detachState : Option AttachedUnitDetachState)
  | invalidate (index : Int) (expected : Option EntryView)

/-- The table after one call. -/
def apply (c : Cache n) : Operation → Cache n
  | .sourceMapping path mountPoint => (cacheImageSourceMapping c path mountPoint).1
  | .begin path mountPoint => (beginImageAttachment c path mountPoint).1
  | .cancel path generation => (cancelImageAttachment c path generation).1
  | .publish nodes path generation unitId backend =>
    (publishImageAttachment nodes c path generation unitId backend).1
  | .complete nodes path generation unitId backend =>
    (completeImageAttachment nodes c path generation unitId backend).1
  | .mount nodes path mountPoint unitId backend =>
    (cacheImageMount nodes c path mountPoint unitId backend).1
  | .markDetachRequested nodes path generation unitId backend =>
    (markImageCacheDetachRequested nodes c path generation unitId backend).1
  | .claimDetach nodes path generation unitId backend =>
    (claimImageCacheDetach nodes c path generation unitId backend).1
  | .finishDetach path generation unitId backend detachState =>
    (finishImageCacheDetachAttempt c path generation unitId backend detachState).1
  | .invalidate index expected => (invalidateImageCacheEntry c index expected).1

/-- The table after a sequence of calls. -/
def run (c : Cache n) (ops : List Operation) : Cache n :=
  ops.foldl apply c

end ShadowMount.ImageCache
