import ShadowMount.Foundation.Interleaving
import ShadowMount.ImageCache.Model
import ShadowMount.Paths

/-!
# Mounting and unmounting images - the pipelines of {lit}`sm_image.c`

The mount and unmount pipelines as programs of single calls: every locked operation
of the image cache is one call, and so is every call of the kernel.  What the kernel
answers about mounts, directories and files is not constrained here; attached devices
and their nodes are.  Error numbers are kept where a branch depends on them.

The unmount of a container unmounts the images inside it, which may be containers in
turn.  The recursion is bounded by a parameter; where the bound is reached the program
stops for good, so that any beginning of an execution is one for a large enough bound.
-/

namespace ShadowMount.ImageMount

open Foundation
open ImageCache (EntryView)

/-- `image_fs_type_t`. -/
inductive ImageFsType where
  | unknown | ufs | exfat | pfs | pfscContainer
deriving DecidableEq

/-- Questions that are answered with an error number or with success, and conditions,
which hold if the answer is success. -/
inductive Query where
  | sleepModeActive
  | sourceIsProtected (path : Text)
  | pathExists (path : Text)
  | isDirectory (path : Text)
  | opendir (path : Text)
  | hasVisibleEntries (path : Text)
  | isActiveMountPoint (path : Text)
  | statfs (path : Text)
  | mountedInMode (path : Text) (readOnly : Bool)
  | clusterSizeOk (path : Text)
  | nmount (path : Text)
  | unmount (path : Text)
  | rmdir (path : Text)
  | statImage (path : Text)
  | openControl (backend : AttachBackend)
  | nodeAppears (backend : AttachBackend) (unitId : Int)
  | nodeDisappears (backend : AttachBackend) (unitId : Int)
  | nodeIsMounted (backend : AttachBackend) (unitId : Int)
deriving DecidableEq

/-- The calls of the pipelines. -/
inductive Op where
  -- the image cache
  | findEntry (path : Text)
  | getEntry (index : Int)
  | resolveFromCache (mountPoint : Text)
  | beginAttachment (path mountPoint : Text)
  | cancelAttachment (path : Text) (generation : Nat)
  | publishAttachment (path : Text) (generation : Nat) (unitId : Int) (backend : AttachBackend)
  | completeAttachment (path : Text) (generation : Nat) (unitId : Int) (backend : AttachBackend)
  | cacheMount (path mountPoint : Text) (unitId : Int) (backend : AttachBackend)
  | markDetachRequested (path : Text) (generation : Nat) (unitId : Int) (backend : AttachBackend)
  | claimDetach (path : Text) (generation : Nat) (unitId : Int) (backend : AttachBackend)
  | finishDetach (path : Text) (generation : Nat) (unitId : Int) (backend : AttachBackend)
      (detachState : AttachedUnitDetachState)
  | invalidate (index : Int) (expected : EntryView)
  -- the kernel
  | attach (backend : AttachBackend)
  | detach (backend : AttachBackend) (unitId : Int)
  | statNode (backend : AttachBackend) (unitId : Int)
  | mountedDevice (mountPoint : Text)
  | detectFsType (path : Text)
  | ask (query : Query)
  /-- Never returns. -/
  | stop
deriving DecidableEq

/-- What a call returns. -/
def Op.Response : Op → Type
  | .findEntry _ => Option (EntryView × Int)
  | .getEntry _ => Option EntryView
  | .resolveFromCache _ | .mountedDevice _ => Option (AttachBackend × Int)
  | .beginAttachment _ _ => Outcome Nat
  | .cancelAttachment _ _ | .publishAttachment _ _ _ _ | .completeAttachment _ _ _ _
  | .cacheMount _ _ _ _ | .markDetachRequested _ _ _ _ | .finishDetach _ _ _ _ _
  | .invalidate _ _ => Outcome Unit
  | .claimDetach _ _ _ _ => Outcome EntryView
  | .attach _ => Option Int
  | .detach _ _ | .ask _ => Option Errno
  | .statNode _ _ => Except Errno NodeIdentity
  | .detectFsType _ => ImageFsType
  | .stop => Empty

abbrev Pipeline (α : Type) := Prog Op.Response α

section Calls

variable (path mountPoint : Text) (generation : Nat) (unitId : Int) (backend : AttachBackend)

def findImageCacheEntry : Pipeline (Option (EntryView × Int)) := perform (Op.findEntry path)

def getImageCacheEntry (index : Int) : Pipeline (Option EntryView) := perform (Op.getEntry index)

def resolveDeviceFromMountCache : Pipeline (Option (AttachBackend × Int)) :=
  perform (Op.resolveFromCache mountPoint)

def beginImageAttachment : Pipeline (Outcome Nat) := perform (Op.beginAttachment path mountPoint)

def cancelImageAttachment : Pipeline (Outcome Unit) :=
  perform (Op.cancelAttachment path generation)

def publishImageAttachment : Pipeline (Outcome Unit) :=
  perform (Op.publishAttachment path generation unitId backend)

def completeImageAttachment : Pipeline (Outcome Unit) :=
  perform (Op.completeAttachment path generation unitId backend)

def cacheImageMount : Pipeline (Outcome Unit) :=
  perform (Op.cacheMount path mountPoint unitId backend)

def markImageCacheDetachRequested : Pipeline (Outcome Unit) :=
  perform (Op.markDetachRequested path generation unitId backend)

def claimImageCacheDetach : Pipeline (Outcome EntryView) :=
  perform (Op.claimDetach path generation unitId backend)

def finishImageCacheDetachAttempt (detachState : AttachedUnitDetachState) :
    Pipeline (Outcome Unit) :=
  perform (Op.finishDetach path generation unitId backend detachState)

def invalidateImageCacheEntry (index : Int) (expected : EntryView) : Pipeline (Outcome Unit) :=
  perform (Op.invalidate index expected)

/-- The attach ioctl. -/
def attach : Pipeline (Option Int) := perform (Op.attach backend)

/-- The detach ioctl. -/
def detach (backend : AttachBackend) (unitId : Int) : Pipeline (Option Errno) :=
  perform (Op.detach backend unitId)

/-- `stat` of the node of a unit. -/
def statNode (backend : AttachBackend) (unitId : Int) : Pipeline (Except Errno NodeIdentity) :=
  perform (Op.statNode backend unitId)

/-- The device that the mount table has for a mount point. -/
def mountedDevice : Pipeline (Option (AttachBackend × Int)) := perform (Op.mountedDevice mountPoint)

/-- `detect_image_fs_type_for_path`. -/
def detectImageFsType : Pipeline ImageFsType := perform (Op.detectFsType path)

def ask (query : Query) : Pipeline (Option Errno) := perform (Op.ask query)

end Calls

/-- Does the condition hold, did the call succeed? -/
def holds (query : Query) : Pipeline Bool := do
  return (← ask query).isNone

def isOk {ε α : Type} : Except ε α → Bool
  | .ok _ => true
  | .error _ => false

/-- What the pipelines take from the configuration and from the path conventions. -/
structure Settings where
  exfatBackend : AttachBackend
  ufsBackend : AttachBackend
  /-- `build_image_mount_point_for_fs`. -/
  buildImageMountPoint : Text → ImageFsType → Text
  /-- `MAX_IMAGE_MOUNTS`. -/
  slots : Nat

/-- `read_device_node_identity`, into the record. -/
def withIdentity (state : AttachedUnitDetachState) (node : NodeIdentity) :
    AttachedUnitDetachState :=
  { state with
    nodeIdentityValid := true
    nodeDevice := node.device
    nodeInode := node.inode
    nodeRdev := node.rdev }

/-- `detach_target_is_released_or_reused`. -/
def detachTargetIsReleasedOrReused (backend : AttachBackend) (unitId : Int)
    (state : AttachedUnitDetachState) : Pipeline Bool :=
  if !state.nodeIdentityValid then return false
  else do
    match ← statNode backend unitId with
    | .error e => return e = .ENOENT || e = .ENOTDIR
    | .ok node =>
      if state.nodeDevice ≠ node.device || state.nodeInode ≠ node.inode ||
          state.nodeRdev ≠ node.rdev then return true
      else holds (.nodeIsMounted backend unitId)

/-- `attached_unit_detach_prepare_t`. -/
inductive Prepared where
  | complete | request | pending
deriving DecidableEq

/-- The checks of `prepare_attached_unit_detach` once the identity is known. -/
def prepareKnownUnit (backend : AttachBackend) (unitId : Int)
    (request : AttachedUnitDetachState) : Pipeline (Prepared × AttachedUnitDetachState) := do
  if ← detachTargetIsReleasedOrReused backend unitId request then return (.complete, request)
  else if request.requested then return (.pending, request)
  else return (.request, request)

/-- `prepare_attached_unit_detach`. -/
def prepareAttachedUnitDetach (backend : AttachBackend) (unitId : Int)
    (state : AttachedUnitDetachState) : Pipeline (Prepared × AttachedUnitDetachState) :=
  if state.nodeIdentityValid then prepareKnownUnit backend unitId state
  else do
    match ← statNode backend unitId with
    | .error _ => return (.pending, state)
    | .ok node => prepareKnownUnit backend unitId (withIdentity state node)

/-- `finish_failed_detach`. -/
def finishFailedDetach (backend : AttachBackend) (unitId : Int)
    (state : AttachedUnitDetachState) : Pipeline Bool :=
  if state.nodeIdentityValid then detachTargetIsReleasedOrReused backend unitId state
  else return false

/-- `detach_lvd_unit` and `detach_md_unit`: is the unit released, and the record
afterwards. -/
def detachUnit (backend : AttachBackend) (unitId : Int) (state : AttachedUnitDetachState) :
    Pipeline (Bool × AttachedUnitDetachState) := do
  match ← prepareAttachedUnitDetach backend unitId state with
  | (.complete, _) => return (true, state)
  | (.pending, _) => return (false, state)
  | (.request, request) =>
    if ← holds (.openControl backend) then
      match ← detach backend unitId with
      | some _ => return (← finishFailedDetach backend unitId request, state)
      | none => return (false, { request with requested := true })
    else return (false, state)

def detachLvdUnit := detachUnit .lvd

def detachMdUnit := detachUnit .md

/-- `detach_attached_unit`. -/
def detachAttachedUnit (backend : AttachBackend) (unitId : Int)
    (state : AttachedUnitDetachState) : Pipeline (Bool × AttachedUnitDetachState) :=
  if unitId < 0 then return (false, state)
  else match backend with
    | .none => return (false, state)
    | .md => detachMdUnit unitId state
    | .lvd => detachLvdUnit unitId state

/-- `wait_for_attached_unit_release`. -/
def waitForAttachedUnitRelease (backend : AttachBackend) (unitId : Int)
    (state : AttachedUnitDetachState) : Pipeline Bool :=
  if !state.nodeIdentityValid then return false
  else do
    if ← holds (.nodeDisappears backend unitId) then return true
    else detachTargetIsReleasedOrReused backend unitId state

/-- `detach_cached_image_device`. -/
def detachCachedImageDevice (filePath : Text) (generation : Nat) (backend : AttachBackend)
    (unitId : Int) : Pipeline Bool := do
  match ← claimImageCacheDetach filePath generation unitId backend with
  | .error _ => return false
  | .ok cached =>
    let (detached, state) ← detachAttachedUnit backend unitId cached.detachState
    match ← finishImageCacheDetachAttempt filePath cached.generation unitId backend state with
    | .error _ => return false
    | .ok () =>
      if detached then return true
      else if !cached.detachState.requested && state.requested then
        waitForAttachedUnitRelease backend unitId state
      else return false

/-- The second try of `rollback_unpublished_attached_unit`. -/
def retryRollback (backend : AttachBackend) (unitId : Int) (detached : Bool)
    (state : AttachedUnitDetachState) : Pipeline (Bool × AttachedUnitDetachState) :=
  if detached || state.nodeIdentityValid then return (detached, state)
  else do
    if ← holds (.nodeAppears backend unitId) then detachAttachedUnit backend unitId state
    else return (detached, state)

/-- `rollback_unpublished_attached_unit`. -/
def rollbackUnpublishedAttachedUnit (backend : AttachBackend) (unitId : Int) : Pipeline Bool := do
  let (detached, state) ← detachAttachedUnit backend unitId .zero
  let (detached, state) ← retryRollback backend unitId detached state
  if !detached && state.requested then waitForAttachedUnitRelease backend unitId state
  else return detached

def hasDevice (entry : EntryView) : Bool :=
  entry.backend ≠ .none && 0 ≤ entry.unitId

/-- `get_cached_image_mount`. -/
def getCachedImageMount (filePath : Text) : Pipeline (Option (EntryView × Int)) := do
  match ← findImageCacheEntry filePath with
  | some (entry, index) => return if hasDevice entry then some (entry, index) else none
  | none => return none

def sameIdentity (expected current : AttachedUnitDetachState) : Bool :=
  !expected.nodeIdentityValid ||
    current.nodeIdentityValid && current.nodeDevice = expected.nodeDevice &&
      current.nodeInode = expected.nodeInode && current.nodeRdev = expected.nodeRdev

/-- `invalidate_matching_image_cache_entry`. -/
def invalidateMatchingImageCacheEntry (index : Int) (expected : EntryView) : Pipeline Bool := do
  match ← getImageCacheEntry index with
  | none => return false
  | some current =>
    if current.generation = expected.generation && current.path = expected.path &&
        current.mountPoint = expected.mountPoint && current.unitId = expected.unitId &&
        current.backend = expected.backend &&
        sameIdentity expected.detachState current.detachState then
      return isOk (← invalidateImageCacheEntry index current)
    else return false

/-- `resolve_device_from_mount`. -/
def resolveDeviceFromMount (mountPoint : Text) : Pipeline (Option (AttachBackend × Int)) := do
  match ← resolveDeviceFromMountCache mountPoint with
  | some device => return some device
  | none => mountedDevice mountPoint

/-- `unmount_result_t`, without its error number. -/
structure UnmountResult where
  filesystemReleased : Bool := false
  deviceReleased : Bool := false
  directoryRemoved : Bool := false
deriving DecidableEq

def unmountCompleted (result : UnmountResult) : Bool :=
  result.filesystemReleased && result.deviceReleased && result.directoryRemoved

/-- The device that an unmount is about. -/
def resolvedDevice (mountPoint : Text) (unitId : Int) (backend : AttachBackend) :
    Pipeline (AttachBackend × Int) :=
  if unitId < 0 || backend = .none then do
    return (← resolveDeviceFromMount mountPoint).getD (.none, -1)
  else return (backend, unitId)

/-- The reservation of `unmount_image_impl`: the generation to detach, 0 if there is
no device, and nothing if the unmount is refused. -/
def reserveDetach (filePath : Text) (expectedGeneration : Nat) (backend : AttachBackend)
    (unitId : Int) : Pipeline (Option Nat) := do
  match ← getCachedImageMount filePath with
  | some (tracked, _) =>
    if expectedGeneration ≠ 0 && tracked.generation ≠ expectedGeneration ||
        tracked.unitId ≠ unitId || tracked.backend ≠ backend then return none
    else if tracked.state = .attaching && expectedGeneration = 0 then return none
    else
      match ← markImageCacheDetachRequested tracked.path tracked.generation tracked.unitId
        tracked.backend with
      | .ok () => return some tracked.generation
      | .error _ => return none
  | none => return if backend ≠ .none && 0 ≤ unitId then none else some 0

/-- `MAX_LAYERED_UNMOUNT_ATTEMPTS`. -/
def maxLayeredUnmountAttempts : Nat := 4

/-- The loop over stacked layers; false if it gives up. -/
def unmountLayers (mountPoint : Text) : Nat → Pipeline Bool
  | 0 => return true
  | attempts + 1 => do
    if ← holds (.isActiveMountPoint mountPoint) then
      match ← ask (.unmount mountPoint) with
      | none => unmountLayers mountPoint attempts
      | some e => return e = .ENOENT || e = .EINVAL
    else return true

/-- The device part of `unmount_image_impl`. -/
def releaseDevice (filePath : Text) (generation : Nat) (backend : AttachBackend) (unitId : Int) :
    Pipeline Bool :=
  if backend ≠ .none && 0 ≤ unitId then detachCachedImageDevice filePath generation backend unitId
  else return true

def removeMountDirectory (mountPoint : Text) : Pipeline Bool := do
  match ← ask (.rmdir mountPoint) with
  | none => return true
  | some e => return e = .ENOENT

/-- The rest of `unmount_image_impl`, once the device is reserved and the images inside
are released. -/
def unmountReserved (filePath mountPoint : Text) (generation : Nat) (backend : AttachBackend)
    (unitId : Int) : Pipeline UnmountResult := do
  if ← unmountLayers mountPoint maxLayeredUnmountAttempts then
    if ← holds (.isActiveMountPoint mountPoint) then return {}
    else
      let released ← releaseDevice filePath generation backend unitId
      let removed ← removeMountDirectory mountPoint
      return ⟨true, released, removed⟩
  else return {}

/-- One image inside a container; true if it is released or needs no release. -/
def unmountChild (unmountEntry : EntryView → Pipeline UnmountResult) (mountPoint : Text)
    (index : Int) : Pipeline Bool := do
  match ← getImageCacheEntry index with
  | none => return true
  | some entry =>
    if !pathMatchesRootOrChild entry.path mountPoint then return true
    else if entry.state = .attaching then return false
    else if !hasDevice entry then return true
    else
      let result ← unmountEntry entry
      if unmountCompleted result then
        let _ ← invalidateMatchingImageCacheEntry index entry
        return true
      else return false

/-- The loop of `unmount_child_image_mounts_for_container`. -/
def unmountChildren (unmountEntry : EntryView → Pipeline UnmountResult) (mountPoint : Text) :
    List Nat → Bool → Pipeline Bool
  | [], allUnmounted => return allUnmounted
  | k :: rest, allUnmounted => do
    let unmounted ← unmountChild unmountEntry mountPoint k
    unmountChildren unmountEntry mountPoint rest (allUnmounted && unmounted)

/-- The images inside a container are unmounted first. -/
def releaseChildren (settings : Settings) (unmountEntry : EntryView → Pipeline UnmountResult)
    (fsType : ImageFsType) (mountPoint : Text) : Pipeline Bool :=
  if fsType = .pfscContainer then
    unmountChildren unmountEntry mountPoint (List.range settings.slots) true
  else return true

/-- `unmount_image_impl`.  Title links and the game cache, which it cleans up for a
permanent unmount, are not part of the model. -/
def unmountImageImpl (settings : Settings) : Nat → Text → Int → AttachBackend → Nat →
    Pipeline UnmountResult
  | 0, _, _, _, _ => do
    let never ← perform Op.stop
    nomatch never
  | depth + 1, filePath, unitId, backend, expectedGeneration => do
    if ← holds (.sourceIsProtected filePath) then return {}
    else
      let fsType ← detectImageFsType filePath
      let mountPoint := settings.buildImageMountPoint filePath fsType
      let (backend, unitId) ← resolvedDevice mountPoint unitId backend
      match ← reserveDetach filePath expectedGeneration backend unitId with
      | none => return {}
      | some generation =>
        let unmountEntry := fun entry =>
          unmountImageImpl settings depth entry.path entry.unitId entry.backend 0
        if ← releaseChildren settings unmountEntry fsType mountPoint then
          unmountReserved filePath mountPoint generation backend unitId
        else return {}

/-- `unmount_image` and `unmount_runtime_image`. -/
def unmountImage (settings : Settings) (depth : Nat) (filePath : Text) (unitId : Int)
    (backend : AttachBackend) : Pipeline UnmountResult :=
  unmountImageImpl settings depth filePath unitId backend 0

/-- `release_runtime_image_attachment`. -/
def releaseRuntimeImageAttachment (settings : Settings) (depth : Nat) (filePath : Text)
    (generation : Nat) : Pipeline Bool := do
  match ← findImageCacheEntry filePath with
  | none => return false
  | some (entry, index) =>
    if entry.generation ≠ generation then return false
    else if !hasDevice entry then
      return isOk (← cancelImageAttachment filePath generation)
    else
      let result ← unmountImageImpl settings depth entry.path entry.unitId entry.backend
        generation
      if unmountCompleted result then invalidateMatchingImageCacheEntry index entry
      else return false

/-- `release_runtime_image_mount`. -/
def releaseRuntimeImageMount (settings : Settings) (depth : Nat) (filePath : Text) :
    Pipeline Bool := do
  match ← findImageCacheEntry filePath with
  | none => return true
  | some (entry, index) =>
    if entry.state = .attaching then return false
    else if !hasDevice entry then return true
    else
      let result ← unmountImage settings depth entry.path entry.unitId entry.backend
      if unmountCompleted result then
        let _ ← invalidateMatchingImageCacheEntry index entry
        return true
      else return false

/-- `reuse_existing_image_mount`: is the mount reused, and `cache_failed_out`. -/
def reuseExistingImageMount (settings : Settings) (depth : Nat) (filePath mountPoint : Text) :
    Pipeline (Bool × Bool) := do
  if ← holds (.isDirectory mountPoint) then
    match ← resolveDeviceFromMount mountPoint with
    | some (backend, unitId) =>
      if ← holds (.opendir mountPoint) then
        match ← cacheImageMount filePath mountPoint unitId backend with
        | .ok () => return (true, false)
        | .error _ => return (false, true)
      else
        match ← cacheImageMount filePath mountPoint unitId backend with
        | .error _ => return (false, true)
        | .ok () => return (false, !(← releaseRuntimeImageMount settings depth filePath))
    | none =>
      let _ ← holds (.hasVisibleEntries mountPoint)
      return (false, false)
  else return (false, false)

/-- The end of `handle_cached_or_existing_image_mount`: handled, and mounted. -/
def reuseOrMount (settings : Settings) (depth : Nat) (filePath mountPoint : Text) :
    Pipeline (Bool × Bool) := do
  match ← reuseExistingImageMount settings depth filePath mountPoint with
  | (true, _) => return (true, !(← holds .sleepModeActive))
  | (false, cacheFailed) => return (cacheFailed, false)

/-- `is_active_image_mount_point` and `is_image_mount_root_accessible`. -/
def activeAndAccessible (mountPoint : Text) : Pipeline Bool := do
  if ← holds (.isActiveMountPoint mountPoint) then holds (.opendir mountPoint)
  else return false

/-- `handle_cached_or_existing_image_mount`: handled, and mounted. -/
def handleCachedOrExistingImageMount (settings : Settings) (depth : Nat)
    (filePath mountPoint : Text) : Pipeline (Bool × Bool) := do
  if ← holds .sleepModeActive then return (true, false)
  else
    match ← getCachedImageMount filePath with
    | none => reuseOrMount settings depth filePath mountPoint
    | some (entry, _) =>
      if entry.state = .detachRequested then
        let _ ← releaseRuntimeImageMount settings depth filePath
        return (true, false)
      else if entry.state = .attaching then return (true, false)
      else if ← activeAndAccessible mountPoint then return (true, true)
      else if ← releaseRuntimeImageAttachment settings depth entry.path entry.generation then
        reuseOrMount settings depth filePath mountPoint
      else return (true, false)

/-- A pipeline that ends with the release of the attachment. -/
def rejectAttachment (settings : Settings) (depth : Nat) (filePath : Text) (generation : Nat) :
    Pipeline Bool := do
  let _ ← releaseRuntimeImageAttachment settings depth filePath generation
  return false

/-- `select_image_backend`. -/
def selectImageBackend (settings : Settings) : ImageFsType → AttachBackend
  | .exfat => settings.exfatBackend
  | .ufs => settings.ufsBackend
  | _ => .lvd

/-- The attach ioctl of the selected backend. -/
def attachDevice (backend : AttachBackend) : Pipeline (Option Int) :=
  if backend = .none then return none else attach backend

/-- `attach_image_device`. -/
def attachImageDevice (settings : Settings) (depth : Nat) (filePath : Text)
    (backend : AttachBackend) (generation : Nat) : Pipeline (Option Int) := do
  match ← attachDevice backend with
  | none =>
    let _ ← cancelImageAttachment filePath generation
    return none
  | some unitId =>
    match ← publishImageAttachment filePath generation unitId backend with
    | .error _ =>
      let _ ← cancelImageAttachment filePath generation
      let _ ← rollbackUnpublishedAttachedUnit backend unitId
      return none
    | .ok () =>
      if ← holds (.nodeAppears backend unitId) then return some unitId
      else
        let _ ← rejectAttachment settings depth filePath generation
        return none

/-- `perform_image_nmount`. -/
def performImageNmount (settings : Settings) (depth : Nat) (filePath mountPoint : Text)
    (fsType : ImageFsType) (generation : Nat) : Pipeline Bool := do
  if fsType = .unknown then rejectAttachment settings depth filePath generation
  else if ← holds (.nmount mountPoint) then
    if fsType ≠ .exfat then return true
    else if ← holds (.statfs mountPoint) then return true
    else rejectAttachment settings depth filePath generation
  else rejectAttachment settings depth filePath generation

/-- `validate_mounted_image`. -/
def validateMountedImage (settings : Settings) (depth : Nat) (filePath mountPoint : Text)
    (generation : Nat) : Pipeline Bool := do
  if ← holds (.statfs mountPoint) then
    if ← holds (.clusterSizeOk mountPoint) then
      if ← holds (.opendir mountPoint) then return true
      else rejectAttachment settings depth filePath generation
    else rejectAttachment settings depth filePath generation
  else rejectAttachment settings depth filePath generation

/-- `complete_image_attachment`, unless the console goes to sleep. -/
def commitAttachment (filePath : Text) (generation : Nat) (unitId : Int)
    (backend : AttachBackend) : Pipeline Bool := do
  if ← holds .sleepModeActive then return false
  else return isOk (← completeImageAttachment filePath generation unitId backend)

/-- The part of `mount_image_with_mode` that holds an attachment. -/
def mountAttached (settings : Settings) (depth : Nat) (filePath mountPoint : Text)
    (fsType : ImageFsType) (backend : AttachBackend) (generation : Nat) (unitId : Int) :
    Pipeline Bool := do
  if ← holds .sleepModeActive then rejectAttachment settings depth filePath generation
  else if ← performImageNmount settings depth filePath mountPoint fsType generation then
    if ← holds .sleepModeActive then rejectAttachment settings depth filePath generation
    else if ← validateMountedImage settings depth filePath mountPoint generation then
      if ← commitAttachment filePath generation unitId backend then return true
      else rejectAttachment settings depth filePath generation
    else return false
  else return false

/-- The mode that a request asks for. -/
def modeAccepted (mountPoint : Text) : Option Bool → Pipeline Bool
  | none => return true
  | some readOnly => holds (.mountedInMode mountPoint readOnly)

/-- `mount_image_with_mode` from the reservation on. -/
def mountReserved (settings : Settings) (depth : Nat) (filePath mountPoint : Text)
    (fsType : ImageFsType) : Pipeline Bool := do
  match ← beginImageAttachment filePath mountPoint with
  | .error _ => return false
  | .ok generation =>
    let backend := selectImageBackend settings fsType
    match ← attachImageDevice settings depth filePath backend generation with
    | none => return false
    | some unitId =>
      mountAttached settings depth filePath mountPoint fsType backend generation unitId

/-- `mount_image_with_mode` for an image that is not mounted. -/
def mountUnhandled (settings : Settings) (depth : Nat) (filePath mountPoint : Text)
    (fsType : ImageFsType) (mode : Option Bool) : Pipeline Bool := do
  if ← holds (.statImage filePath) then
    if ← holds .sleepModeActive then return false
    else
      match ← findImageCacheEntry filePath with
      | some (entry, _) =>
        if entry.state = .mounted then modeAccepted mountPoint mode
        else mountReserved settings depth filePath mountPoint fsType
      | none => mountReserved settings depth filePath mountPoint fsType
  else return false

def pfscImageMountBase : Text := "/mnt/shadowmnt/pfsc".toList

/-- `pfs_path_uses_nested_profile`. -/
def pfsPathUsesNestedProfile (path : Text) (fsType : ImageFsType) : Bool :=
  fsType = .pfscContainer || fsType = .pfs && pathMatchesRootOrChild path pfscImageMountBase

/-- The mode that a successful mount is checked against: nested images are always mounted
read-only. -/
def requestedMode (filePath : Text) (fsType : ImageFsType) (override : Option Bool) :
    Option Bool :=
  override.map fun readOnly => readOnly || pfsPathUsesNestedProfile filePath fsType

/-- `mount_image_with_mode`. -/
def mountImageWithMode (settings : Settings) (depth : Nat) (filePath : Text)
    (fsType : ImageFsType) (override : Option Bool) : Pipeline Bool := do
  if override = some false && pfsPathUsesNestedProfile filePath fsType then return false
  else if ← holds .sleepModeActive then return false
  else
    let mode := requestedMode filePath fsType override
    let mountPoint := settings.buildImageMountPoint filePath fsType
    match ← handleCachedOrExistingImageMount settings depth filePath mountPoint with
    | (true, true) => modeAccepted mountPoint mode
    | (true, false) => return false
    | (false, _) => mountUnhandled settings depth filePath mountPoint fsType mode

/-- What a thread can be asked to do with images. -/
inductive Job where
  /-- `mount_image_with_mode`. -/
  | mount (path : Text) (fsType : ImageFsType) (override : Option Bool)
  /-- `unmount_image` and `unmount_runtime_image`. -/
  | unmount (path : Text) (unitId : Int) (backend : AttachBackend)
  /-- `release_runtime_image_mount`. -/
  | releaseMount (path : Text)
  /-- One slot of `release_runtime_image_mounts` and
  `unmount_usb_image_mounts_for_suspend`. -/
  | releaseSlot (index : Int)
  /-- One slot of `cleanup_stale_image_mounts`. -/
  | cleanupSlot (index : Int)

/-- An entry that was read is unmounted and forgotten. -/
def unmountEntry (settings : Settings) (depth : Nat) (index : Int) (entry : EntryView) :
    Pipeline Bool := do
  let result ← unmountImage settings depth entry.path entry.unitId entry.backend
  if unmountCompleted result then invalidateMatchingImageCacheEntry index entry
  else return false

def releaseImageSlot (settings : Settings) (depth : Nat) (index : Int) : Pipeline Bool := do
  match ← getImageCacheEntry index with
  | none => return true
  | some entry =>
    if entry.state = .attaching then return false
    else if !hasDevice entry then return true
    else if ← holds (.sourceIsProtected entry.path) then return true
    else unmountEntry settings depth index entry

/-- `prepare_image_mount_retry`. -/
def prepareImageMountRetry (settings : Settings) (depth : Nat) (mountPoint : Text)
    (entry : EntryView) : Pipeline Bool := do
  if ← activeAndAccessible mountPoint then return false
  else releaseRuntimeImageAttachment settings depth entry.path entry.generation

/-- An image whose mount was lost is mounted again. -/
def remountEntry (settings : Settings) (depth : Nat) (entry : EntryView) : Pipeline Bool := do
  let fsType ← detectImageFsType entry.path
  let mountPoint := settings.buildImageMountPoint entry.path fsType
  if ← prepareImageMountRetry settings depth mountPoint entry then
    mountImageWithMode settings depth entry.path fsType none
  else return false

def cleanupImageSlot (settings : Settings) (depth : Nat) (index : Int) : Pipeline Bool := do
  match ← getImageCacheEntry index with
  | none => return true
  | some entry =>
    if !hasDevice entry then return true
    else if ← holds (.sourceIsProtected entry.path) then return true
    else if entry.state = .detachRequested then unmountEntry settings depth index entry
    else if entry.state = .attaching then return true
    else if ← holds (.pathExists entry.path) then remountEntry settings depth entry
    else unmountEntry settings depth index entry

/-- The program of a job. -/
def Job.program (settings : Settings) (depth : Nat) : Job → Pipeline Bool
  | .mount path fsType override => mountImageWithMode settings depth path fsType override
  | .unmount path unitId backend => do
    return unmountCompleted (← unmountImage settings depth path unitId backend)
  | .releaseMount path => releaseRuntimeImageMount settings depth path
  | .releaseSlot index => releaseImageSlot settings depth index
  | .cleanupSlot index => cleanupImageSlot settings depth index

end ShadowMount.ImageMount
