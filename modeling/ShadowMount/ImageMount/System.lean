import ShadowMount.Foundation.Transition
import ShadowMount.ImageMount.Pipeline

/-!
# Mounting and unmounting images - threads and devices

Any number of jobs run at once, and any of them may make the next call.  The kernel has
the attached devices; a device is an instance of its unit, known by the identity of its
node.  A unit is given out again, with a node of another identity, only after the kernel
has accepted the detach of its device and the device is gone.

Every detach ioctl is logged with the device it meets, and so are the detach attempts
that were claimed and finished.
-/

namespace ShadowMount.ImageMount

open Foundation
open ImageCache (Cache Entry EntryView)

variable {n : Nat}

/-- An attached device, and whether its node can be seen. -/
structure Device where
  identity : NodeIdentity
  visible : Bool
deriving DecidableEq

/-- A device as an instance of its unit. -/
structure Instance where
  backend : AttachBackend
  unitId : Int
  identity : NodeIdentity
deriving DecidableEq

inductive Event where
  /-- A detach ioctl that meets a device. -/
  | detach (device : Instance) (accepted : Bool)
  /-- A successful `claim_image_cache_detach`. -/
  | claim (task : Nat) (path : Text) (generation : Nat)
  /-- A call of `finish_image_cache_detach_attempt`. -/
  | finish (task : Nat) (path : Text) (generation : Nat)
deriving DecidableEq

/-- What a task has in hand: a device that is attached but not published, or a claimed
attempt with the record it works on. -/
inductive Hold where
  | nothing
  | unpublished (backend : AttachBackend) (unitId : Int)
  | claimed (path : Text) (generation : Nat) (backend : AttachBackend) (unitId : Int)
      (record : AttachedUnitDetachState)
deriving DecidableEq

/-- What a task has in hand after a call. -/
def Hold.after (hold : Hold) : (op : Op) → op.Response → Hold
  | .attach backend, response =>
    match (response : Option Int) with
    | some unitId => .unpublished backend unitId
    | none => hold
  | .publishAttachment _ _ _ _, response =>
    match (response : Outcome Unit) with
    | .ok () => .nothing
    | .error _ => hold
  | .claimDetach path generation unitId backend, response =>
    match (response : Outcome EntryView) with
    | .ok entry => .claimed path generation backend unitId entry.detachState
    | .error _ => hold
  | .detach _ _, response =>
    match (response : Option Errno), hold with
    | none, .claimed path generation backend unitId record =>
      .claimed path generation backend unitId { record with requested := true }
    | none, _ => .nothing
    | some _, hold => hold
  | .finishDetach _ _ _ _ _, _ => .nothing
  | _, _ => hold

structure Task where
  hold : Hold
  program : Pipeline Bool

structure World (n : Nat) where
  cache : Cache n
  units : AttachBackend → Int → Option Device
  tasks : List Task
  log : List Event

/-- The nodes that `stat` finds. -/
def World.nodes (w : World n) : NodeView := fun backend unitId =>
  match w.units backend unitId with
  | some device => if device.visible then some device.identity else none
  | none => none

/-- The kernel has accepted a detach of the device. -/
def Accepted (log : List Event) (device : Instance) : Prop :=
  Event.detach device true ∈ log

instance (log : List Event) (device : Instance) : Decidable (Accepted log device) :=
  inferInstanceAs (Decidable (_ ∈ _))

def World.setUnit (w : World n) (backend : AttachBackend) (unitId : Int)
    (device : Option Device) : World n :=
  { w with units := fun b u =>
      if b = backend ∧ u = unitId then device else w.units b u }

/-- What the environment chooses for an answer. -/
structure Answer where
  error : Option Errno := none
  unitId : Int := 0
  identity : NodeIdentity := ⟨0, 0, 0⟩
  device : Option (AttachBackend × Int) := none
  fsType : ImageFsType := .unknown

/-- A cache operation. -/
def World.withCache {α : Type} (w : World n) (result : Cache n × α) : Option (α × World n) :=
  some (result.2, { w with cache := result.1 })

/-- The attach ioctl: it may fail, and otherwise takes a free unit. -/
def World.attachDevice (w : World n) (backend : AttachBackend) (answer : Answer) :
    Option (Option Int × World n) :=
  match answer.error with
  | some _ => some (none, w)
  | none =>
    if answer.unitId < 0 then some (none, w)
    else if (w.units backend answer.unitId).isSome ∨
        Accepted w.log ⟨backend, answer.unitId, answer.identity⟩ then none
    else some (some answer.unitId,
      w.setUnit backend answer.unitId (some ⟨answer.identity, false⟩))

/-- The detach ioctl: it may fail, and otherwise is accepted. -/
def World.detachDevice (w : World n) (backend : AttachBackend) (unitId : Int)
    (answer : Answer) : Option (Option Errno × World n) :=
  match w.units backend unitId with
  | none => some (some (answer.error.getD .ENOENT), w)
  | some device => some (answer.error, { w with
      log := .detach ⟨backend, unitId, device.identity⟩ answer.error.isNone :: w.log })

/-- A claim, which is logged if it succeeds. -/
def World.claimDetach (w : World n) (task : Nat) (path : Text) (generation : Nat)
    (unitId : Int) (backend : AttachBackend) : Option (Outcome EntryView × World n) :=
  match ImageCache.claimImageCacheDetach w.nodes w.cache (some path) generation unitId backend with
  | (cache, .ok entry) =>
    some (.ok entry, { w with cache := cache, log := .claim task path generation :: w.log })
  | (cache, .error e) => some (.error e, { w with cache := cache })

/-- The end of an attempt, which is logged. -/
def World.finishDetach (w : World n) (task : Nat) (path : Text) (generation : Nat)
    (unitId : Int) (backend : AttachBackend) (record : AttachedUnitDetachState) :
    Option (Outcome Unit × World n) :=
  let result := ImageCache.finishImageCacheDetachAttempt w.cache (some path) generation unitId
    backend (some record)
  some (result.2, { w with cache := result.1, log := .finish task path generation :: w.log })

/-- `stat` of a node, which may fail for other reasons. -/
def World.statNode (w : World n) (backend : AttachBackend) (unitId : Int) (answer : Answer) :
    Except Errno NodeIdentity :=
  match answer.error with
  | some e => .error e
  | none =>
    match w.nodes backend unitId with
    | some identity => .ok identity
    | none => .error .ENOENT

/-- The device that the mount table names, if any. -/
def World.mountedDevice (w : World n) (answer : Answer) :
    Option (Option (AttachBackend × Int) × World n) :=
  match answer.device with
  | none => some (none, w)
  | some (backend, unitId) =>
    if ImageCache.attachBackendIsValid backend = true ∧ 0 ≤ unitId then
      some (some (backend, unitId), w)
    else none

/-- The response to a call and the world after it; none if the answer is not one that the
kernel gives. -/
def World.respond (w : World n) (task : Nat) (answer : Answer) :
    (op : Op) → Option (op.Response × World n)
  | .findEntry path => some
      ((ImageCache.findImageCacheEntry w.cache (some path)).map fun (entry, k) =>
        (entry, (k.val : Int)), w)
  | .getEntry index => some (ImageCache.getImageCacheEntry w.cache index, w)
  | .resolveFromCache mountPoint =>
    some (ImageCache.resolveDeviceFromMountCache w.cache mountPoint, w)
  | .beginAttachment path mountPoint =>
    w.withCache (ImageCache.beginImageAttachment w.cache (some path) (some mountPoint))
  | .cancelAttachment path generation =>
    w.withCache (ImageCache.cancelImageAttachment w.cache (some path) generation)
  | .publishAttachment path generation unitId backend =>
    w.withCache (ImageCache.publishImageAttachment w.nodes w.cache (some path) generation
      unitId backend)
  | .completeAttachment path generation unitId backend =>
    w.withCache (ImageCache.completeImageAttachment w.nodes w.cache (some path) generation
      unitId backend)
  | .cacheMount path mountPoint unitId backend =>
    w.withCache (ImageCache.cacheImageMount w.nodes w.cache (some path) (some mountPoint)
      unitId backend)
  | .markDetachRequested path generation unitId backend =>
    w.withCache (ImageCache.markImageCacheDetachRequested w.nodes w.cache (some path)
      generation unitId backend)
  | .claimDetach path generation unitId backend =>
    w.claimDetach task path generation unitId backend
  | .finishDetach path generation unitId backend record =>
    w.finishDetach task path generation unitId backend record
  | .invalidate index expected =>
    w.withCache (ImageCache.invalidateImageCacheEntry w.cache index (some expected))
  | .attach backend => w.attachDevice backend answer
  | .detach backend unitId => w.detachDevice backend unitId answer
  | .statNode backend unitId => some (w.statNode backend unitId answer, w)
  | .mountedDevice _ => w.mountedDevice answer
  | .detectFsType _ => some (answer.fsType, w)
  | .ask _ => some (answer.error, w)
  | .stop => none

/-- What happens next. -/
inductive Choice where
  /-- A thread starts a job. -/
  | start (settings : Settings) (depth : Nat) (job : Job)
  /-- A task makes its next call. -/
  | run (task : Nat) (answer : Answer)
  /-- The node of a device appears or disappears. -/
  | node (backend : AttachBackend) (unitId : Int) (visible : Bool)
  /-- A device whose detach was accepted is gone. -/
  | release (backend : AttachBackend) (unitId : Int)

/-- The next call of a task is made. -/
def World.runTask (w : World n) (task : Nat) (answer : Answer) : Option (World n) :=
  match w.tasks[task]? with
  | some ⟨hold, .call op next⟩ =>
    match w.respond task answer op with
    | some (response, w') =>
      some { w' with tasks := w.tasks.set task ⟨hold.after op response, next response⟩ }
    | none => none
  | _ => none

def World.next (w : World n) : Choice → Option (World n)
  | .start settings depth job =>
    some { w with tasks := w.tasks ++ [⟨.nothing, job.program settings depth⟩] }
  | .run task answer => w.runTask task answer
  | .node backend unitId visible =>
    match w.units backend unitId with
    | some device => some (w.setUnit backend unitId (some { device with visible := visible }))
    | none => none
  | .release backend unitId =>
    match w.units backend unitId with
    | some device =>
      if Accepted w.log ⟨backend, unitId, device.identity⟩ then
        some (w.setUnit backend unitId none)
      else none
    | none => none

/-- The program start: an empty cache and whatever devices there are. -/
def World.initial (units : AttachBackend → Int → Option Device) : World n where
  cache := Cache.initial
  units := units
  tasks := []
  log := []

/-- All interleavings. -/
def machine (n : Nat) : System (World n) Choice where
  init w := ∃ units, w = World.initial units
  step w choice w' := w.next choice = some w'

/-- A sequence of steps. -/
def World.runAll : World n → List Choice → Option (World n)
  | w, [] => some w
  | w, choice :: rest =>
    match w.next choice with
    | some w' => w'.runAll rest
    | none => none

theorem reachable_runAll {w w' : World n} (hw : Reachable (machine n) w)
    (choices : List Choice) (h : w.runAll choices = some w') : Reachable (machine n) w' := by
  induction choices generalizing w with
  | nil =>
    cases h
    exact hw
  | cons choice rest ih =>
    unfold World.runAll at h
    split at h
    · rename_i w₁ hnext
      exact ih (hw.step hnext) h
    · cases h

/-- Once the detach of a device was accepted, no detach ioctl meets the device again. -/
def NoSecondDetach (log : List Event) : Prop :=
  ∀ later earlier device accepted,
    log = later ++ .detach device accepted :: earlier → ¬Accepted earlier device

/-- Between a claim and its end no other claim for the same path and generation
succeeds. -/
def ExclusiveClaims (log : List Event) : Prop :=
  ∀ later middle earlier task task' path generation,
    log = later ++ .claim task' path generation :: (middle ++ .claim task path generation ::
      earlier) → .finish task path generation ∈ middle

end ShadowMount.ImageMount
