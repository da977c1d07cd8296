import ShadowMount.Types
import ShadowMount.Foundation.Transition

/-!
# ShellCore service - the shared launch record of {lit}`sm_shellcore_service.c`

The launch hook thread, the lifecycle thread and the API thread share one record
under one mutex.  Each locked section of the source is one function here, and a
step of the system is one such section run to its end; the unlocked work between
two sections, which mounts and unmounts, does not touch the record.

A release is a body of code between a successful {lit}`begin_runtime_release` and
the {lit}`end_runtime_release` of the same caller.  The record holds only the
name of the title being released, so the system keeps beside it the bodies that
are really running.
-/

namespace ShadowMount.Shellcore

open Foundation

/-- `shellcore_mount_owner_t`: who owns a prepared runtime. -/
structure MountOwner where
  titleId : Text
  appId : Nat
  pid : Int
  gameExited : Bool
  sandboxReadyHandled : Bool
  exitTimeUs : Nat
deriving DecidableEq

/-- A cleared owner. -/
def MountOwner.zero : MountOwner where
  titleId := []
  appId := 0
  pid := 0
  gameExited := false
  sandboxReadyHandled := false
  exitTimeUs := 0

/-- `set_mount_owner`. -/
def setMountOwner (titleId : Text) : MountOwner :=
  { MountOwner.zero with titleId := strlcpy maxTitleId titleId }

/-- The owner is bound to a process that has not exited. -/
def MountOwner.Live (o : MountOwner) : Prop :=
  0 < o.pid ∧ o.gameExited = false

instance (o : MountOwner) : Decidable o.Live :=
  inferInstanceAs (Decidable (_ ∧ _))

/-- The part of `g_service` that the mutex guards and the launch protocol
reads. -/
structure Service where
  prepared : MountOwner
  outgoing : MountOwner
  prepareInProgress : Bool
  launchPending : Bool
  pendingLaunchTitleId : Text
  pendingSandboxReadyHandled : Bool
  externalMutationInProgress : Bool
  releasingTitleId : Text
deriving DecidableEq

/-- The record when the service starts. -/
def Service.initial : Service where
  prepared := .zero
  outgoing := .zero
  prepareInProgress := false
  launchPending := false
  pendingLaunchTitleId := []
  pendingSandboxReadyHandled := false
  externalMutationInProgress := false
  releasingTitleId := []

def launchPreparationPending (s : Service) : Bool :=
  s.prepareInProgress || s.launchPending || s.pendingLaunchTitleId ≠ []

def mountOwnerMatches (o : MountOwner) (titleId : Text) : Bool :=
  o.titleId ≠ [] && o.titleId = titleId

/-- Which of the two slots `find_mount_owner_locked` points at. -/
inductive OwnerSlot where
  | prepared | outgoing
deriving DecidableEq

def findMountOwner (s : Service) (titleId : Text) : Option OwnerSlot :=
  if mountOwnerMatches s.prepared titleId then some .prepared
  else if mountOwnerMatches s.outgoing titleId then some .outgoing
  else none

def Service.owner (s : Service) : OwnerSlot → MountOwner
  | .prepared => s.prepared
  | .outgoing => s.outgoing

def Service.setOwner (s : Service) (slot : OwnerSlot) (o : MountOwner) : Service :=
  match slot with
  | .prepared => { s with prepared := o }
  | .outgoing => { s with outgoing := o }

/-- `claim_prepared_title`; the result is the status and whether the owner
slot was newly claimed. -/
def claimPreparedTitle (s : Service) (titleId : Text) (launchRequest : Bool) :
    Service × Except Errno Bool :=
  if s.prepareInProgress || s.externalMutationInProgress ||
      s.releasingTitleId = titleId then (s, .error .EBUSY)
  else if s.prepared.titleId = [] then
    if mountOwnerMatches s.outgoing titleId then
      if s.outgoing.gameExited then (s, .error .EBUSY)
      else
        -- resuming a still-running app need not emit another NOTE_EXEC
        let resumed := decide (0 < s.outgoing.pid) && s.pendingLaunchTitleId = titleId
        ({ s with
            prepared := s.outgoing
            outgoing := .zero
            pendingLaunchTitleId := if resumed then [] else s.pendingLaunchTitleId
            pendingSandboxReadyHandled :=
              if resumed then false else s.pendingSandboxReadyHandled
            prepareInProgress := true
            launchPending := launchRequest && decide (s.outgoing.pid ≤ 0) }, .ok false)
    else
      ({ s with
          prepared := setMountOwner titleId
          prepareInProgress := true
          launchPending := launchRequest }, .ok true)
  else if !mountOwnerMatches s.prepared titleId then
    if !launchRequest || s.prepared.appId = 0 || s.outgoing.titleId ≠ [] then
      (s, .error .EBUSY)
    else
      ({ s with
          outgoing := s.prepared
          prepared := setMountOwner titleId
          prepareInProgress := true
          launchPending := true }, .ok true)
  else if s.prepared.gameExited then (s, .error .EBUSY)
  else
    ({ s with
        prepareInProgress := true
        launchPending := launchRequest || s.launchPending }, .ok false)

/-- `clear_owned_title`. -/
def clearOwnedTitle (s : Service) (titleId : Text) : Service :=
  match findMountOwner s titleId with
  | none => s
  | some .prepared =>
    { s with prepared := .zero, prepareInProgress := false, launchPending := false }
  | some .outgoing => { s with outgoing := .zero }

/-- `rollback_prepared_title`. -/
def rollbackPreparedTitle (s : Service) (titleId : Text) : Service :=
  if mountOwnerMatches s.prepared titleId then
    if s.outgoing.titleId ≠ [] then
      { s with
        prepared := s.outgoing
        outgoing := .zero
        prepareInProgress := false
        launchPending := false }
    else
      { s with prepared := .zero, prepareInProgress := false, launchPending := false }
  else s

/-- `finish_prepared_title`. -/
def finishPreparedTitle (s : Service) (titleId : Text) (cancelLaunch : Bool) : Service :=
  if mountOwnerMatches s.prepared titleId then
    { s with
      prepareInProgress := false
      launchPending := if cancelLaunch then false else s.launchPending }
  else s

/-- Is the exit snapshot of the caller no longer the state of the owner? -/
def releaseSuperseded (s : Service) (titleId : Text) (expected : MountOwner) : Bool :=
  match findMountOwner s titleId with
  | none => true
  | some slot =>
    let o := s.owner slot
    !o.gameExited || o.pid ≠ expected.pid || o.appId ≠ expected.appId ||
      o.exitTimeUs ≠ expected.exitTimeUs ||
      (slot = .prepared && s.launchPending) || s.pendingLaunchTitleId = titleId

/-- The condition under which `begin_runtime_release` returns `EBUSY`.
`activeGame` is the answer of `sm_game_lifecycle_has_active_game`. -/
def releaseBlocked (s : Service) (titleId : Text) (publicRequest : Bool)
    (expected : Option MountOwner) (activeGame : Bool) : Bool :=
  let slot := findMountOwner s titleId
  let prepared : Bool := slot = some .prepared
  let hasOwner : Bool := s.prepared.titleId ≠ [] || s.outgoing.titleId ≠ []
  let externalCleanup := expected.isNone && s.externalMutationInProgress
  let differentTitle := hasOwner && slot.isNone && !externalCleanup &&
    !(publicRequest && activeGame)
  let superseded := match expected with
    | none => false
    | some expected => releaseSuperseded s titleId expected
  let ownerLive : Bool := match slot with
    | none => false
    | some slot => decide (s.owner slot).Live
  let liveOwner := !publicRequest && expected.isNone && ownerLive
  liveOwner || superseded || differentTitle || s.releasingTitleId ≠ [] ||
    (prepared && s.prepareInProgress) ||
    (publicRequest && s.externalMutationInProgress) ||
    (publicRequest && launchPreparationPending s) ||
    (publicRequest && ownerLive) ||
    (publicRequest && prepared && (s.launchPending || s.prepared.appId ≠ 0))

/-- `begin_runtime_release`. -/
def beginRuntimeRelease (s : Service) (titleId : Text) (publicRequest : Bool)
    (expected : Option MountOwner) (activeGame : Bool) : Service × Except Errno Unit :=
  if releaseBlocked s titleId publicRequest expected activeGame then (s, .error .EBUSY)
  else ({ s with releasingTitleId := strlcpy maxTitleId titleId }, .ok ())

/-- `end_runtime_release`. -/
def endRuntimeRelease (s : Service) (titleId : Text) : Service :=
  if s.releasingTitleId = titleId then { s with releasingTitleId := [] } else s

/-- `sm_shellcore_service_bind_prepared_app`; `managed` is the answer of
`read_mount_link`. -/
def bindPreparedApp (s : Service) (titleId : Text) (appId : Nat) (pid : Int)
    (managed : Bool) : Service × Bool :=
  if titleId = [] || pid ≤ 0 then (s, false)
  else
    let slot := findMountOwner s titleId
    if s.releasingTitleId = titleId || (slot.isNone && managed) then (s, false)
    else
      let s := match slot with
        | none => s
        | some slot =>
          let s := s.setOwner slot
            { s.owner slot with
              appId := appId
              pid := pid
              gameExited := false
              exitTimeUs := 0 }
          if slot = .prepared then
            { s with prepareInProgress := false, launchPending := false }
          else s
      if s.pendingLaunchTitleId = titleId then
        ({ s with pendingLaunchTitleId := [], pendingSandboxReadyHandled := false }, true)
      else (s, true)

/-- Mark an owner as exited; `now` stands for the clock read when no exit
time is given. -/
def markExited (o : MountOwner) (exitTimeUs now : Nat) : MountOwner :=
  { o with gameExited := true, exitTimeUs := if exitTimeUs ≠ 0 then exitTimeUs else now }

/-- `sm_shellcore_service_note_game_exit`. -/
def noteGameExit (s : Service) (pid : Int) (exitTimeUs now : Nat) : Service × Bool :=
  if pid ≤ 0 then (s, false)
  else if s.outgoing.pid = pid then
    if s.outgoing.gameExited then (s, false)
    else ({ s with outgoing := markExited s.outgoing exitTimeUs now }, true)
  else if s.prepared.pid = pid then
    if s.prepared.gameExited then (s, false)
    else ({ s with prepared := markExited s.prepared exitTimeUs now }, true)
  else (s, false)

/-- The locked section at the head of `handle_launch_request`. -/
def noteLaunchRequest (s : Service) (titleId : Text) : Service :=
  if isSupportedGameTitleId titleId then
    { s with
      pendingLaunchTitleId := strlcpy maxTitleId titleId
      pendingSandboxReadyHandled := false
      prepared :=
        if mountOwnerMatches s.prepared titleId then
          { s.prepared with sandboxReadyHandled := false }
        else s.prepared }
  else { s with pendingLaunchTitleId := [], pendingSandboxReadyHandled := false }

/-- The locked section of `handle_launch_request` after a rejected mount. -/
def noteLaunchRejected (s : Service) (titleId : Text) : Service :=
  if !s.prepareInProgress && !s.launchPending && s.pendingLaunchTitleId = titleId then
    { s with pendingLaunchTitleId := [], pendingSandboxReadyHandled := false }
  else s

/-- The locked section of `handle_launch_failed_request`. -/
def noteLaunchFailed (s : Service) (titleId : Text) : Service :=
  if titleId = [] then s
  else
    let cancelled := s.pendingLaunchTitleId = titleId
    { s with
      pendingLaunchTitleId := if cancelled then [] else s.pendingLaunchTitleId
      pendingSandboxReadyHandled := if cancelled then false else s.pendingSandboxReadyHandled
      launchPending :=
        if mountOwnerMatches s.prepared titleId ∧ 0 < s.prepared.pid then false
        else s.launchPending }

/-- Record in the owner of a title that its sandbox was handled. -/
def markSandboxReady (s : Service) (titleId : Text) : Service :=
  match findMountOwner s titleId with
  | none => s
  | some slot => s.setOwner slot { s.owner slot with sandboxReadyHandled := true }

/-- The second locked section of `handle_sandbox_ready_request`. -/
def noteSandboxReady (s : Service) (titleId : Text) : Service :=
  markSandboxReady
    (if s.pendingLaunchTitleId = titleId then { s with pendingSandboxReadyHandled := true }
      else s) titleId

/-- `sm_shellcore_try_begin_external_mutation`. -/
def tryBeginExternalMutation (s : Service) : Service × Bool :=
  if !s.externalMutationInProgress && !launchPreparationPending s &&
      s.releasingTitleId = [] then
    ({ s with externalMutationInProgress := true }, true)
  else (s, false)

/-- `sm_shellcore_end_external_mutation`. -/
def endExternalMutation (s : Service) : Service :=
  { s with externalMutationInProgress := false }

/-- The record and the release bodies that are running. -/
structure State where
  service : Service
  releases : List Text
deriving DecidableEq

/-- One locked section, with the arguments of its caller and what the caller
observed outside the lock. -/
inductive Step where
  | launchRequest (titleId : Text)
  | launchRejected (titleId : Text)
  | claim (titleId : Text) (launchRequest : Bool)
  | finish (titleId : Text) (cancelLaunch : Bool)
  | rollback (titleId : Text)
  | clearOwned (titleId : Text)
  | beginRelease (titleId : Text) (publicRequest : Bool) (expected : Option MountOwner)
      (activeGame : Bool)
  | endRelease (titleId : Text)
  | bind (titleId : Text) (appId : Nat) (pid : Int) (managed : Bool)
  | gameExit (pid : Int) (exitTimeUs now : Nat)
  | launchFailed (titleId : Text)
  | sandboxReady (titleId : Text)
  | beginExternal
  | endExternal
deriving DecidableEq

/-- The state after one step.  A claim is only made for a supported title id, as
`mount_managed_title_runtime` checks, a release only for a title that has a
name, as `release_title_runtime_expected` checks, and a release is ended by
the body that began it. -/
def next (s : State) : Step → State
  | .launchRequest titleId => { s with service := noteLaunchRequest s.service titleId }
  | .launchRejected titleId => { s with service := noteLaunchRejected s.service titleId }
  | .claim titleId launchRequest =>
    if isSupportedGameTitleId titleId then
      { s with service := (claimPreparedTitle s.service titleId launchRequest).1 }
    else s
  | .finish titleId cancelLaunch =>
    { s with service := finishPreparedTitle s.service titleId cancelLaunch }
  | .rollback titleId => { s with service := rollbackPreparedTitle s.service titleId }
  | .clearOwned titleId => { s with service := clearOwnedTitle s.service titleId }
  | .beginRelease titleId publicRequest expected activeGame =>
    if titleId = [] then s
    else match beginRuntimeRelease s.service titleId publicRequest expected activeGame with
      | (service, .ok ()) => { service := service, releases := titleId :: s.releases }
      | (_, .error _) => s
  | .endRelease titleId =>
    if titleId ∈ s.releases then
      { service := endRuntimeRelease s.service titleId
        releases := s.releases.erase titleId }
    else s
  | .bind titleId appId pid managed =>
    { s with service := (bindPreparedApp s.service titleId appId pid managed).1 }
  | .gameExit pid exitTimeUs now =>
    { s with service := (noteGameExit s.service pid exitTimeUs now).1 }
  | .launchFailed titleId => { s with service := noteLaunchFailed s.service titleId }
  | .sandboxReady titleId => { s with service := noteSandboxReady s.service titleId }
  | .beginExternal => { s with service := (tryBeginExternalMutation s.service).1 }
  | .endExternal => { s with service := endExternalMutation s.service }

def State.initial : State where
  service := .initial
  releases := []

/-- The launch service under every interleaving of its locked sections. -/
def launchSystem : System State Step :=
  System.ofFunction State.initial next

end ShadowMount.Shellcore
