import ShadowMount.Foundation.Faults
import ShadowMount.Foundation.Transition
import ShadowMount.Types

/-!
# Redirect sessions of packages

{lit}`sm_pkg_backport.c` puts the files of a backport over the files of an installed
package by redirects in the namespace of the running game.  A session records the
redirects of one namespace, so that they can be deleted when the game has ended.

Every function runs under one mutex and talks to the kernel by calls.  What the kernel
answers may be different at every call: the environment of a step gives the state of
the file systems at each call, and any call may fail besides.  The world keeps, next to
the sessions, the mount table and the redirects that exist in the kernel: a redirect
comes into being by a create, and ends with a delete or with its namespace.  Times are
numbers without a bound, on the assumption that the clock of 64 bits does not wrap.

Texts for the log and notifications are left out.
-/

namespace ShadowMount.PkgBackport

open Foundation

/-- The errors that the functions tell apart. -/
inductive Error where
  | E2BIG | EBUSY | EINVAL | EIO | ELOOP | ENAMETOOLONG | ENOENT | ENOMEM | ENOTDIR | EOVERFLOW
  | other (code : Nat)
deriving DecidableEq

inductive FileKind where
  | regular | directory | other
deriving DecidableEq

/-- The fields of `struct stat` that the functions read. -/
structure Stat where
  kind : FileKind
  device : Nat
deriving DecidableEq

/-- The fields of `struct statfs` that the functions read. -/
structure Statfs where
  fstypename : Text
  mntonname : Text
  fsid : Nat
deriving DecidableEq

/-- The name of a directory entry, which has no zero byte. -/
structure FileName where
  text : Text
  noZero : '\x00' ∉ text
deriving DecidableEq

/-- The file systems at some moment, with the state of the runtime. -/
structure View where
  readdir : Text → Except Error (List FileName)
  stat : Text → Except Error Stat
  lstat : Text → Except Error Stat
  statfs : Text → Except Error Statfs
  mounts : List Statfs
  /-- `runtime_sleep_mode_active` or `should_stop_requested`. -/
  halting : Bool
  /-- `monotonic_time_us`. -/
  now : Nat

/-- `pkg_backport_namespace_id_t`. -/
structure NamespaceId where
  device : Nat
  fsid : Nat
deriving DecidableEq

/-- The mount table has a namespace with this id. -/
def hasNamespace (mounts : List Statfs) (fsid : Nat) : Bool :=
  mounts.any fun m => m.fstypename = "nsfs".toList && m.fsid = fsid

/-- A redirect that exists in the kernel, in the namespace that the session of its
creation has recorded. -/
structure Live where
  serial : Nat
  root : Text
  namespaceId : NamespaceId
  destination : Text
deriving DecidableEq

/-- `PKG_BACKPORT_MAX_SESSIONS`. -/
def maxSessions : Nat := 2

/-- `PKG_BACKPORT_MAX_REDIRECTS`. -/
def maxRedirects : Nat := 256

/-- `PKG_BACKPORT_MAX_DIRECTORY_DEPTH`. -/
def maxDirectoryDepth : Nat := 64

/-- `UINT32_MAX`, which marks a deleted redirect. -/
def deletedOffset : Nat := 2 ^ 32 - 1

/-- `pkg_backport_redirect_t`, with a serial number that tells redirects of the
same destination apart. -/
structure Redirect where
  destinationOffset : Nat
  serial : Nat
deriving DecidableEq

/-- `pkg_backport_session_t`.  The storage is `none` for a null pointer, and
otherwise what has been written to it; the number of redirects and the used size are
the lengths of the lists. -/
structure Session where
  installed : Bool
  ready : Bool
  pid : Int
  cleanupNext : Nat
  cleanupDeadline : Nat
  titleId : Text
  rootSource : Text
  rootDestination : Text
  namespaceId : NamespaceId
  storage : Option Text
  storageCapacity : Nat
  redirects : List Redirect
deriving DecidableEq

/-- A session of zeros. -/
def Session.empty : Session where
  installed := false
  ready := false
  pid := 0
  cleanupNext := 0
  cleanupDeadline := 0
  titleId := []
  rootSource := []
  rootDestination := []
  namespaceId := ⟨0, 0⟩
  storage := none
  storageCapacity := 0
  redirects := []

namespace Session

/-- A session that `prepare_session_locked` has set up. -/
def fresh (titleId source destination : Text) (namespaceId : NamespaceId) : Session :=
  { empty with
    titleId := titleId
    rootSource := source
    rootDestination := destination
    namespaceId := namespaceId }

/-- What has been written to the storage. -/
def written (s : Session) : Text := s.storage.getD []

/-- The string at an offset of a storage. -/
def stringAt (storage : Text) (offset : Nat) : Text :=
  (storage.drop offset).takeWhile (· ≠ '\x00')

/-- `redirect_destination`. -/
def redirectDestination (s : Session) (r : Redirect) : Option Text :=
  match s.storage with
  | none => none
  | some storage =>
    if r.destinationOffset = deletedOffset || r.destinationOffset ≥ storage.length then none
    else some (stringAt storage r.destinationOffset)

/-- The loop of `reserve_destination_storage`.  A capacity of 4096 or more exceeds
half of `SIZE_MAX` after at most 52 rounds. -/
def growCapacity (needed : Nat) : Nat → Nat → Option Nat
  | 0, _ => none
  | rounds + 1, capacity =>
    if capacity < needed then
      if capacity > (2 ^ 64 - 1) / 2 then none else growCapacity needed rounds (capacity * 2)
    else some capacity

end Session

/-- The sessions, and the part of the kernel that they are about. -/
structure World where
  sessions : Fin maxSessions → Session
  /-- The mount table. -/
  mounts : List Statfs
  /-- The redirects that exist. -/
  live : List Live
  nextSerial : Nat
  /-- The redirects whose delete succeeded or reported them absent. -/
  released : List Nat

namespace World

/-- The file systems change; redirects end with their namespace. -/
def see (w : World) (view : View) : World :=
  { w with
    mounts := view.mounts
    live := w.live.filter fun r => hasNamespace view.mounts r.namespaceId.fsid }

/-- Change one session. -/
def updateSession (w : World) (k : Fin maxSessions) (f : Session → Session) : World :=
  { w with sessions := fun k' => if k' = k then f (w.sessions k) else w.sessions k' }

/-- `reset_session_locked`. -/
def resetSession (w : World) (k : Fin maxSessions) : World :=
  w.updateSession k fun _ => Session.empty

/-- The end of `prepare_session_locked`. -/
def beginSession (w : World) (k : Fin maxSessions) (titleId source destination : Text)
    (namespaceId : NamespaceId) : World :=
  w.updateSession k fun _ => Session.fresh titleId source destination namespaceId

/-- A redirect was created: it exists while the mount table has its namespace, and the
session records it. -/
def addRedirect (w : World) (k : Fin maxSessions) (destination : Text) : World :=
  let s := w.sessions k
  let created := { w with
    live := if hasNamespace w.mounts s.namespaceId.fsid then
        ⟨w.nextSerial, s.rootDestination, s.namespaceId, destination⟩ :: w.live
      else w.live
    nextSerial := w.nextSerial + 1 }
  created.updateSession k fun s => { s with
    redirects := s.redirects ++ [⟨s.written.length, w.nextSerial⟩]
    storage := some (s.written ++ (destination ++ ['\x00'])) }

/-- A redirect was deleted or is absent: the session marks it. -/
def releaseRedirect (w : World) (k : Fin maxSessions) (i serial : Nat) : World :=
  let ended := { w with
    live := w.live.filter fun r => r.serial ≠ serial
    released := serial :: w.released }
  ended.updateSession k fun s => { s with
    redirects := s.redirects.modify i fun r => { r with destinationOffset := deletedOffset } }

end World

/-- The types of a redirect. -/
inductive RedirectType where
  | overlay | plain
deriving DecidableEq

/-- The calls to the kernel, with their answers.  A delete is named with the namespace
and the redirect that it is meant for. -/
inductive Call where
  | stat (path : Text) (answer : Except Error Stat)
  | statfs (path : Text) (answer : Except Error Statfs)
  | snapshot (answer : Except Error (List Statfs))
  | create (source destination : Text) (type : RedirectType)
  | delete (root : Text) (namespaceId : NamespaceId) (destination : Text) (serial : Nat)
  | other

/-- The errors of a run. -/
def errorOf {α : Type} : Except Error α → Option Error
  | .ok _ => none
  | .error e => some e

/-- The file systems at each call of a step. -/
abbrev Environment := Nat → View

/-- Programs of this component. -/
abbrev Program := Exec World Call Error

/-- Make a call: it fails by a fault, or is answered from the file systems as they are. -/
def ask {α : Type} (env : Environment) (call : Except Error α → Call)
    (read : View → Except Error α) : Program (Except Error α) := fun m =>
  let view := env m.clock
  let answer := match (m.answers m.clock).fault with
    | some e => .error e
    | none => read view
  (answer, m.record (call answer) (errorOf answer) (m.world.see view))

/-- A call of which only success matters. -/
def perform (env : Environment) (call : Call) : Program (Option Error) := do
  return errorOf (← ask env (fun _ => call) fun _ => .ok ())

/-- The state of the runtime, which cannot fail. -/
def observe {α : Type} (env : Environment) (read : View → α) : Program α := fun m =>
  (read (env m.clock), { m with clock := m.clock + 1, world := m.world.see (env m.clock) })

/-- Change the world between calls. -/
def update (f : World → World) : Program Unit := fun m => ((), { m with world := f m.world })

/-- A session as it is. -/
def getSession (k : Fin maxSessions) : Program Session := do
  return (← currentWorld).sessions k

/-- `ENOENT` or `ENOTDIR`. -/
def Error.isMissing (e : Error) : Bool := e = .ENOENT || e = .ENOTDIR

/-- The results of `session_namespace_status`. -/
inductive NamespaceStatus where
  | accessible
  | gone
  | unavailable (error : Error)
deriving DecidableEq

/-- The mount table part of `session_namespace_status`. -/
def mountTableStatus (env : Environment) (s : Session) : Program NamespaceStatus := do
  match ← ask env .snapshot fun view => .ok view.mounts with
  | .error e => return .unavailable e
  | .ok mounts =>
    if hasNamespace mounts s.namespaceId.fsid then return .unavailable .EBUSY
    else return .gone

/-- `session_namespace_status`. -/
def sessionNamespaceStatus (env : Environment) (s : Session) : Program NamespaceStatus := do
  match ← ask env (.stat s.rootDestination) fun view => view.stat s.rootDestination with
  | .error e => if e.isMissing then mountTableStatus env s else return .unavailable e
  | .ok st =>
    if st.kind = .directory then
      match ← ask env (.statfs s.rootDestination) fun view => view.statfs s.rootDestination with
      | .error e => if e.isMissing then mountTableStatus env s else return .unavailable e
      | .ok fs =>
        if fs.fstypename = "nsfs".toList && fs.mntonname = s.rootDestination &&
            s.namespaceId = ⟨st.device, fs.fsid⟩ then return .accessible
        else mountTableStatus env s
    else mountTableStatus env s

/-- A name of `/mnt/sandbox` that belongs to a title: the title, an underscore, and
a number that fits a `long`. -/
def isSandboxOf (titleId name : Text) : Bool :=
  let suffix := name.drop (titleId.length + 1)
  titleId.length + 1 < name.length && name.take titleId.length = titleId &&
    name[titleId.length]? = some '_' && suffix.all Char.isDigit &&
    suffix.foldl (fun n c => 10 * n + (c.toNat - '0'.toNat)) 0 ≤ 2 ^ 63 - 1

/-- The path of the application below a name of `/mnt/sandbox`. -/
def app0Path (name : Text) : Text :=
  "/mnt/sandbox/".toList ++ name ++ "/app0".toList

/-- The loop of `resolve_pkg_app0_path`. -/
def resolveEntries (view : View) (titleId : Text) :
    List FileName → Option (Text × NamespaceId) → Except Error (Option (Text × NamespaceId))
  | [], found => .ok found
  | ⟨name, _⟩ :: rest, found =>
    if isSandboxOf titleId name && (app0Path name).length < maxPath then
      match view.stat (app0Path name) with
      | .error e => if e.isMissing then resolveEntries view titleId rest found else .error e
      | .ok st =>
        if st.kind = .directory then
          match view.statfs (app0Path name) with
          | .error e =>
            if e.isMissing then resolveEntries view titleId rest found else .error e
          | .ok fs =>
            if fs.fstypename = "nsfs".toList && fs.mntonname = app0Path name then
              if found.isSome then .error .EBUSY
              else resolveEntries view titleId rest
                (some (app0Path name, ⟨st.device, fs.fsid⟩))
            else resolveEntries view titleId rest found
        else resolveEntries view titleId rest found
    else resolveEntries view titleId rest found

/-- `resolve_pkg_app0_path`. -/
def resolvePkgApp0Path (view : View) (titleId : Text) : Except Error (Text × NamespaceId) := do
  let names ← view.readdir "/mnt/sandbox".toList
  match ← resolveEntries view titleId names none with
  | none => .error .ENOENT
  | some found => .ok found

/-- `reserve_destination_storage`. -/
def reserveDestinationStorage (env : Environment) (k : Fin maxSessions) (needed : Nat) :
    Program (Option Error) := do
  let s ← getSession k
  if needed ≤ s.storageCapacity then return none
  else
    match Session.growCapacity needed 64
        (if s.storageCapacity = 0 then 4096 else s.storageCapacity) with
    | none => return some .ENOMEM
    | some capacity =>
      match ← perform env .other with
      | some _ => return some .ENOMEM
      | none =>
        update fun w => w.updateSession k fun s =>
          { s with storage := some s.written, storageCapacity := capacity }
        return none

/-- `create_redirect_locked`. -/
def createRedirect (env : Environment) (k : Fin maxSessions) (source destination : Text)
    (type : RedirectType) : Program (Option Error) := do
  let s ← getSession k
  if s.redirects.length ≥ maxRedirects then return some .E2BIG
  else if destination.length + 1 > 2 ^ 64 - 1 - s.written.length then return some .EOVERFLOW
  else if s.written.length > 2 ^ 32 - 1 then return some .EOVERFLOW
  else
    match ← reserveDestinationStorage env k (s.written.length + (destination.length + 1)) with
    | some e => return some e
    | none =>
      match ← perform env (.create source destination type) with
      | some e => return some e
      | none =>
        update fun w => w.addRedirect k destination
        return none

/-- The path of a directory entry. -/
def childPath (directory name : Text) : Text := directory ++ '/' :: name

/-- Entries that `create_child_redirects_locked` passes over. -/
def isSkipped (sourceRoot : Bool) (name : Text) : Bool :=
  name = ".".toList || name = "..".toList ||
    (sourceRoot && (name = "fakelib".toList || name = "fakelib2".toList))

/-- One entry of `create_child_redirects_locked`. -/
def createEntry (env : Environment) (k : Fin maxSessions)
    (descend : Text → Text → Program (Option Error)) (source destination : Text) :
    Program (Option Error) := do
  if source.length ≥ maxPath || destination.length ≥ maxPath then return some .ENAMETOOLONG
  else
    match ← ask env (fun _ => .other) fun view => view.lstat source with
    | .error e => return some e
    | .ok st =>
      match st.kind with
      | .regular => createRedirect env k source destination .plain
      | .other => return none
      | .directory =>
        match ← ask env (.stat destination) fun view => view.stat destination with
        | .ok dst =>
          if dst.kind = .directory then descend source destination
          else return some .ENOTDIR
        | .error e =>
          if e = .ENOENT then createRedirect env k source destination .overlay
          else return some e

/-- The loop of `create_child_redirects_locked`: the rest of the entries.  An error
ends it. -/
def createEntries (env : Environment) (k : Fin maxSessions)
    (descend : Text → Text → Program (Option Error)) (sourceRoot : Bool)
    (source destination : Text) : List FileName → Program (Option Error)
  | [] => perform env .other
  | name :: rest => do
    match ← perform env .other with
    | some e => return some e
    | none =>
      if isSkipped sourceRoot name.text then
        createEntries env k descend sourceRoot source destination rest
      else
        match ← createEntry env k descend (childPath source name.text)
            (childPath destination name.text) with
        | some e => return some e
        | none => createEntries env k descend sourceRoot source destination rest

/-- `create_child_redirects_locked`, by the depth that is left. -/
def createChildRedirects (env : Environment) (k : Fin maxSessions) :
    Nat → Bool → Text → Text → Program (Option Error)
  | 0, _, _, _ => return some .ELOOP
  | depth + 1, sourceRoot, source, destination => do
    match ← ask env (fun _ => .other) fun view => view.readdir source with
    | .error e => return some e
    | .ok names =>
      let failed ← createEntries env k (createChildRedirects env k depth false) sourceRoot
        source destination names
      let closed ← perform env .other
      return failed.or closed

open Error

/-- `delete_redirect`: the error of a redirect that may still be there. -/
def deleteError : Option Error → Option Error
  | some .ENOENT | some .EINVAL => none
  | answer => answer

/-- The loop of `cleanup_session_locked`, from the last redirect to the first.  The
session is clean when it ends without an error. -/
def deleteRedirects (env : Environment) (k : Fin maxSessions) :
    Nat → Option Error → Program (Option Error)
  | 0, first => return first
  | i + 1, first => do
    let s ← getSession k
    match s.redirects[i]? with
    | none => deleteRedirects env k i first
    | some redirect =>
      match s.redirectDestination redirect with
      | none =>
        deleteRedirects env k i
          (if redirect.destinationOffset = deletedOffset then first else some EIO)
      | some destination =>
        let answer ← perform env
          (.delete s.rootDestination s.namespaceId destination redirect.serial)
        match deleteError answer with
        | some e =>
          deleteRedirects env k i
            (if first = none ∨ first = some .EBUSY then some e else first)
        | none =>
          update fun w => w.releaseRedirect k i redirect.serial
          deleteRedirects env k i first

/-- `cleanup_session_locked`: its error, `none` when the session is clean. -/
def cleanupSession (env : Environment) (k : Fin maxSessions) : Program (Option Error) := do
  let s ← getSession k
  if s.installed then
    update fun w => w.updateSession k fun s => { s with ready := false }
    match ← sessionNamespaceStatus env s with
    | .unavailable e => return some e
    | .gone =>
      update fun w => w.resetSession k
      return none
    | .accessible =>
      match ← perform env .other with
      | some e => return some e
      | none =>
        match ← deleteRedirects env k s.redirects.length none with
        | some e => return some e
        | none =>
          update fun w => w.resetSession k
          return none
  else return none

/-- `GAME_SANDBOX_CLEANUP_TIMEOUT_US`. -/
def cleanupTimeout : Nat := 10000000

/-- `GAME_LIFECYCLE_POLL_INTERVAL_US`. -/
def pollInterval : Nat := 250000

/-- `schedule_pkg_cleanup`, after its tests. -/
def Session.scheduleCleanup (s : Session) (now : Nat) : Session :=
  let deadline := if s.cleanupDeadline = 0 && now ≠ 0 then now + cleanupTimeout
    else s.cleanupDeadline
  { s with
    cleanupDeadline := deadline
    cleanupNext := if now = 0 || now ≥ deadline then 0 else min (now + pollInterval) deadline }

/-- `schedule_pkg_cleanup`. -/
def schedulePkgCleanup (env : Environment) (k : Fin maxSessions) (error : Error) :
    Program Unit := do
  let halting ← observe env View.halting
  if halting || error ≠ .EBUSY then
    update fun w => w.updateSession k fun s => { s with cleanupNext := 0 }
  else
    let now ← observe env View.now
    update fun w => w.updateSession k fun s => s.scheduleCleanup now

/-- Clean up, or try again later. -/
def cleanupOrSchedule (env : Environment) (k : Fin maxSessions) : Program Unit := do
  match ← cleanupSession env k with
  | none => return ()
  | some e => schedulePkgCleanup env k e

/-- A loop over the sessions. -/
def forSessions (body : Fin maxSessions → Program Unit) : List (Fin maxSessions) → Program Unit
  | [] => return ()
  | k :: rest => do
    body k
    forSessions body rest

/-- `sm_pkg_backport_poll_cleanup`. -/
def pollCleanup (env : Environment) : Program Unit := do
  let now ← observe env View.now
  forSessions (fun k => do
    let halting ← observe env View.halting
    if halting then update fun w => w.updateSession k fun s => { s with cleanupNext := 0 }
    else
      let s ← getSession k
      if s.cleanupNext ≠ 0 && (now = 0 || now ≥ s.cleanupNext) then cleanupOrSchedule env k
      else return ()) (List.finRange maxSessions)

/-- `sm_pkg_backport_on_launch_failed`. -/
def onLaunchFailed (env : Environment) (titleId : Text) : Program Unit :=
  forSessions (fun k => do
    let s ← getSession k
    if s.installed && s.pid ≤ 0 && s.titleId = titleId then cleanupOrSchedule env k
    else return ()) (List.finRange maxSessions)

/-- `sm_pkg_backport_on_exec`. -/
def onExec (pid : Int) (titleId : Text) : Program Unit :=
  if pid ≤ 0 || !isSupportedGameTitleId titleId then return ()
  else
    forSessions (fun k => do
      let s ← getSession k
      if s.installed && s.titleId = titleId then
        update fun w => w.updateSession k fun s =>
          { s with pid := pid, cleanupNext := 0, cleanupDeadline := 0 }
      else return ()) (List.finRange maxSessions)

/-- `sm_pkg_backport_on_exit`. -/
def onExit (env : Environment) (pid : Int) : Program Unit :=
  if pid ≤ 0 then return ()
  else
    forSessions (fun k => do
      let s ← getSession k
      if s.installed && s.pid = pid then cleanupOrSchedule env k else return ())
      (List.finRange maxSessions)

/-- `sm_pkg_backport_shutdown`. -/
def shutdown (env : Environment) : Program Unit :=
  forSessions (fun k => do
    let _ ← cleanupSession env k
    update fun w => w.updateSession k fun s => { s with cleanupNext := 0, cleanupDeadline := 0 })
    (List.finRange maxSessions)

/-- The loop of `prepare_session_locked`: the session of a namespace.  Sessions
whose namespace is gone are reset on the way. -/
def findSession (env : Environment) (titleId destination : Text) (namespaceId : NamespaceId) :
    List (Fin maxSessions) → Program (Option (Fin maxSessions))
  | [] => return none
  | k :: rest => do
    let s ← getSession k
    if s.installed then
      if s.titleId = titleId && s.rootDestination = destination &&
          s.namespaceId = namespaceId then return some k
      else
        match ← sessionNamespaceStatus env s with
        | .gone =>
          update fun w => w.resetSession k
          findSession env titleId destination namespaceId rest
        | _ => findSession env titleId destination namespaceId rest
    else findSession env titleId destination namespaceId rest

/-- `find_free_session_locked`. -/
def findFreeSession (w : World) : Option (Fin maxSessions) :=
  (List.finRange maxSessions).find? fun k => !(w.sessions k).installed

/-- The results of `prepare_session_locked`. -/
inductive Prepared where
  | alreadyReady
  | refused (error : Error)
  | fresh (k : Fin maxSessions)
deriving DecidableEq

/-- `prepare_session_locked`. -/
def prepareSession (env : Environment) (titleId source destination : Text)
    (namespaceId : NamespaceId) : Program Prepared := do
  match ← findSession env titleId destination namespaceId (List.finRange maxSessions) with
  | some k =>
    let s ← getSession k
    if s.ready && s.rootSource = source && s.rootDestination = destination then
      return .alreadyReady
    else return .refused .EBUSY
  | none =>
    match findFreeSession (← currentWorld) with
    | none => return .refused .EBUSY
    | some k =>
      update fun w => w.beginSession k titleId source destination namespaceId
      return .fresh k

/-- The failure path of `sm_pkg_backport_on_sandbox_ready`: what was created is
deleted, or kept for another try. -/
def rollbackSession (env : Environment) (k : Fin maxSessions) (error : Error) :
    Program (Except Error Bool) := do
  update fun w => w.updateSession k fun s => { s with installed := s.redirects ≠ [] }
  match ← cleanupSession env k with
  | some cleanupError =>
    schedulePkgCleanup env k cleanupError
    return .error error
  | none =>
    update fun w => w.resetSession k
    return .error error

/-- The success path of `sm_pkg_backport_on_sandbox_ready`: a session without
redirects is given back. -/
def installSession (k : Fin maxSessions) : Program (Except Error Bool) := do
  let s ← getSession k
  if s.redirects = [] then
    update fun w => w.resetSession k
    return .ok true
  else
    update fun w => w.updateSession k fun s => { s with installed := true, ready := true }
    return .ok true

/-- The part of `sm_pkg_backport_on_sandbox_ready` that fills a fresh session. -/
def fillSession (env : Environment) (k : Fin maxSessions) (source destination : Text) :
    Program (Except Error Bool) := do
  match ← perform env .other with
  | some e => rollbackSession env k e
  | none =>
    match ← sessionNamespaceStatus env (← getSession k) with
    | .gone =>
      update fun w => w.resetSession k
      return .ok true
    | .unavailable e =>
      update fun w => w.resetSession k
      return .error e
    | .accessible =>
      match ← createChildRedirects env k maxDirectoryDepth true source destination with
      | some e => rollbackSession env k e
      | none => installSession k

/-- `sm_pkg_backport_on_sandbox_ready`, after the source of the backport and the
path of the application were found without the mutex. -/
def onSandboxReady (env : Environment) (titleId source : Text) (found : Text × NamespaceId) :
    Program (Except Error Bool) := do
  let halting ← observe env View.halting
  if halting then return .error .EBUSY
  else
    match ← prepareSession env titleId source found.1 found.2 with
    | .refused e => return .error e
    | .alreadyReady => return .ok true
    | .fresh k => fillSession env k source found.1

/-- The events of the component, with the answers to their calls, and changes of the
file systems between them.  A sandbox is resolved in file systems of its own: that
happens before the mutex is taken. -/
inductive Step where
  | sandboxReady (titleId : Text) (source : Option Text) (resolution : View)
      (env : Environment) (answers : Nat → Answer Error)
  | exec (pid : Int) (titleId : Text)
  | exit (pid : Int) (env : Environment) (answers : Nat → Answer Error)
  | launchFailed (titleId : Text) (env : Environment) (answers : Nat → Answer Error)
  | poll (env : Environment) (answers : Nat → Answer Error)
  | shutdown (env : Environment) (answers : Nat → Answer Error)
  | change (view : View)

/-- A machine at the start of a step. -/
def World.start (w : World) (answers : Nat → Answer Error) : Machine World Call Error :=
  ⟨answers, 0, w, []⟩

/-- The machine after a step. -/
def run (w : World) : Step → Machine World Call Error
  | .sandboxReady titleId source resolution env answers =>
    match source, resolvePkgApp0Path resolution titleId with
    | some source, .ok found =>
      if isSupportedGameTitleId titleId then
        (onSandboxReady env titleId source found (w.start answers)).2
      else w.start answers
    | _, _ => w.start answers
  | .exec pid titleId => (onExec pid titleId (w.start fun _ => ⟨none, 0⟩)).2
  | .exit pid env answers => (onExit env pid (w.start answers)).2
  | .launchFailed titleId env answers => (onLaunchFailed env titleId (w.start answers)).2
  | .poll env answers => (pollCleanup env (w.start answers)).2
  | .shutdown env answers => (PkgBackport.shutdown env (w.start answers)).2
  | .change view => (w.see view).start fun _ => ⟨none, 0⟩

/-- The world after a step. -/
def next (w : World) (op : Step) : World := (run w op).world

/-- The world at program start. -/
def World.initial : World where
  sessions := fun _ => Session.empty
  mounts := []
  live := []
  nextSerial := 0
  released := []

/-- Every order of events. -/
def system : System World Step := System.ofFunction World.initial next

end ShadowMount.PkgBackport
