import ShadowMount.PkgServer.Request

/-!
# Package installation

The part of {lit}`package_install_thread` of {lit}`sm_api_service.c` that installs one package: the
submission to the system, the loop that polls its reports until the installation is complete, and
the decision on {lit}`sceAppInstUtilCancelInstall`.

All that comes from outside is an input: the reports of the system, what is installed, the clock,
the requests to cancel, and how far the served file has been read.  Each turn of the loop gets one
{lit}`Round` of them, so that a statement about every list of rounds is one about every course of
an installation.
-/

namespace ShadowMount.PackageInstall

open StorageJob
open Errno

/-- An error number that is not zero. -/
inductive Failure where
  | errno (e : Errno)
  | other (code : Nat)
deriving DecidableEq

/-- `SM_PKG_NATIVE_BASE`. -/
def nativeBase : Int := 0

/-- `SM_PKG_NATIVE_ADDCONT`. -/
def nativeAddcont : Int := 1

/-- `SM_PKG_NATIVE_PATCH`. -/
def nativePatch : Int := 2

/-- `SM_PKG_ADDCONT_INSTALLED`. -/
def addcontInstalled : Int := 4

/-- `SM_PKG_NATIVE_CONTENT_NOT_FOUND`. -/
def contentNotFound : Int := 0x80E90004 - 2 ^ 32

/-- `SM_API_PKG_START_TIMEOUT_US`. -/
def startTimeoutUs : Nat := 30 * 1000000

/-- `INT64_MAX`. -/
def int64Max : Nat := 2 ^ 63 - 1

/-- The fields of `sm_pkg_native_status_t` that are looked at. -/
structure NativeStatus where
  status : Text
  downloaded : Nat
  total : Nat
  /-- `error.code`. -/
  errorCode : Int
  patchVersion : List UInt8
  localCopyPercent : Int
  copyOnly : Bool
deriving DecidableEq

/-- The result of a call for a report, with the report. -/
structure Report extends NativeStatus where
  result : Int
deriving DecidableEq

namespace NativeStatus

variable (n : NativeStatus)

/-- The record of the task is missing. -/
def isNone : Bool := n.status = "none".toList

def isPlayable : Bool := n.status = "playable".toList

def isCompleted : Bool := n.status = "completed".toList

/-- The variable `terminal`, also called `ready`. -/
def terminal : Bool := n.isPlayable || n.isCompleted

/-- The report has a size that can be used. -/
def sized : Bool := 0 < n.total && n.total ≤ int64Max

/-- The variable `copied`: no local copy is going on. -/
def copied : Bool := !n.copyOnly || 100 ≤ n.localCopyPercent

end NativeStatus

/-- The check that follows each call for a report. -/
def Report.failed (r : Report) : Bool :=
  r.result ≠ 0 || r.errorCode ≠ 0 || r.status = "error".toList

/-- The fields of `struct stat` that tell a package from another. -/
structure FileStat extends Pkg.SourceStat where
  /-- `S_ISREG`. -/
  regular : Bool

/-- `sm_pkg_source_matches`. -/
def sourceMatches (info : Pkg.Info) (st : FileStat) : Bool :=
  st.regular && st.size.toNat = info.sourceSize && st.device = info.sourceDevice &&
    st.inode = info.sourceInode && st.ctime = info.sourceCtime && st.mtime = info.sourceMtime &&
    st.mtimeNs = info.sourceMtimeNs && st.ctimeNs = info.sourceCtimeNs

/-- The record that `package_patch_result_installed` makes of an earlier file. -/
def infoOfStat (st : FileStat) : Pkg.Info :=
  { Pkg.zeroInfo with
    sourceSize := st.size.toNat
    sourceDevice := st.device
    sourceInode := st.inode
    sourceCtime := st.ctime
    sourceMtime := st.mtime
    sourceMtimeNs := st.mtimeNs
    sourceCtimeNs := st.ctimeNs }

/-- `pkg_result_snapshot_t`. -/
abbrev Snapshot := Except Failure FileStat

/-- A snapshot that was not taken. -/
def zeroStat : FileStat where
  size := 0
  device := 0
  inode := 0
  ctime := 0
  mtime := 0
  mtimeNs := 0
  ctimeNs := 0
  regular := false

/-- The checks of `snapshot_package_result` on a file that it has found. -/
def snapshotFile (found : Snapshot) : Snapshot :=
  match found with
  | .error e => .error e
  | .ok st => if st.regular && 0 < st.size.toNat then .ok st else .error (.errno .EINVAL)

/-- One of the two files in which a patch can end: as `lstat` finds it, as it is parsed, and
as `lstat` finds it afterwards. -/
structure Candidate where
  found : Snapshot
  parsed : Option Pkg.Info
  stable : Option FileStat

/-- Was there no file before? -/
def wasMissing (before : Snapshot) : Bool :=
  match before with
  | .error e => e = .errno .ENOENT || e = .errno .ENOTDIR
  | .ok _ => false

/-- Is the file another one than before?  A file that could not be looked at before is not. -/
def fileChanged (before : Snapshot) (current : FileStat) : Bool :=
  match before with
  | .error _ => wasMissing before
  | .ok old => !sourceMatches (infoOfStat old) current

/-- The comparison of a parsed file with the package. -/
def sameContent (source installed : Pkg.Info) : Bool :=
  (installed.pkgKind = .base || installed.pkgKind = .patch) &&
    installed.titleId = source.titleId && installed.contentId = source.contentId &&
    (source.appVer = [] || installed.appVer = source.appVer)

/-- One turn of the loop of `package_patch_result_installed`. -/
def candidateInstalled (source : Pkg.Info) (before : Snapshot) (file : Candidate) : Bool :=
  match snapshotFile file.found with
  | .error _ => false
  | .ok current =>
    fileChanged before current &&
      match file.parsed with
      | none => false
      | some installed =>
        sourceMatches installed current && sameContent source installed &&
          file.stable.any (sourceMatches installed)

/-- `package_patch_result_installed`, over the two files with their earlier snapshots. -/
def packagePatchResultInstalled (source : Pkg.Info) (files : List (Snapshot × Candidate)) : Bool :=
  files.any fun file => candidateInstalled source file.1 file.2

/-- What `package_install_cancelled` sees when it is called. -/
structure Look where
  now : Nat
  /-- `sm_pkg_stream_status`. -/
  streamStatus : Option Failure
  /-- `sm_pkg_server_source_matches`, or the same of the local file. -/
  sourceMatches : Bool
  bytesServed : Nat
  lastRequestUs : Nat
  cancelRequested : Bool
  stopRequested : Bool
  sleeping : Bool
deriving DecidableEq

/-- `pkg_job_context_t`; of the pointers it is kept whether they are set. -/
structure Context where
  bytes : Nat
  activityUs : Nat
  sourceCheckUs : Nat
  sampleUs : Nat
  sampleBytes : Nat
  sampleTotal : Nat
  nativeProgress : Bool
  server : Bool
  stream : Bool
  expected : Bool
  failure : Option Failure
deriving DecidableEq

namespace Context

variable (ctx : Context) (look : Look)

/-- The status of the stream. -/
def checkStream : Context :=
  if ctx.stream ∧ look.streamStatus.isSome ∧ look.streamStatus ≠ some (.errno .ECANCELED) then
    { ctx with failure := look.streamStatus }
  else ctx

/-- The check of the source, once in a second. -/
def checkSource : Context :=
  if ctx.expected ∧ ctx.sourceCheckUs ≤ look.now then
    { ctx with
      sourceCheckUs := look.now + 1000000
      failure := if look.sourceMatches then ctx.failure else some (.errno .ESTALE) }
  else ctx

/-- The progress of the server. -/
def checkServer : Context :=
  if ctx.server then
    let ctx :=
      if ctx.bytes < look.bytesServed then
        { ctx with bytes := look.bytesServed, activityUs := look.now }
      else ctx
    { ctx with activityUs := max ctx.activityUs look.lastRequestUs }
  else ctx

/-- Fifteen minutes without any activity. -/
def checkActivity : Context :=
  if ctx.activityUs < look.now ∧ 900 * 1000000 < look.now - ctx.activityUs then
    { ctx with failure := some (.errno .ETIMEDOUT) }
  else ctx

end Context

/-- `package_install_cancelled`. -/
def packageInstallCancelled (ctx : Context) (look : Look) : Context × Bool :=
  let ctx := (((ctx.checkStream look).checkSource look).checkServer look).checkActivity look
  (ctx, look.cancelRequested || look.stopRequested || look.sleeping || ctx.failure.isSome)

/-- The status of an installation that is cancelled. -/
def Context.cancelStatus (ctx : Context) : Failure := ctx.failure.getD (.errno .ECANCELED)

/-- The loop of `wait_for_package_poll`. -/
def waitLooks (ctx : Context) : List Look → Context × Option Failure
  | [] => (ctx, none)
  | look :: rest =>
    let (ctx, cancelled) := packageInstallCancelled ctx look
    if cancelled then (ctx, some ctx.cancelStatus) else waitLooks ctx rest

/-- `wait_for_package_poll`, which looks ten times. -/
def waitForPackagePoll (ctx : Context) (looks : Fin 10 → Look) : Context × Option Failure :=
  waitLooks ctx (List.ofFn looks)

/-- `publish_package_progress`, as far as the context goes. -/
def publishPackageProgress (ctx : Context) (total bytes now : Nat) : Context :=
  if total = 0 ∨ int64Max < total then ctx
  else
    let bytes := min bytes total
    if ctx.sampleBytes ≠ 0 ∧
        (bytes = 0 ∨ (ctx.sampleTotal = total ∧ bytes < ctx.sampleBytes)) then ctx
    else
      let sample := ctx.sampleUs ≠ 0 ∧ ctx.sampleTotal = total ∧ ctx.sampleBytes ≤ bytes ∧
        ctx.sampleUs < now
      if sample ∧ now - ctx.sampleUs < 1000000 then ctx
      else
        { ctx with
          activityUs := if sample ∧ ctx.sampleBytes < bytes then now else ctx.activityUs
          sampleUs := now
          sampleBytes := bytes
          sampleTotal := total }

/-- What the loop works on: the package, the task that the system has made of it, and what was
found before the submission. -/
structure Task where
  info : Pkg.Info
  /-- `submission.info.type`. -/
  type : Int
  /-- `general_snapshot`. -/
  generalSnapshot : Bool
  previousGeneral : NativeStatus
  /-- `previous_result`: the base and the patch. -/
  previousResult : Snapshot × Snapshot

/-- What one turn of the loop sees. -/
structure Round where
  look : Look
  /-- `sceAppInstUtilGetInstallStatus`. -/
  installReport : Report
  /-- `sceAppInstUtilGetPatchInstallStatus`. -/
  patchReport : Report
  /-- `sceAppInstUtilGetAddcontInstalledStatus`. -/
  addcontResult : Int
  addcontStatus : Int
  /-- The files of the base and of the patch. -/
  files : Candidate × Candidate
  /-- `sm_pkg_server_complete`. -/
  served : Bool
  now : Nat
  progressUs : Nat
  waits : Fin 10 → Look

/-- The variables of the loop. -/
structure Poll where
  ctx : Context
  replacementObserved : Bool
  patchCompletedTotal : Nat
  taskStartDeadlineUs : Nat

/-- What becomes of a turn. -/
inductive Turn where
  | again (s : Poll)
  | ended (ctx : Context) (status : Option Failure)

variable (t : Task)

/-- `native_status` of a turn. -/
def Task.report (r : Round) : Report :=
  if t.type = nativePatch then r.patchReport else r.installReport

/-- The variable `installed`: whether the add-on is there, if that is asked for. -/
def Task.installed (r : Round) : Except Failure Int :=
  let n := t.report r
  if t.type = nativeAddcont ∧ (n.isNone || n.isCompleted || n.isPlayable) = true then
    if r.addcontResult = contentNotFound then .ok 0
    else if r.addcontResult ≠ 0 then .error (.errno EIO)
    else .ok r.addcontStatus
  else .ok 0

/-- Wait for the next turn. -/
def waitTurn (s : Poll) (r : Round) : Turn :=
  match waitForPackagePoll s.ctx r.waits with
  | (ctx, none) => .again { s with ctx := ctx }
  | (ctx, some e) => .ended ctx (some e)

/-- Wait for a record of the task, but not for ever. -/
def waitTask (s : Poll) (r : Round) : Turn :=
  if r.now = 0 then .ended s.ctx (some (.errno EIO))
  else if s.taskStartDeadlineUs ≤ r.now then .ended s.ctx (some (.errno .ETIMEDOUT))
  else waitTurn s r

/-- The window for a record that has become missing starts now. -/
def Poll.openWindow (s : Poll) (r : Round) : Poll :=
  if s.taskStartDeadlineUs = 0 then { s with taskStartDeadlineUs := r.now + startTimeoutUs } else s

/-- The record of a patch task is gone: is the patch there? -/
def Task.patchRetired (r : Round) : Bool :=
  r.installReport.terminal && r.installReport.copied &&
    packagePatchResultInstalled t.info
      [(t.previousResult.1, r.files.1), (t.previousResult.2, r.files.2)]

/-- The branch for a missing record. -/
def pollMissing (s : Poll) (r : Round) (installed : Int) : Turn :=
  if t.type = nativeAddcont ∧ installed = addcontInstalled then .ended s.ctx none
  else if t.type = nativePatch ∧ s.patchCompletedTotal ≠ 0 then
    if r.installReport.failed then .ended s.ctx (some (.errno EIO))
    else if t.patchRetired r then .ended s.ctx none
    else waitTask (s.openWindow r) r
  else waitTask (s.openWindow r) r

/-- Does a report show that the system works on the replacement? -/
def Task.replaces (n : NativeStatus) : Bool :=
  !n.terminal || (t.generalSnapshot &&
    (n.total ≠ t.previousGeneral.total || n.downloaded ≠ t.previousGeneral.downloaded ||
      n.patchVersion ≠ t.previousGeneral.patchVersion))

/-- Does the task share its record with a base that is installed? -/
def Task.shared : Bool := t.info.pkgKind ≠ .base && t.type = nativeBase

/-- The sizes of a report are noted. -/
def noteSizes (s : Poll) (r : Round) : Poll :=
  let n := t.report r
  if n.sized then
    { s with
      patchCompletedTotal :=
        if t.type = nativePatch then
          if n.total ≤ n.downloaded then n.total
          else if s.patchCompletedTotal ≠ n.total then 0
          else s.patchCompletedTotal
        else s.patchCompletedTotal
      ctx := publishPackageProgress { s.ctx with nativeProgress := true } n.total n.downloaded
        r.progressUs }
  else s

/-- The variable `downloaded`.  The served bytes count only when there is no size. -/
def downloaded (ctx : Context) (r : Round) : Bool :=
  let n := t.report r
  if n.sized then n.total ≤ n.downloaded
  else t.info.pkgKind = .base && !ctx.nativeProgress && ctx.server && r.served

/-- The variable `completed`, before the add-on is asked for. -/
def completed (ctx : Context) (r : Round) : Bool :=
  let n := t.report r
  n.copied && (n.isCompleted || (n.isPlayable && downloaded t ctx r))

/-- The end of a turn. -/
def pollEnd (s : Poll) (r : Round) (installed : Int) : Turn :=
  if completed t s.ctx r ∧ t.type = nativeAddcont ∧ installed ≠ addcontInstalled then
    waitTask (s.openWindow r) r
  else
    let s := { s with taskStartDeadlineUs := 0 }
    if completed t s.ctx r then .ended s.ctx none else waitTurn s r

/-- The branch for a record that is there. -/
def pollPresent (s : Poll) (r : Round) (installed : Int) : Turn :=
  if t.shared ∧ s.replacementObserved = false then
    if t.replaces (t.report r).toNativeStatus then
      pollEnd t (noteSizes t { s with replacementObserved := true } r) r installed
    else waitTask s r
  else pollEnd t (noteSizes t s r) r installed

/-- One turn of the polling loop. -/
def pollTurn (s : Poll) (r : Round) : Turn :=
  let (ctx, cancelled) := packageInstallCancelled s.ctx r.look
  let s := { s with ctx := ctx }
  if cancelled then .ended ctx (some ctx.cancelStatus)
  else if (t.report r).failed then .ended ctx (some (.errno EIO))
  else if (t.report r).status = [] then .ended ctx (some (.errno .EPROTO))
  else
    match t.installed r with
    | .error e => .ended ctx (some e)
    | .ok installed =>
      if (t.report r).isNone then pollMissing t s r installed else pollPresent t s r installed

/-- The polling loop; nothing when the rounds do not suffice for it to end. -/
def pollLoop (s : Poll) : List Round → Option (Context × Option Failure)
  | [] => none
  | r :: rest =>
    match pollTurn t s r with
    | .again s => pollLoop s rest
    | .ended ctx status => some (ctx, status)

/-- What `sceAppInstUtilInstallByPackage` gives back. -/
structure Submission where
  result : Int
  contentId : Text
  type : Int
deriving DecidableEq

/-- One failed try to keep the scanner away. -/
structure ScannerTry where
  now : Nat
  waits : Fin 10 → Look

/-- What the installation of a package sees outside its polling loop. -/
structure Attempt where
  /-- `runtime_mutation_block_reason`, at first and with the scanner kept away. -/
  blocked : Bool
  blockedLate : Bool
  firstLook : Look
  /-- The scanner and SceShellCore are kept away since an earlier package of the queue. -/
  scannerHeld : Bool
  shellcoreHeld : Bool
  scannerTries : List ScannerTry
  shellcoreBegins : Bool
  /-- The parsed package, or why it cannot be read. -/
  parsed : Except Failure Pkg.Info
  source : Text
  resolved : Text
  token : Text
  host : Text
  port : UInt16
  /-- The result of `package_base_installed`, and what it finds of a package. -/
  baseInstalled : Bool
  pkgInstalled : Bool
  titleProtected : Bool
  /-- The status of the start of a server. -/
  serverStatus : Option Failure
  look : Look
  /-- The reports and files before the submission. -/
  previousReport : Report
  previousFiles : Snapshot × Snapshot
  /-- The status of `pthread_create`. -/
  threadStatus : Option Failure
  /-- What is seen while the submission is not done. -/
  waits : List Look
  submission : Submission
  /-- Whether a submission that was not waited for is done in the end. -/
  doneLate : Bool
  startUs : Nat
  endLook : Look

/-- The result of an installation, and the content that is cancelled. -/
structure Finished where
  status : Option Failure
  cancelInstall : Option Text
deriving DecidableEq

/-- The context that an installation starts with. -/
def Context.initial (activityUs : Nat) (server stream : Bool) : Context where
  bytes := 0
  activityUs := activityUs
  sourceCheckUs := 0
  sampleUs := 0
  sampleBytes := 0
  sampleTotal := 0
  nativeProgress := false
  server := server
  stream := stream
  expected := false
  failure := none

/-- The loop that waits for the scanner, with the tries that fail before it succeeds. -/
def awaitScanner (ctx : Context) (deadline : Nat) : List ScannerTry → Context × Option Failure
  | [] => (ctx, none)
  | attempt :: rest =>
    if ctx.stream = false ∨ (deadline ≠ 0 ∧ deadline ≤ attempt.now) then
      (ctx, some (.errno .EBUSY))
    else if attempt.now = 0 then (ctx, some (.errno EIO))
    else
      match waitForPackagePoll ctx attempt.waits with
      | (ctx, some e) => (ctx, some e)
      | (ctx, none) =>
        awaitScanner ctx (if deadline = 0 then attempt.now + startTimeoutUs else deadline) rest

/-- The kind of the package, in the light of what is installed. -/
def packageKind (info : Pkg.Info) (baseInstalled pkgInstalled : Bool) : Except Failure Pkg.Info :=
  if info.pkgKind = .base ∧ pkgInstalled = true then
    if info.isMediaRemaster then .ok { info with pkgKind := .patch }
    else .error (.errno .EEXIST)
  else if info.pkgKind ≠ .base ∧ baseInstalled = false then .error (.errno .ENOENT)
  else .ok info

namespace Attempt

variable (a : Attempt)

/-- What has to be done once for a queue: keep the scanner and SceShellCore away. -/
def claim (ctx : Context) : Context × Option Failure :=
  let (ctx, status) :=
    if a.scannerHeld then (ctx, none)
    else
      match awaitScanner ctx 0 a.scannerTries with
      | (ctx, some e) => (ctx, some e)
      | (ctx, none) => (ctx, if a.blockedLate then some (.errno .EBUSY) else none)
  (ctx, status.or (if a.shellcoreHeld || a.shellcoreBegins then none else some (.errno .EBUSY)))

/-- The installation up to the parsed package. -/
def prepare (ctx : Context) : Context × Except Failure Pkg.Info :=
  if a.blocked then (ctx, .error (.errno .EBUSY))
  else
    let (ctx, cancelled) := packageInstallCancelled ctx a.firstLook
    if cancelled then (ctx, .error (.errno .ECANCELED))
    else
      match a.claim ctx with
      | (ctx, some e) => (ctx, .error e)
      | (ctx, none) => (ctx, a.parsed)

/-- The start of the server, which updates need as much as remote files. -/
def startServer (ctx : Context) (info : Pkg.Info) : Context × Option Failure :=
  let wanted := !ctx.server &&
    (ctx.stream || PackageSource.smbPath a.resolved || info.pkgKind ≠ .base)
  let ctx := { ctx with
    server := ctx.server || (wanted && a.serverStatus.isNone)
    expected := ctx.expected || !ctx.stream }
  (ctx, if wanted then a.serverStatus else none)

/-- The address of the package for the system. -/
def uri (ctx : Context) : Option Text :=
  if ctx.server then PkgServer.packageUri a.host a.port a.token a.source
  else
    let uri := (if pathMatchesRootOrChild a.resolved "/data".toList then "/user".toList else []) ++
      a.resolved
    if uri.length < PkgServer.uriSize then some uri else none

/-- The installation up to the creation of the thread that submits the package. -/
def submit (ctx : Context) (info : Pkg.Info) : Context × Pkg.Info × Option Failure :=
  match packageKind info a.baseInstalled a.pkgInstalled with
  | .error e => (ctx, info, some e)
  | .ok info =>
    if a.titleProtected then (ctx, info, some (.errno .EBUSY))
    else
      match a.startServer ctx info with
      | (ctx, some e) => (ctx, info, some e)
      | (ctx, none) =>
        let (ctx, cancelled) := packageInstallCancelled ctx a.look
        if cancelled then (ctx, info, some ctx.cancelStatus)
        else if (a.uri ctx).isNone then (ctx, info, some (.errno .ENAMETOOLONG))
        else (ctx, info, a.threadStatus)

/-- The checks on what the system has accepted. -/
def accept (info : Pkg.Info) : Option Failure :=
  if a.submission.result ≠ 0 then some (.errno EIO)
  else if a.submission.contentId = [] then some (.errno .EPROTO)
  else if a.submission.contentId ≠ info.contentId then some (.errno .EPROTO)
  else if a.submission.type < nativeBase ∨ nativePatch < a.submission.type then
    some (.errno .EPROTO)
  else none

/-- The task that is polled. -/
def task (info : Pkg.Info) : Task where
  info := info
  type := a.submission.type
  generalSnapshot := info.pkgKind ≠ .base && a.previousReport.result = 0 &&
    a.previousReport.errorCode = 0 && a.previousReport.terminal
  previousGeneral := a.previousReport.toNativeStatus
  previousResult :=
    -- Only a package that is parsed as an update gets snapshots.
    if info.pkgKind = .patch then (snapshotFile a.previousFiles.1, snapshotFile a.previousFiles.2)
    else (.ok zeroStat, .ok zeroStat)

/-- The variable `cancel_base`: may the task be that of a base? -/
def cancelBase (info : Pkg.Info) (done : Bool) : Bool :=
  !done || (a.submission.result = 0 && a.submission.type = nativeBase &&
    a.submission.contentId ≠ [] && a.submission.contentId = info.contentId)

/-- The end of an installation. -/
def finish (ctx : Context) (info : Pkg.Info) (submitted done : Bool) (status : Option Failure) :
    Finished :=
  match status with
  | none => ⟨none, none⟩
  | some e =>
    let (ctx, cancelled) := packageInstallCancelled ctx a.endLook
    { status := some (if cancelled then ctx.cancelStatus else e)
      cancelInstall :=
        if submitted && info.pkgKind = .base && a.cancelBase info done then some info.contentId
        else none }

end Attempt

/-- `package_install_thread` for one package. -/
def packageInstall (a : Attempt) (ctx : Context) (rounds : List Round) : Option Finished :=
  match a.prepare ctx with
  | (ctx, .error e) => some (a.finish ctx Pkg.zeroInfo false false (some e))
  | (ctx, .ok info) =>
    match a.submit ctx info with
    | (ctx, info, some e) => some (a.finish ctx info false false (some e))
    | (ctx, info, none) =>
      match waitLooks ctx a.waits with
      | (ctx, some e) => some (a.finish ctx info true a.doneLate (some e))
      | (ctx, none) =>
        match a.accept info with
        | some e => some (a.finish ctx info true true (some e))
        | none =>
          if a.startUs = 0 then some (a.finish ctx info true true (some (.errno EIO)))
          else
            (pollLoop (a.task info) ⟨ctx, false, 0, a.startUs + startTimeoutUs⟩
              rounds).map fun ended => a.finish ended.1 info true true ended.2

end ShadowMount.PackageInstall
