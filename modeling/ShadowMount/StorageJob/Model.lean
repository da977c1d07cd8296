import ShadowMount.Foundation.Transition
import ShadowMount.Types

/-!
# The storage job and the package queue

{lit}`sm_api_service.c` runs one storage job at a time.  Its record is shared by the
HTTP handlers and a detached worker; the record also holds the queue of packages to
install.  Every block of code that runs under the mutex of the record is one step
here, so that runs cover every interleaving of handlers and workers.

A thread that works for a job is modelled from the block that sets up the record on:
the handler until it has created the worker, and the worker until it has called
{lit}`finish_storage_job`.  What a thread learns outside the mutex (whether a base is
installed, what a package file holds, how an installation ended, whether a shutdown
was requested) is part of the step.  Fields of the record that only describe the job
to clients (times, speeds, the runtime source, the stream and its token) are left
out.
-/

namespace ShadowMount.StorageJob

open Foundation

/-- `pkg_kind_t`. -/
inductive PkgKind where
  | unknown | base | patch | dlc
deriving DecidableEq

/-- The fields of `sm_pkg_info_t` that the queue reads. -/
structure PkgInfo where
  path : Text
  titleId : Text
  titleName : Text
  contentId : Text
  appVer : Text
  sourceSize : Nat
  contentType : UInt32
  contentFlags : UInt32
  pkgKind : PkgKind
deriving DecidableEq

/-- `sm_pkg_is_media_remaster`. -/
def PkgInfo.isMediaRemaster (info : PkgInfo) : Bool :=
  info.contentType = 0x26 && info.contentFlags &&& 0x40400000 = 0x40400000

/-- What must not be queued twice, besides a path. -/
def PkgInfo.identity (info : PkgInfo) : PkgKind × Text × Text :=
  (info.pkgKind, info.contentId, info.appVer)

/-- `SM_PKG_QUEUE_MAX`. -/
def pkgQueueMax : Nat := 32

/-- `game_storage_operation_t`. -/
inductive Operation where
  | move | copy | delete | unpack | install | eject
deriving DecidableEq

/-- `storage_job_state_t`. -/
inductive JobState where
  | idle | preparing | measuring | transferring | deleting | finalizing | installing
  | completed | failed | cancelled
deriving DecidableEq

/-- `storage_job_is_active`. -/
def JobState.isActive : JobState → Bool
  | .preparing | .measuring | .transferring | .deleting | .finalizing | .installing => true
  | _ => false

/-- `storage_job_is_cancellable`. -/
def JobState.isCancellable : JobState → Bool
  | .preparing | .measuring | .transferring | .installing => true
  | _ => false

/-- `storage_job_t`.  The number of queued packages is the length of the
queue. -/
structure Job where
  accepting : Bool
  cancelRequested : Bool
  nextId : UInt64
  id : UInt64
  operation : Operation
  state : JobState
  titleId : Text
  titleName : Text
  sourceType : Text
  source : Text
  destination : Text
  deleteSource : Bool
  totalBytes : Nat
  processedBytes : Nat
  totalFiles : Nat
  processedFiles : Nat
  affectedTitles : Nat
  resultStatus : Nat
  resultErrorReason : Text
  scanQueued : Bool
  nativeStatus : Int
  pkgQueue : List PkgInfo
  pkgQueueCompleted : Nat
  pkgQueueTotal : Nat
  pkgQueueRunning : Bool
  pkgCurrentKind : PkgKind
  /-- A counter of the queue was decreased below zero. -/
  wrapped : Bool

/-- The record at program start. -/
def Job.initial : Job where
  accepting := false
  cancelRequested := false
  nextId := 0
  id := 0
  operation := .move
  state := .idle
  titleId := []
  titleName := []
  sourceType := []
  source := []
  destination := []
  deleteSource := false
  totalBytes := 0
  processedBytes := 0
  totalFiles := 0
  processedFiles := 0
  affectedTitles := 0
  resultStatus := 0
  resultErrorReason := []
  scanQueued := false
  nativeStatus := 0
  pkgQueue := []
  pkgQueueCompleted := 0
  pkgQueueTotal := 0
  pkgQueueRunning := false
  pkgCurrentKind := .unknown
  wrapped := false

/-- A status as a worker computes it: success, `ECANCELED`, or another error. -/
inductive Status where
  | ok
  | cancelled
  | error (code : Nat)
deriving DecidableEq

/-- The number of a status. -/
def Status.code : Status → Nat
  | .ok => 0
  | .cancelled => 85
  | .error code => code

namespace Job

/-- The id of a new job: the counter goes up, past zero. -/
def newId (j : Job) : UInt64 :=
  if j.nextId + 1 = 0 then j.nextId + 2 else j.nextId + 1

/-- Take packages off the number of all packages of the run. -/
def subtractTotal (j : Job) (n : Nat) : Job :=
  { j with
    pkgQueueTotal := j.pkgQueueTotal - n
    wrapped := j.wrapped || decide (j.pkgQueueTotal < n) }

/-- The errors of the queue. -/
inductive QueueError where
  | EALREADY | EBUSY | EEXIST | ENOENT | ENOSPC
deriving DecidableEq

/-- `package_base_queued_locked`. -/
def packageBaseQueued (j : Job) (titleId : Text) : Bool :=
  (j.operation = .install &&
      (j.sourceType = "pkg".toList || j.sourceType = "stream".toList) && j.state.isActive &&
      j.pkgCurrentKind = .base && j.titleId = titleId && !j.cancelRequested) ||
    j.pkgQueue.any fun e => e.pkgKind = .base && e.titleId = titleId

/-- `enqueue_package_locked`. -/
def enqueuePackage (j : Job) (info : PkgInfo) (installed : Bool) : Except QueueError Job :=
  if info.pkgKind = .base && installed && !info.isMediaRemaster then .error .EALREADY
  else if info.pkgKind ≠ .base && !installed && !j.packageBaseQueued info.titleId then
    .error .ENOENT
  else if j.operation = .install && j.state.isActive && j.source = info.path then .error .EEXIST
  else if j.pkgQueue.any fun e => e.path = info.path || e.identity = info.identity then
    .error .EEXIST
  else if j.pkgQueue.length = pkgQueueMax then .error .ENOSPC
  else .ok { j with
    pkgQueue := j.pkgQueue ++ [info]
    pkgQueueTotal := if j.pkgQueueRunning then j.pkgQueueTotal + 1 else j.pkgQueueTotal }

/-- The action `add` of `handle_package_queue`. -/
def queueAdd (j : Job) (info : PkgInfo) (installed : Bool) : Except QueueError Job :=
  if !j.accepting || (j.state.isActive &&
      (j.cancelRequested || (j.operation = .delete && j.titleId = []))) then .error .EBUSY
  else j.enqueuePackage info installed

/-- `clear_package_queue_locked`. -/
def clearPackageQueue (j : Job) (onlyIfIdle : Bool) : Except QueueError Job :=
  if onlyIfIdle && (!j.accepting || j.state.isActive || j.pkgQueueRunning) then .error .EBUSY
  else
    let keep := if j.pkgQueueRunning then 1 else 0
    let short := decide (j.pkgQueue.length < keep)
    let j' := if j.pkgQueueRunning then j.subtractTotal (j.pkgQueue.length - keep) else j
    .ok { j' with pkgQueue := j.pkgQueue.take keep, wrapped := j'.wrapped || short }

/-- The action `remove` of `handle_package_queue`.  Without its base, which
is not installed, the other packages of a title go too. -/
def queueRemove (j : Job) (path : Option Text) (baseInstalled : Bool) :
    Except QueueError Job :=
  match j.pkgQueue.findIdx? fun e => path = some e.path with
  | none => .error .ENOENT
  | some index =>
    if index = 0 && j.pkgQueueRunning then .error .EBUSY
    else
      match j.pkgQueue[index]? with
      | none => .error .ENOENT
      | some removed =>
        let removeDependents := removed.pkgKind = .base && !baseInstalled
        let kept := (j.pkgQueue.zipIdx.filter fun (e, i) =>
          !(i = index || (removeDependents && !(i = 0 && j.pkgQueueRunning) &&
            e.titleId = removed.titleId))).map Prod.fst
        let j' := { j with pkgQueue := kept }
        .ok (if j.pkgQueueRunning then j'.subtractTotal (j.pkgQueue.length - kept.length)
          else j')

/-- `prepare_next_package_locked`. -/
def prepareNextPackage (j : Job) : Bool × Job :=
  match j.pkgQueue with
  | [] => (false, j)
  | next :: _ =>
    (true, { j with
      source := next.path
      titleId := next.titleId
      titleName := next.titleName
      pkgCurrentKind := next.pkgKind
      totalBytes := next.sourceSize
      processedBytes := 0
      processedFiles := 0
      nativeStatus := 0
      state := .preparing })

/-- How a package reaches `handle_package_install`. -/
inductive Origin where
  | direct | queued | streamed
deriving DecidableEq

/-- What `handle_package_install` has read before it takes the mutex.  A stream
has no information about its package yet. -/
structure InstallRequest where
  origin : Origin
  source : Text
  size : Nat
  info : PkgInfo

/-- The fields that `handle_package_install` sets for every origin. -/
def beginInstall (j : Job) (r : InstallRequest) : Job :=
  { j with
    nextId := j.newId
    id := j.newId
    operation := .install
    state := .preparing
    cancelRequested := false
    deleteSource := false
    totalBytes := r.size
    processedBytes := 0
    processedFiles := 0
    totalFiles := 1
    affectedTitles := 0
    resultStatus := 0
    nativeStatus := 0
    resultErrorReason := []
    scanQueued := false
    titleId := r.info.titleId
    titleName := if r.origin = .streamed then r.source else r.info.titleName
    sourceType := (if r.origin = .streamed then "stream" else "pkg").toList
    source := r.source
    destination := []
    pkgCurrentKind := r.info.pkgKind
    pkgQueueRunning := r.origin = .queued }

/-- The run of the queue starts with its first package. -/
def beginQueue (j : Job) : Job :=
  ({ j with pkgQueueCompleted := 0, pkgQueueTotal := j.pkgQueue.length }).prepareNextPackage.2

/-- The tests of `handle_package_install` under the mutex. -/
def refusesInstall (j : Job) (r : InstallRequest) : Bool :=
  !j.accepting || j.state.isActive ||
    (r.origin = .queued && j.pkgQueue.head?.map PkgInfo.path ≠ some r.source) ||
    (r.origin = .direct && j.pkgQueue.any fun e => e.path = r.source)

/-- The block of `handle_package_install` under the mutex. -/
def startInstall (j : Job) (r : InstallRequest) : Option Job :=
  if j.refusesInstall r then none
  else
    let j := j.beginInstall r
    some (if r.origin = .queued then j.beginQueue else j)

/-- What `launch_storage_job` is called with. -/
structure StorageRequest where
  operation : Operation
  titleId : Text
  sourceType : Text
  physicalPath : Text
  destination : Text
  deleteSource : Bool

/-- The block of `launch_storage_job` under the mutex. -/
def launchStorageJob (j : Job) (r : StorageRequest) : Option Job :=
  if !j.accepting || j.state.isActive || j.pkgQueueRunning ||
      (r.operation = .delete && r.titleId = [] && j.pkgQueue ≠ []) then none
  else
    some { j with
      nextId := j.newId
      cancelRequested := false
      id := j.newId
      titleName := []
      nativeStatus := 0
      pkgCurrentKind := .unknown
      operation := r.operation
      state := .preparing
      titleId := r.titleId
      sourceType := r.sourceType
      source := r.physicalPath
      destination := r.destination
      deleteSource := r.operation = .unpack && r.deleteSource
      totalBytes := 0
      processedBytes := 0
      totalFiles := 0
      processedFiles := 0
      affectedTitles := 0
      resultStatus := 0
      resultErrorReason := []
      scanQueued := false }

/-- `finish_storage_job`. -/
def finishStorageJob (j : Job) (jobId : UInt64) (status : Status) (scanQueued : Bool)
    (error : Text) : Job :=
  if j.id = jobId then
    let j := match status with
      | .ok => { j with
          processedBytes := j.totalBytes, processedFiles := j.totalFiles, state := .completed }
      | .cancelled => { j with state := .cancelled }
      | .error _ => { j with state := .failed }
    { j with
      resultStatus := status.code
      resultErrorReason := if status = .ok then [] else error
      scanQueued := scanQueued }
  else j

/-- `handle_storage_job_cancel`. -/
def cancelStorageJob (j : Job) (jobId : UInt64) : Job :=
  if j.id = jobId && j.state.isActive && j.state.isCancellable then
    { j with cancelRequested := true }
  else j

/-- `stop_storage_job`, before it waits for the job to end. -/
def stopStorageJob (j : Job) : Job :=
  { j with
    accepting := false
    cancelRequested := (j.state.isActive && j.state.isCancellable) || j.cancelRequested }

/-- `sm_api_service_on_sleep_change`. -/
def onSleep (j : Job) : Job :=
  if j.operation = .install && j.state.isActive then { j with cancelRequested := true } else j

/-- `update_storage_job_progress`. -/
def updateProgress (j : Job) (jobId : UInt64) (bytes files : Nat) : Job :=
  if j.state.isActive && j.id = jobId then
    { j with
      processedBytes := min (j.processedBytes + bytes) (2 ^ 64 - 1)
      processedFiles := min (j.processedFiles + files) (2 ^ 64 - 1) }
  else j

/-- `begin_storage_job_finalizing`. -/
def beginFinalizing (j : Job) (jobId : UInt64) : Job :=
  if j.state.isActive && j.id = jobId && !j.cancelRequested then
    { j with state := .finalizing }
  else j

/-- `publish_package_progress`. -/
def publishPackageProgress (j : Job) (jobId : UInt64) (total bytes : Nat) : Job :=
  if j.id = jobId then { j with totalBytes := total, processedBytes := bytes } else j

/-- The block of `package_install_thread` that announces the package it has
read. -/
def announcePackage (j : Job) (info : PkgInfo) : Job :=
  { j with
    titleId := info.titleId
    titleName := info.titleName
    pkgCurrentKind := info.pkgKind
    totalBytes := info.sourceSize
    totalFiles := 1
    state := .installing }

/-- The first package of the queue leaves it. -/
def popPackage (j : Job) : Job :=
  { j with
    pkgQueue := j.pkgQueue.tail
    pkgQueueCompleted := j.pkgQueueCompleted + 1
    wrapped := j.wrapped || decide (j.pkgQueue = []) }

/-- The block at the end of a round of `package_install_thread`: whether there
is another round, the status, and the record.  The flag says that a shutdown was
requested or the console sleeps. -/
def completePackage (j : Job) (status : Status) (nativeStatus : Int) (halting : Bool) :
    Bool × Status × Job :=
  let j := { j with nativeStatus := nativeStatus }
  let j := if status = .ok && j.pkgQueueRunning then j.popPackage else j
  let status := if status = .ok && j.pkgQueueRunning && j.pkgQueue ≠ [] &&
      (j.cancelRequested || !j.accepting || halting) then .cancelled else status
  let (next, j) := if status = .ok && j.pkgQueueRunning then j.prepareNextPackage else (false, j)
  (next, status, if next then j else { j with pkgQueueRunning := false })

end Job

/-- Where a thread that works for a job is. -/
inductive Phase where
  /-- The record is set up, and the worker is not created yet. -/
  | spawning
  /-- The worker for a package could not be created. -/
  | abandoned (status : Status)
  /-- At the start of a round of `package_install_thread`. -/
  | reading
  /-- In a round, before and after the package is announced. -/
  | preparing (source : Text)
  | installing (source : Text)
  /-- In `storage_job_thread_main`. -/
  | working
  /-- Before the call of `finish_storage_job`. -/
  | finishing (status : Status) (scanQueued : Bool) (error : Text)
deriving DecidableEq

/-- A thread that works for a job: its own copy of the job's id, whether the job
installs packages, and where it is. -/
structure Task where
  id : UInt64
  package : Bool
  phase : Phase
deriving DecidableEq

/-- A block of a thread. -/
inductive Work where
  /-- The result of `pthread_create`. -/
  | spawned
  | notSpawned (status : Status)
  /-- The cleanup of `handle_package_install` when there is no worker. -/
  | abandon
  | read
  | announce (info : PkgInfo)
  | packageProgress (total bytes : Nat)
  | complete (status : Status) (nativeStatus : Int) (halting scanQueued : Bool) (error : Text)
  | measure
  | affected (titles : Nat)
  | transfer (bytes files : Nat) (runtimeCancelled : Bool)
  | progress (bytes files : Nat)
  | finalize
  | renamed (bytes files : Nat)
  | stopWork (status : Status) (scanQueued : Bool) (error : Text)
  | finish
deriving DecidableEq

/-- The next block of a thread: the record and the thread after it, `none` for a
thread that has ended.  A block that is not next in the program is no step.  A round
of the package worker succeeds only after the package was announced. -/
def Task.step (j : Job) (t : Task) : Work → Option (Job × Option Task)
  | .spawned =>
    if t.phase = .spawning then
      some (j, some { t with phase := if t.package then .reading else .working })
    else none
  | .notSpawned status =>
    if t.phase = .spawning && status ≠ .ok then
      some (j, some { t with
        phase := if t.package then .abandoned status else .finishing status false [] })
    else none
  | .abandon =>
    match t.phase with
    | .abandoned status =>
      some ({ j with pkgQueueRunning := false },
        some { t with phase := .finishing status false [] })
    | _ => none
  | .read =>
    if t.phase = .reading then some (j, some { t with phase := .preparing j.source }) else none
  | .announce info =>
    match t.phase with
    | .preparing source =>
        some (j.announcePackage info, some { t with phase := .installing source })
    | _ => none
  | .packageProgress total bytes =>
    match t.phase with
    | .installing _ => some (j.publishPackageProgress t.id total bytes, some t)
    | _ => none
  | .complete status nativeStatus halting scanQueued error =>
    let allowed : Bool := match t.phase with
      | .preparing _ => status ≠ .ok
      | .installing _ => true
      | _ => false
    if allowed then
      let (next, status, j) := j.completePackage status nativeStatus halting
      some (j, some { t with
        phase := if next then .reading else .finishing status scanQueued error })
    else none
  | .measure =>
    if t.phase = .working then
      some (if j.id = t.id && !j.cancelRequested then { j with state := .measuring } else j, some t)
    else none
  | .affected titles =>
    if t.phase = .working then some ({ j with affectedTitles := titles }, some t) else none
  | .transfer bytes files runtimeCancelled =>
    if t.phase = .working then
      if j.operation = .delete && (runtimeCancelled || j.cancelRequested) then some (j, some t)
      else some ({ j with
        totalBytes := bytes
        totalFiles := files
        state := if j.operation = .delete then .deleting else .transferring }, some t)
    else none
  | .progress bytes files =>
    if t.phase = .working then some (j.updateProgress t.id bytes files, some t) else none
  | .finalize =>
    if t.phase = .working then some (j.beginFinalizing t.id, some t) else none
  | .renamed bytes files =>
    if t.phase = .working then
      some ({ j with processedBytes := bytes, processedFiles := files }, some t)
    else none
  | .stopWork status scanQueued error =>
    if t.phase = .working then
      some (j, some { t with phase := .finishing status scanQueued error })
    else none
  | .finish =>
    match t.phase with
    | .finishing status scanQueued error =>
      some (j.finishStorageJob t.id status scanQueued error, none)
    | _ => none

/-- The record, and the threads that work for a job. -/
structure State where
  job : Job
  tasks : List Task

/-- A block of a handler, or of a thread that works for a job. -/
inductive Step where
  | setAccepting (accepting : Bool)
  | add (info : PkgInfo) (installed : Bool)
  | remove (path : Option Text) (baseInstalled : Bool)
  | clear (onlyIfIdle : Bool)
  /-- A package installation; a stream's server may fail to start. -/
  | install (r : Job.InstallRequest) (server : Status)
  | launch (r : Job.StorageRequest)
  | cancel (jobId : UInt64)
  | shutdown
  | sleep
  /-- A handler names the title of the job it has launched. -/
  | setTitleName (jobId : UInt64) (name : Text)
  | task (k : Nat) (work : Work)

/-- The thread that `handle_package_install` goes on with. -/
def installTask (j : Job) (r : Job.InstallRequest) (server : Status) : Task where
  id := j.id
  package := true
  phase := if r.origin = .streamed && server ≠ .ok then .finishing server false [] else .spawning

/-- Store the record of an operation that succeeds. -/
def State.store (s : State) : Except Job.QueueError Job → State
  | .ok job => { s with job := job }
  | .error _ => s

/-- The state after a step.  A block that is not next in its program changes nothing. -/
def next (s : State) : Step → State
  | .setAccepting accepting => { s with job := { s.job with accepting := accepting } }
  | .add info installed => s.store (s.job.queueAdd info installed)
  | .remove path baseInstalled => s.store (s.job.queueRemove path baseInstalled)
  | .clear onlyIfIdle => s.store (s.job.clearPackageQueue onlyIfIdle)
  | .install r server =>
    match s.job.startInstall r with
    | none => s
    | some job => ⟨job, installTask job r server :: s.tasks⟩
  | .launch r =>
    match s.job.launchStorageJob r with
    | none => s
    | some job => ⟨job, ⟨job.id, false, .spawning⟩ :: s.tasks⟩
  | .cancel jobId => { s with job := s.job.cancelStorageJob jobId }
  | .shutdown => { s with job := s.job.stopStorageJob }
  | .sleep => { s with job := s.job.onSleep }
  | .setTitleName jobId name =>
    if s.job.id = jobId then { s with job := { s.job with titleName := name } } else s
  | .task k work =>
    match s.tasks[k]? with
    | none => s
    | some t =>
      match t.step s.job work with
      | none => s
      | some (job, some t) => ⟨job, s.tasks.set k t⟩
      | some (job, none) => ⟨job, s.tasks.eraseIdx k⟩

/-- Every interleaving of handlers and workers. -/
def system : System State Step := System.ofFunction ⟨Job.initial, []⟩ next

end ShadowMount.StorageJob
