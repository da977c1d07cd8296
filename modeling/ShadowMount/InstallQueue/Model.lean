import ShadowMount.Types
import ShadowMount.Foundation.Counting
import ShadowMount.Foundation.Transition

/-!
# Install queue - the operations of {lit}`sm_install_queue.c`

Titles wait in a fixed table until they are handed to the installer in one batch, and
stay in it until the batch is seen to be installed or times out.  Two counters and two
due times summarise the table; the scanner sleeps until the earliest due time.

Every operation carries what it observes: the clock, the configuration, the answer of
the installer, the titles of {lit}`app.db` and the retry counters.  Times are unsigned
64-bit numbers of microseconds.  Messages, notifications and the work done for an
installed title write no queue state and are left out.
-/

namespace ShadowMount.InstallQueue

open Foundation

variable {n : Nat}

def installWaitTimeoutUs : UInt64 := 300 * 1000000
def installPollIntervalUs : UInt64 := 2 * 1000000
def installSubmitRetryUs : UInt64 := 2 * 1000000

/-- `MAX_FAILED_MOUNT_ATTEMPTS`. -/
def maxFailedMountAttempts : Nat := 2

/-- `install_track_state_t`. -/
inductive TrackState where
  | none | queued | submitted
deriving DecidableEq

/-- `pending_install_entry_t`. -/
structure Entry where
  titleId : Text
  titleName : Text
  sourcePath : Text
  manualSourcePath : Text
  requestedAtUs : UInt64
  hasSrcSnd0 : Bool
  manual : Bool
  state : TrackState
deriving DecidableEq

def Entry.zero : Entry where
  titleId := []
  titleName := []
  sourcePath := []
  manualSourcePath := []
  requestedAtUs := 0
  hasSrcSnd0 := false
  manual := false
  state := .none

def Entry.tracked (e : Entry) : Bool := e.state ≠ .none
def Entry.submitted (e : Entry) : Bool := e.state = .submitted

/-- The fields of `scan_candidate_t` that the queue reads; its title id comes from
a buffer of `MAX_TITLE_ID` bytes. -/
structure ScanCandidate where
  path : Text
  titleId : Text
  titleName : Text
  manualSourcePath : Text
  manual : Bool
  titleFits : titleId.length < maxTitleId

/-- The variables of the queue, and whether the console is in sleep mode. -/
structure Queue (n : Nat) where
  entries : Fin n → Entry
  pollDueUs : UInt64
  submitDueUs : UInt64
  trackedCount : Nat
  submittedCount : Nat
  batchAnnounced : Bool
  submitFailureNotified : Bool
  sleepMode : Bool

def Queue.initial : Queue n where
  entries := fun _ => Entry.zero
  pollDueUs := 0
  submitDueUs := 0
  trackedCount := 0
  submittedCount := 0
  batchAnnounced := false
  submitFailureNotified := false
  sleepMode := false

def findPendingInstallEntry (q : Queue n) (titleId : Text) : Option (Fin n) :=
  if titleId = [] then none
  else Fin.find? fun i => (q.entries i).tracked && (q.entries i).titleId = titleId

def reservePendingInstallEntry (q : Queue n) (titleId : Text) : Option (Fin n) :=
  match findPendingInstallEntry q titleId with
  | some i => some i
  | none => Fin.find? fun i => !(q.entries i).tracked

/-- `count_queued_installs`. -/
def countQueuedInstalls (q : Queue n) : Nat :=
  q.trackedCount - q.submittedCount

/-- `install_queue_active`. -/
def installQueueActive (q : Queue n) (appInstallAllEnabled : Bool) : Bool :=
  appInstallAllEnabled || decide (0 < q.trackedCount)

def nextPendingInstallTimeoutUs (q : Queue n) : UInt64 :=
  if q.submittedCount = 0 then 0
  else (List.finRange n).foldl (fun deadline i =>
    if (q.entries i).state ≠ .submitted ∨ (q.entries i).requestedAtUs = 0 then deadline
    else
      let due := (q.entries i).requestedAtUs + installWaitTimeoutUs
      if deadline = 0 ∨ due < deadline then due else deadline) 0

def schedulePendingInstallPoll (q : Queue n) (now : UInt64) : Queue n :=
  if q.submittedCount = 0 then { q with pollDueUs := 0 }
  else { q with pollDueUs := if now = 0 then 1 else now + installPollIntervalUs }

/-- `schedule_queued_install_submit` and its retry, which differ in the delay. -/
def scheduleSubmitAfter (q : Queue n) (now delay : UInt64) : Queue n :=
  if countQueuedInstalls q = 0 ∨ 0 < q.submittedCount then { q with submitDueUs := 0 }
  else { q with submitDueUs := if now = 0 then 1 else now + delay }

def scheduleQueuedInstallSubmit (q : Queue n) (now : UInt64) : Queue n :=
  scheduleSubmitAfter q now 0

def scheduleQueuedInstallSubmitRetry (q : Queue n) (now : UInt64) : Queue n :=
  scheduleSubmitAfter q now installSubmitRetryUs

/-- `clear_pending_install_entry`. -/
def clearPendingInstallEntry (q : Queue n) (i : Fin n) : Queue n :=
  let e := q.entries i
  let submittedCount :=
    if e.submitted && decide (0 < q.submittedCount) then q.submittedCount - 1
    else q.submittedCount
  let trackedCount :=
    if e.tracked && decide (0 < q.trackedCount) then q.trackedCount - 1 else q.trackedCount
  { q with
    entries := Function.update q.entries i Entry.zero
    submittedCount := submittedCount
    trackedCount := trackedCount
    pollDueUs := if submittedCount = 0 then 0 else q.pollDueUs
    submitDueUs := if trackedCount = 0 then 0 else q.submitDueUs
    batchAnnounced := if trackedCount = 0 then false else q.batchAnnounced
    submitFailureNotified := if trackedCount = 0 then false else q.submitFailureNotified }

/-- `sm_install_forget_pending_title`. -/
def forgetPendingTitle (q : Queue n) (titleId : Text) : Queue n :=
  match findPendingInstallEntry q titleId with
  | none => q
  | some i => clearPendingInstallEntry q i

/-- The entry `sm_install_queue_candidate` writes. -/
def queuedEntry (c : ScanCandidate) (hasSrcSnd0 : Bool) : Entry where
  titleId := strlcpy maxTitleId c.titleId
  titleName := strlcpy maxTitleName c.titleName
  sourcePath := strlcpy maxPath c.path
  manualSourcePath := strlcpy maxPath c.manualSourcePath
  requestedAtUs := 0
  hasSrcSnd0 := hasSrcSnd0
  manual := c.manual
  state := .queued

/-- `sm_install_queue_candidate`. -/
def queueCandidate (q : Queue n) (c : ScanCandidate) (hasSrcSnd0 appInstallAllEnabled : Bool)
    (now : UInt64) : Queue n × Bool :=
  if c.titleId = [] ∨ c.titleName = [] ∨ c.path = [] then (q, false)
  else if !appInstallAllEnabled then (q, false)
  else
    let wasQueueEmpty := countQueuedInstalls q = 0
    match reservePendingInstallEntry q c.titleId with
    | none => (q, false)
    | some i =>
      if (q.entries i).submitted then (q, true)
      else
        let q' := { q with
          entries := Function.update q.entries i (queuedEntry c hasSrcSnd0)
          trackedCount :=
            if (q.entries i).tracked then q.trackedCount else q.trackedCount + 1
          batchAnnounced := if wasQueueEmpty then false else q.batchAnnounced
          submitFailureNotified :=
            if wasQueueEmpty then false else q.submitFailureNotified }
        (scheduleQueuedInstallSubmit q' now, true)

/-- Has the install of a submitted entry succeeded or timed out? -/
def installSettled (titles : Option (List Text)) (now : UInt64) (e : Entry) : Bool :=
  (match titles with
    | none => false
    | some titles => decide (e.titleId ∈ titles)) ||
    (now ≠ 0 && e.requestedAtUs ≠ 0 && decide (e.requestedAtUs ≤ now) &&
      decide (installWaitTimeoutUs ≤ now - e.requestedAtUs))

/-- The loop of `poll_pending_installs`. -/
def settleInstalls (q : Queue n) (titles : Option (List Text)) (now : UInt64) : Queue n :=
  (List.finRange n).foldl (fun q i =>
    if (q.entries i).submitted && installSettled titles now (q.entries i) then
      clearPendingInstallEntry q i
    else q) q

/-- `sm_install_poll_pending`; `titles` is the title list of `app.db`, if
it can be read. -/
def pollPending (q : Queue n) (titles : Option (List Text)) (now : UInt64) : Queue n :=
  if q.sleepMode then q
  else if q.submittedCount = 0 then q
  else
    let q := schedulePendingInstallPoll (settleInstalls q titles now) now
    if q.submittedCount = 0 then scheduleQueuedInstallSubmit q now else q

/-- The loop of `sm_install_submit_queued` after the installer accepted the batch. -/
def markSubmitted (q : Queue n) (now : UInt64) : Queue n :=
  { q with
    entries := fun i =>
      if (q.entries i).state = .queued then
        { q.entries i with state := .submitted, requestedAtUs := now }
      else q.entries i
    submittedCount := q.submittedCount +
      countWhere (fun e : Entry => e.state = .queued) q.entries }

/-- `sm_install_submit_queued`; `accepted` is the answer of
`sceAppInstUtilAppInstallAll`. -/
def submitQueued (q : Queue n) (now : UInt64) (accepted : Bool) : Queue n × Bool :=
  if q.sleepMode then (q, true)
  else if countQueuedInstalls q = 0 then (q, true)
  else if 0 < q.submittedCount then (q, true)
  else if q.submitDueUs ≠ 0 ∧ now ≠ 0 ∧ now < q.submitDueUs then (q, true)
  else
    let q := { q with batchAnnounced := true }
    if !accepted then
      (scheduleQueuedInstallSubmitRetry { q with submitFailureNotified := true } now, false)
    else
      let q := { q with submitDueUs := 0, submitFailureNotified := false }
      (schedulePendingInstallPoll (markSubmitted q now) now, true)

/-- `sm_install_note_submit_failure`; `attempts` is the retry counter of a
title after it was bumped. -/
def noteSubmitFailure (q : Queue n) (attempts : Text → Nat) : Queue n :=
  (List.finRange n).foldl (fun q i =>
    if (q.entries i).state = .queued ∧ maxFailedMountAttempts ≤ attempts (q.entries i).titleId
    then clearPendingInstallEntry q i
    else q) q

/-- `sm_install_service_pending`. -/
def servicePending (q : Queue n) (appInstallAllEnabled : Bool) (titles : Option (List Text))
    (pollNow submitNow : UInt64) (accepted : Bool) (attempts : Text → Nat) : Queue n :=
  if q.sleepMode then q
  else if !installQueueActive q appInstallAllEnabled then q
  else
    let q := pollPending q titles pollNow
    if countQueuedInstalls q = 0 then q
    else match submitQueued q submitNow accepted with
      | (q, true) => q
      | (q, false) => noteSubmitFailure q attempts

/-- `sm_install_next_wake_us`. -/
def nextWakeUs (q : Queue n) (appInstallAllEnabled : Bool) (now : UInt64) : UInt64 :=
  if q.sleepMode then 0
  else if !installQueueActive q appInstallAllEnabled then 0
  else if q.submittedCount = 0 then q.submitDueUs
  else
    let next := nextPendingInstallTimeoutUs q
    let next := if q.pollDueUs ≠ 0 ∧ (next = 0 ∨ q.pollDueUs < next) then q.pollDueUs else next
    let next :=
      if q.submitDueUs ≠ 0 ∧ (next = 0 ∨ q.submitDueUs < next) then q.submitDueUs else next
    if next = 0 then if now = 0 then 1 else now + installPollIntervalUs else next

/-- One operation with its arguments and observations. -/
inductive Step where
  | queueCandidate (c : ScanCandidate) (hasSrcSnd0 appInstallAllEnabled : Bool)
      (now : UInt64)
  | submitQueued (now : UInt64) (accepted : Bool)
  | noteSubmitFailure (attempts : Text → Nat)
  | pollPending (titles : Option (List Text)) (now : UInt64)
  | servicePending (appInstallAllEnabled : Bool) (titles : Option (List Text))
      (pollNow submitNow : UInt64) (accepted : Bool) (attempts : Text → Nat)
  | forgetPendingTitle (titleId : Text)
  | setSleepMode (active : Bool)

def next (q : Queue n) : Step → Queue n
  | .queueCandidate c hasSrcSnd0 appInstallAllEnabled now =>
    (queueCandidate q c hasSrcSnd0 appInstallAllEnabled now).1
  | .submitQueued now accepted => (submitQueued q now accepted).1
  | .noteSubmitFailure attempts => noteSubmitFailure q attempts
  | .pollPending titles now => pollPending q titles now
  | .servicePending appInstallAllEnabled titles pollNow submitNow accepted attempts =>
    servicePending q appInstallAllEnabled titles pollNow submitNow accepted attempts
  | .forgetPendingTitle titleId => forgetPendingTitle q titleId
  | .setSleepMode active => { q with sleepMode := active }

/-- The queue under every sequence of operations. -/
def queueSystem : System (Queue n) Step :=
  System.ofFunction Queue.initial next

end ShadowMount.InstallQueue
