import Mathlib.Logic.Function.Basic
import ShadowMount.Foundation.Transition
import ShadowMount.Types

/-!
# Game lifecycle

The lifecycle thread of {lit}`sm_game_lifecycle.c`: it learns from the kernel which
processes were executed and which have exited, tracks the active game, and holds an
exit back for a while in case the same application goes on in another process.

Other threads see two atomic variables, the pid of the active game and the flag of a
pending exit, and one atomic word with the background policy.  The lifecycle thread is
the only one that writes them.  Every such write is an event of the log here, and so are
the exit notices it takes and the calls that hand a process over or clean up after one.

What the thread learns from outside while it handles one notice is collected in an
{lit}`Env`.  A run is a sequence of notices and polls until the thread is stopped.
-/

namespace ShadowMount.GameLifecycle

open Foundation

/-- `MAX_PENDING_GAME_EXEC_CANDIDATES`. -/
def maxPendingGameExecCandidates : Nat := 32

def gameAppinfoLookupTimeoutUs : Nat := 1000000

def gameProcessHandoffGraceUs : Nat := 1000000

def gameExitSandboxLingerUs : Nat := 10000000

def gameRuntimePrepareTimeoutUs : Nat := gameExitSandboxLingerUs + gameProcessHandoffGraceUs

/-- Difference of two clock readings of 64 bits. -/
def elapsed (now since : Nat) : Nat := (now + 2 ^ 64 - since) % 2 ^ 64

/-- `pending_game_launch_t`. -/
structure PendingLaunch where
  active : Bool
  pid : Int
  execTimeUs : Nat
  deadlineUs : Nat
deriving DecidableEq

def PendingLaunch.zero : PendingLaunch where
  active := false
  pid := 0
  execTimeUs := 0
  deadlineUs := 0

/-- `pending_game_exit_t`. -/
structure PendingExit where
  active : Bool
  pid : Int
  appId : Nat
  exitTimeUs : Nat
  titleId : Text
deriving DecidableEq

def PendingExit.zero : PendingExit where
  active := false
  pid := 0
  appId := 0
  exitTimeUs := 0
  titleId := []

/-- What the thread learns of exits, what other threads can see, and its calls for a process that is
gone. -/
inductive Event where
  /-- The thread learns that a process has exited. -/
  | exitNotice (pid : Int)
  /-- `g_active_game_pid` was written. -/
  | storedPid (pid : Int)
  /-- `g_game_exit_handoff_pending` was written. -/
  | storedPending (pending : Bool)
  /-- `g_background_game_state` was written, and whether the scanner was woken. -/
  | published (word : Nat) (wake : Bool)
  /-- `sm_mdbg_game_handoff` was called. -/
  | handoff (old new : Int)
  /-- `finalize_game_exit` was called. -/
  | finalized (pid : Int)
deriving DecidableEq

/-- `g_app_focus_state`: the focused application, if known, and whether it is
news. -/
structure AppFocus where
  known : Option Nat
  pending : Bool
deriving DecidableEq

/-- The variables of the lifecycle thread and the log of what it published, the latest
event first. -/
structure Lifecycle where
  activePid : Int
  handoffPending : Bool
  backgroundState : Nat
  activeAppId : Nat
  activeTitleId : Text
  pendingExit : PendingExit
  launches : Fin maxPendingGameExecCandidates → PendingLaunch
  focus : AppFocus
  log : List Event

/-- The variables when the watcher starts. -/
def Lifecycle.initial : Lifecycle where
  activePid := 0
  handoffPending := false
  backgroundState := 0
  activeAppId := 0
  activeTitleId := []
  pendingExit := PendingExit.zero
  launches _ := PendingLaunch.zero
  focus := { known := none, pending := false }
  log := []

/-- What the calls to other modules and to the kernel return while one notice is
handled. -/
structure Env where
  /-- The clock at the beginning, when a launch is retried, and at the end. -/
  now : Nat
  retryNow : Nat
  endNow : Nat
  /-- `sceKernelGetAppInfo`. -/
  appInfo : Int → Option (Text × Nat)
  /-- `kill` with signal 0 finds the process. -/
  alive : Int → Bool
  /-- `register_game_exit_watch`. -/
  watch : Int → Bool
  /-- `sm_shellcore_service_title_is_prepared`. -/
  prepared : Text → Bool
  /-- `is_data_mounted`. -/
  mounted : Text → Bool
  /-- `sm_shellcore_ensure_title_runtime`. -/
  ensureRuntime : Text → Bool
  /-- `sm_shellcore_service_bind_prepared_app`. -/
  bind : Text → Nat → Int → Bool
  /-- `sm_shellcore_service_title_sandbox_exists`. -/
  sandboxExists : Text → Bool

def backgroundIdle : Nat := 0

def backgroundBlocked : Nat := 1

def backgroundTitleBase : Nat := 2

def backgroundTitleRange : Nat := 100000

/-- The letters of a title id as a number in base 26, and its digits as a number. -/
def titleWord (title : Text) : Nat :=
  let letters := (title.take 4).foldl (fun n c => n * 26 + (c.toNat - 'A'.toNat)) 0
  let number := ((title.drop 4).take 5).foldl (fun n c => n * 10 + (c.toNat - '0'.toNat)) 0
  backgroundTitleBase + letters * backgroundTitleRange + number

/-- Does the word tell background work to wait? -/
def wordBlocked (word : Nat) : Bool := word = backgroundBlocked || word.testBit 63

/-- Does the word tell that there is a game? -/
def wordActive (word : Nat) : Bool := word ≠ backgroundIdle

/-- `published_game_active`. -/
def publishedGameActive (pid : Int) (handoffPending : Bool) : Bool :=
  0 < pid || handoffPending

/-- The word that `publish_background_game_state` computes. -/
def backgroundWord (pid : Int) (pending : Bool) (title : Text) : Nat :=
  if 0 < pid ∧ isSupportedGameTitleId title then
    if pending then titleWord title ||| 2 ^ 63 else titleWord title
  else if publishedGameActive pid pending then backgroundBlocked
  else backgroundIdle

namespace Lifecycle

variable (s : Lifecycle)

/-- `sm_game_lifecycle_has_active_game`. -/
def hasActiveGame : Bool := publishedGameActive s.activePid s.handoffPending

/-- Record an event. -/
def note (e : Event) : Lifecycle := { s with log := e :: s.log }

/-- `publish_background_game_state`. -/
def publishBackgroundGameState (wasActive : Bool) : Lifecycle :=
  let word := backgroundWord s.activePid s.handoffPending s.activeTitleId
  let wake := wasActive ≠ s.hasActiveGame ||
    wordBlocked s.backgroundState ≠ wordBlocked word ||
    (!wordBlocked word && s.backgroundState ≠ word)
  { s with backgroundState := word }.note (.published word wake)

/-- `publish_active_game_pid`. -/
def publishActiveGamePid (pid : Int) : Lifecycle :=
  ({ s with activePid := pid }.note (.storedPid pid)).publishBackgroundGameState s.hasActiveGame

/-- `publish_game_exit_handoff_pending`. -/
def publishGameExitHandoffPending (pending : Bool) : Lifecycle :=
  ({ s with handoffPending := pending }.note (.storedPending pending)).publishBackgroundGameState
    s.hasActiveGame

/-- `publish_active_game`. -/
def publishActiveGame (pid : Int) (title : Text) (appId : Nat) : Lifecycle :=
  let known := 0 < pid ∧ title ≠ []
  { s with
    activeTitleId := if known then strlcpy maxTitleId title else []
    activeAppId := if known then appId else 0 }.publishActiveGamePid pid

/-- `clear_pending_game_exit`. -/
def clearPendingGameExit : Lifecycle :=
  { s with pendingExit := PendingExit.zero }.publishGameExitHandoffPending false

/-- `queue_pending_game_exit`. -/
def queuePendingGameExit (now : Nat) (pid : Int) (title : Text) (appId : Nat) : Lifecycle :=
  { s with
    pendingExit := {
      active := true, pid, appId, exitTimeUs := now,
      titleId := strlcpy maxTitleId title } }.publishGameExitHandoffPending true

/-- `finalize_pending_game_exit`. -/
def finalizePendingGameExit : Lifecycle :=
  if !s.pendingExit.active then s
  else (s.note (.finalized s.pendingExit.pid)).clearPendingGameExit

/-- `same_application_identity`. -/
def sameApplicationIdentity (title : Text) (appId : Nat) (other : Text) (otherAppId : Nat) :
    Bool :=
  title = other && (appId = 0 || otherAppId = 0 || appId = otherAppId)

/-- Does `maybe_finalize_pending_game_exit` go on waiting for a successor? -/
def awaitsSuccessor (env : Env) : Bool :=
  (env.sandboxExists s.pendingExit.titleId &&
    (env.endNow = 0 || s.pendingExit.exitTimeUs = 0 ||
      elapsed env.endNow s.pendingExit.exitTimeUs < gameExitSandboxLingerUs)) ||
  (s.pendingExit.exitTimeUs ≠ 0 && env.endNow ≠ 0 &&
    elapsed env.endNow s.pendingExit.exitTimeUs < gameProcessHandoffGraceUs)

/-- `maybe_finalize_pending_game_exit`. -/
def maybeFinalizePendingGameExit (env : Env) : Lifecycle :=
  if !s.pendingExit.active then s
  else if 0 < s.activePid then
    if !sameApplicationIdentity s.activeTitleId s.activeAppId s.pendingExit.titleId
        s.pendingExit.appId then s.finalizePendingGameExit
    else s
  else if s.awaitsSuccessor env then s
  else s.finalizePendingGameExit

/-- `game_handoff_result_t`. -/
inductive HandoffResult where
  | none | complete | deferred
deriving DecidableEq

/-- The process a new one of the same application takes over from, as
`try_game_process_handoff` finds it: its pid, its application, and whether it has
exited already; or the answer that it is too early to tell. -/
def predecessor (env : Env) (pid : Int) (title : Text) (appId : Nat) :
    Except HandoffResult (Int × Nat × Bool) :=
  if s.pendingExit.active &&
      sameApplicationIdentity title appId s.pendingExit.titleId s.pendingExit.appId then
    .ok (s.pendingExit.pid, s.pendingExit.appId, true)
  else if 0 < s.activePid && s.activePid ≠ pid &&
      sameApplicationIdentity title appId s.activeTitleId s.activeAppId then
    if (appId = 0 || s.activeAppId = 0) && env.alive s.activePid then .error .deferred
    else .ok (s.activePid, s.activeAppId, false)
  else .error .none

/-- `try_game_process_handoff`. -/
def tryGameProcessHandoff (env : Env) (pid : Int) (title : Text) (appId : Nat) :
    HandoffResult × Lifecycle :=
  if pid ≤ 0 ∨ title = [] then (.none, s)
  else match s.predecessor env pid title appId with
    | .error result => (result, s)
    | .ok (oldPid, oldAppId, pendingExit) =>
      if oldPid ≤ 0 then (.none, s)
      else
        let effectiveAppId := if appId ≠ 0 then appId else oldAppId
        if (!env.prepared title || !env.mounted title) && !env.ensureRuntime title then
          (.deferred, s)
        else if !env.bind title effectiveAppId pid then (.deferred, s)
        else
          let s := (s.note (.handoff oldPid pid)).publishActiveGame pid title effectiveAppId
          (.complete, if pendingExit then s.clearPendingGameExit else s)

/-- `dispatch_game_launch`. -/
def dispatchGameLaunch (env : Env) (pid : Int) (title : Text) (appId : Nat) :
    Bool × Lifecycle :=
  if !env.watch pid then (false, s)
  else match s.tryGameProcessHandoff env pid title appId with
    | (.complete, s) => (true, s)
    | (.deferred, s) => (false, s)
    | (.none, s) =>
      let s := s.finalizePendingGameExit
      let sameProcess := s.activePid = pid &&
        sameApplicationIdentity title appId s.activeTitleId s.activeAppId
      let appId := if sameProcess && appId = 0 then s.activeAppId else appId
      if (!sameProcess || !env.prepared title || !env.mounted title) &&
          !env.ensureRuntime title then (false, s)
      else if !env.bind title appId pid then (false, s)
      else (true, s.publishActiveGame pid title appId)

/-- `clear_all_pending_game_launches`. -/
def clearAllPendingGameLaunches : Lifecycle :=
  { s with launches := fun _ => PendingLaunch.zero }

/-- Overwrite one candidate. -/
def setLaunch (i : Fin maxPendingGameExecCandidates) (entry : PendingLaunch) : Lifecycle :=
  { s with launches := Function.update s.launches i entry }

/-- `find_pending_game_launch`. -/
def findPendingGameLaunch (pid : Int) : Option (Fin maxPendingGameExecCandidates) :=
  (List.finRange maxPendingGameExecCandidates).find? fun i =>
    (s.launches i).active && (s.launches i).pid = pid

/-- The loop of `reserve_pending_game_launch`: a free or expired candidate, else the
one with the earliest deadline. -/
def reserveFrom (now : Nat) : List (Fin maxPendingGameExecCandidates) →
    Option (Fin maxPendingGameExecCandidates) → Option (Fin maxPendingGameExecCandidates)
  | [], oldest => oldest
  | i :: rest, oldest =>
    let entry := s.launches i
    if !entry.active then some i
    else if now ≠ 0 && entry.deadlineUs ≠ 0 && entry.deadlineUs ≤ now then some i
    else if oldest.all fun j => entry.deadlineUs ≠ 0 &&
        ((s.launches j).deadlineUs = 0 || entry.deadlineUs < (s.launches j).deadlineUs) then
      reserveFrom now rest (some i)
    else reserveFrom now rest oldest

/-- `queue_pending_game_launch`, with the deadline that is given to the candidate. -/
def queuePendingGameLaunch (pid : Int) (execTime now : Nat) (deadline : Nat → Nat) :
    Lifecycle :=
  let place := (s.findPendingGameLaunch pid).orElse fun _ =>
    s.reserveFrom now (List.finRange maxPendingGameExecCandidates) none
  match place with
  | some i =>
    let base := if execTime ≠ 0 then execTime else now
    s.setLaunch i { active := true, pid, execTimeUs := base, deadlineUs := deadline base }
  | none => s

/-- `defer_confirmed_game_launch_retry`. -/
def deferConfirmedGameLaunchRetry (pid : Int) (execTime now : Nat) : Lifecycle :=
  if now = 0 then s
  else s.clearAllPendingGameLaunches.queuePendingGameLaunch pid
    (if execTime ≠ 0 then execTime else now) now fun base => base + gameRuntimePrepareTimeoutUs

/-- `resolve_game_title_id`. -/
def resolveGameTitleId (env : Env) (pid : Int) : Option (Text × Nat) :=
  match env.appInfo pid with
  | some (title, appId) =>
    if title = [] ∨ maxTitleId ≤ title.length then none else some (title, appId)
  | none => none

/-- `handle_game_exec`. -/
def handleGameExec (env : Env) (pid : Int) : Lifecycle :=
  if (s.findPendingGameLaunch pid).isSome then s
  else match resolveGameTitleId env pid with
    | some (title, appId) =>
      if isSupportedGameTitleId title then
        match s.dispatchGameLaunch env pid title appId with
        | (true, s) => s.clearAllPendingGameLaunches
        | (false, s) => s.deferConfirmedGameLaunchRetry pid env.now env.now
      else s
    | none =>
      if !env.alive pid then s
      else if env.now ≠ 0 then
        s.queuePendingGameLaunch pid env.now env.now fun base =>
          if base = 0 then 0 else base + gameAppinfoLookupTimeoutUs
      else s

/-- `consume_active_game`: the title and application of the active process, if it is
this one. -/
def consumeActiveGame (pid : Int) : Option (Text × Nat) × Lifecycle :=
  if pid ≤ 0 ∨ s.activePid ≠ pid ∨ s.activeTitleId = [] then (none, s)
  else (some (s.activeTitleId, s.activeAppId), { s with activeTitleId := [], activeAppId := 0 })

/-- A process that has exited is no candidate any more. -/
def forgetPendingGameLaunch (pid : Int) : Lifecycle :=
  match s.findPendingGameLaunch pid with
  | some i => s.setLaunch i PendingLaunch.zero
  | none => s

/-- `handle_game_exit`. -/
def handleGameExit (env : Env) (pid : Int) : Lifecycle :=
  let s := s.forgetPendingGameLaunch pid
  if s.pendingExit.active && s.pendingExit.pid = pid then s
  else match s.consumeActiveGame pid with
    | (some (title, appId), s) =>
      let s := s.finalizePendingGameExit
      (s.queuePendingGameExit env.now pid title appId).publishActiveGamePid 0
    | (none, s) => s.note (.finalized pid)

/-- The exit of a game that was killed for sleep: it is not held back. -/
def handleSleepExit (env : Env) (pid : Int) : Lifecycle :=
  let s := s.handleGameExit env pid
  if s.pendingExit.active && s.pendingExit.pid = pid then s.finalizePendingGameExit else s

/-- The beginning of the sleep cleanup. -/
def beginSleep : Lifecycle :=
  s.finalizePendingGameExit.clearAllPendingGameLaunches

/-- The loop of `poll_game_modules` over the candidates. -/
def pollFrom (env : Env) : List (Fin maxPendingGameExecCandidates) → Lifecycle → Lifecycle
  | [], s => s
  | i :: rest, s =>
    let entry := s.launches i
    if !entry.active then pollFrom env rest s
    else match resolveGameTitleId env entry.pid with
      | some (title, appId) =>
        if isSupportedGameTitleId title then
          let deadline := if entry.execTimeUs = 0 then 0
            else entry.execTimeUs + gameRuntimePrepareTimeoutUs
          let s := s.setLaunch i { entry with deadlineUs := deadline }
          if deadline = 0 ∨ env.now = 0 ∨ deadline ≤ env.now then
            s.setLaunch i PendingLaunch.zero
          else match s.dispatchGameLaunch env entry.pid title appId with
            | (true, s) => s.clearAllPendingGameLaunches
            | (false, s) =>
              if env.retryNow = 0 ∨ deadline ≤ env.retryNow then
                s.setLaunch i PendingLaunch.zero
              else s.deferConfirmedGameLaunchRetry entry.pid entry.execTimeUs env.retryNow
        else pollFrom env rest (s.setLaunch i PendingLaunch.zero)
      | none =>
        if !env.alive entry.pid ∨
            (env.now ≠ 0 ∧ entry.deadlineUs ≠ 0 ∧ entry.deadlineUs ≤ env.now) then
          pollFrom env rest (s.setLaunch i PendingLaunch.zero)
        else pollFrom env rest s

/-- `handle_pending_app_focus`, as far as it publishes. -/
def handlePendingAppFocus : Lifecycle :=
  if !s.focus.pending then s
  else if s.activePid ≤ 0 ∨ s.activeAppId = 0 ∨ s.activeTitleId = [] then s
  else { s with focus := { s.focus with pending := false } }.publishBackgroundGameState
    s.hasActiveGame

/-- `poll_game_modules`. -/
def pollGameModules (env : Env) : Lifecycle :=
  let s := pollFrom env (List.finRange maxPendingGameExecCandidates) s
  let s := s.maybeFinalizePendingGameExit env
  if s.pendingExit.active then s else s.handlePendingAppFocus

/-- `publish_app_focus`, from the thread that monitors the focus. -/
def publishAppFocus (known : Option Nat) : Lifecycle :=
  if s.focus.known = known then s else { s with focus := { known, pending := true } }

end Lifecycle

/-- One notice to the lifecycle thread, or one poll. -/
inductive Notice where
  | exec (env : Env) (pid : Int)
  | exit (env : Env) (pid : Int)
  | poll (env : Env)
  | beginSleep
  | sleepExit (env : Env) (pid : Int)
  | focus (known : Option Nat)

/-- The state after a notice. -/
def Lifecycle.next (s : Lifecycle) : Notice → Lifecycle
  | .exec env pid => s.handleGameExec env pid
  | .exit env pid => (s.note (.exitNotice pid)).handleGameExit env pid
  | .poll env => s.pollGameModules env
  | .beginSleep => s.beginSleep
  | .sleepExit env pid => (s.note (.exitNotice pid)).handleSleepExit env pid
  | .focus known => s.publishAppFocus known

/-- All sequences of notices. -/
def system : System Lifecycle Notice :=
  System.ofFunction Lifecycle.initial Lifecycle.next

end ShadowMount.GameLifecycle
