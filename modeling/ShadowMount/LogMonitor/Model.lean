import ShadowMount.CString
import ShadowMount.Foundation.Transition
import ShadowMount.Foundation.Windows

/-!
# Kernel log monitor

The part of {lit}`sm_mdbg.c` that reads the kernel log while a game starts: it takes snapshots of
the log, lays each one over the one before, puts the new characters together to lines again and
looks in the lines for the failure of the game.

A snapshot is a window of the log text.  The code sees its characters only; the positions are kept
here next to them, so that what was read can be compared with the log.  {lit}`calls` records the
calls of {lit}`append_log_char` and the places where a line was ended without a line end, and
{lit}`processed` the lines that {lit}`process_log_line` got, both since the game is tracked.
-/

namespace ShadowMount.LogMonitor

open Foundation

/-- `MDBG_MONITOR_WINDOW_US`. -/
def monitorWindowUs : Nat := 60 * 1000000

/-- `MDBG_FATAL_REPORT_GRACE_US`. -/
def fatalReportGraceUs : Nat := 2 * 1000000

/-- `GAME_LIFECYCLE_POLL_INTERVAL_US`. -/
def pollIntervalUs : Nat := 250000

/-- `MDBG_LOG_LINE_BUFFER_SIZE`. -/
def logLineBufferSize : Nat := 512

/-- `MDBG_RTLD_ERROR_PREFIX_SIZE`. -/
def rtldErrorPrefixSize : Nat := 32

/-- `MDBG_FATAL_ERROR_BUFFER_SIZE`. -/
def fatalErrorBufferSize : Nat := 512

/-- `MDBG_FATAL_DETAIL_LIMIT`. -/
def fatalDetailLimit : Nat := 96

/-- `MDBG_FLAG_EXCEPTION_STOP`. -/
def flagExceptionStop : Nat := 0x00080000

/-- `mdbg_fatal_section_t`. -/
inductive FatalSection where
  | none | legacy | signal | backtrace
deriving DecidableEq

/-- `mdbg_game_state_t` of a tracked game. -/
structure Game where
  pid : Int
  monitorDeadlineUs : Nat
  nextPollUs : Nat
  titleId : Text
  rtldErrorPrefix : Text
deriving DecidableEq

/-- The fatal report that is being put together. -/
structure Fatal where
  part : FatalSection
  error : Text
  progressUs : Nat
  pid : Int
deriving DecidableEq

/-- `reset_fatal_error_buffer`. -/
def Fatal.zero : Fatal where
  part := .none
  error := []
  progressUs := 0
  pid := 0

/-- What the user is told. -/
inductive Notice where
  | gameCrashed (titleId : Text)
  | gameError (titleId reason : Text)
deriving DecidableEq

/-- `mdbg_failure_kind_t`. -/
inductive FailureKind where
  | generic | rtld | fatalSignal
deriving DecidableEq

/-- A part of the log, from one position up to another one. -/
structure Window where
  start : Nat
  stop : Nat
deriving DecidableEq

/-- The characters of a window. -/
def Window.text (log : Text) (w : Window) : Text := between log w.start w.stop

/-- What happens to the line that is being put together. -/
inductive Call where
  /-- `append_log_char` with the character at a position of the log. -/
  | appended (position : Nat) (ch : Char)
  /-- The poll no longer waits for the rest of a fatal report, which made no progress for the
  given time. -/
  | abandoned (idleUs : Nat)
  /-- The monitoring ends with the process. -/
  | drained
deriving DecidableEq

/-- `sm_mdbg_state_t`, with what was read since the game is tracked. -/
structure Monitor where
  game : Option Game
  logSnapshot : Text
  logLine : Text
  fatal : Fatal
  notices : List Notice
  read : Window
  baseline : Nat
  calls : List Call
  processed : List Text
deriving DecidableEq

/-- `sm_mdbg_init`. -/
def Monitor.zero : Monitor where
  game := none
  logSnapshot := []
  logLine := []
  fatal := .zero
  notices := []
  read := ⟨0, 0⟩
  baseline := 0
  calls := []
  processed := []

/-- `clear_tracked_game`. -/
def clearTrackedGame (m : Monitor) : Monitor :=
  { m with game := none, logSnapshot := [], logLine := [], fatal := .zero }

/-- What the string functions see of a line: it ends at a zero byte. -/
def cString (line : Text) : Text := line.takeWhile (· ≠ '\x00')

/-- `strstr` finds the first text in the second one. -/
def strstr (needle text : Text) : Bool := text.tails.any needle.isPrefixOf

/-- `isxdigit`. -/
def isXDigit (c : Char) : Bool :=
  c.isDigit || ('a' ≤ c && c ≤ 'f') || ('A' ≤ c && c ≤ 'F')

/-- The value of a digit of base 16. -/
def xDigitValue (c : Char) : Nat :=
  if c.isDigit then c.toNat - '0'.toNat else c.toLower.toNat - 'a'.toNat + 10

/-- The number that a list of digits stands for. -/
def digitsValue (base : Nat) (digits : Text) : Nat :=
  digits.foldl (fun value c => value * base + xDigitValue c) 0

/-- `strtol` in base 10 when it reads the whole of the text; the range is that of `long`,
none outside of it. -/
def strtolWhole (text : Text) : Option Int :=
  let body := text.dropWhile isSpace
  let (negative, digits) := match body with
    | '-' :: rest => (true, rest)
    | '+' :: rest => (false, rest)
    | _ => (false, body)
  if digits.isEmpty || !digits.all Char.isDigit then none
  else
    let value : Int := if negative then -(digitsValue 10 digits : Int) else digitsValue 10 digits
    if -2 ^ 63 ≤ value ∧ value < 2 ^ 63 then some value else none

/-- `strtoull` in base 16 on a text that begins with such a digit: the number, none when it is
out of range, and what is left. -/
def strtoullHex (text : Text) : Option Nat × Text :=
  let body := match text with
    | '0' :: x :: digit :: rest =>
      if (x = 'x' || x = 'X') && isXDigit digit then digit :: rest else text
    | _ => text
  let value := digitsValue 16 (body.takeWhile isXDigit)
  (if value < 2 ^ 64 then some value else none, body.dropWhile isXDigit)

/-- `handle_game_failure`. -/
def handleGameFailure (reason : Text) (nowUs : Nat) (kind : FailureKind) (m : Monitor) : Monitor :=
  match m.game with
  | none => m
  | some game =>
    if nowUs = 0 ∨ game.monitorDeadlineUs ≤ nowUs then clearTrackedGame m
    else
      let notice := match kind with
        | .generic => Notice.gameCrashed game.titleId
        | _ => Notice.gameError game.titleId reason
      clearTrackedGame { m with notices := m.notices ++ [notice] }

/-- `append_fatal_error_detail`. -/
def appendFatalErrorDetail (detail : Text) (fatal : Fatal) : Fatal :=
  if detail = [] ∨ fatalErrorBufferSize ≤ fatal.error.length + 1 then fatal
  else
    let separator := if fatal.error = [] then [] else ['\n']
    { fatal with
      error := (fatal.error ++ separator ++ detail.take fatalDetailLimit).take
        (fatalErrorBufferSize - 1) }

def fatalProcessIdPrefix : Text := "# proc ID: ".toList
def fatalExceptionPrefix : Text := "# exception: ".toList
def fatalSignalPrefix : Text := "# signal: ".toList
def fatalSignalHeader : Text := "# A user thread receives a fatal signal".toList
def fatalThreadNamePrefix : Text := "# thread name: ".toList
def fatalReasonPrefix : Text := "# reason: ".toList
def fatalFaultAddressPrefix : Text := "# fault address: ".toList
def fatalRipPrefix : Text := "# rip: ".toList

/-- `parse_fatal_error_pid`. -/
def parseFatalErrorPid (line : Text) (fatal : Fatal) : Fatal :=
  match strtolWhole (line.drop fatalProcessIdPrefix.length) with
  | some parsed => if 0 < parsed ∧ parsed < 2 ^ 31 then { fatal with pid := parsed } else fatal
  | none => fatal

/-- `finish_fatal_error`. -/
def finishFatalError (nowUs : Nat) (m : Monitor) : Monitor :=
  if m.fatal.part = .none then m
  else if m.fatal.error = [] then { m with fatal := .zero }
  else if m.game.map Game.pid ≠ some m.fatal.pid then { m with fatal := .zero }
  else
    handleGameFailure m.fatal.error nowUs .fatalSignal
      { m with fatal := { m.fatal with part := .none } }

/-- `start_fatal_error`. -/
def startFatalError (part : FatalSection) (detail : Text) (nowUs : Nat) (m : Monitor) : Monitor :=
  let m := if m.fatal.part ≠ .none ∧ 0 < m.fatal.pid then finishFatalError nowUs m else m
  if m.game.isNone then m
  else
    { m with
      fatal := appendFatalErrorDetail detail { Fatal.zero with part := part, progressUs := nowUs } }

/-- `parse_fatal_address`. -/
def parseFatalAddress (text : Text) (trailingFields : Bool) : Option Nat :=
  let body := text.dropWhile isSpace
  if !(body.head?.any isXDigit) then none
  else
    match strtoullHex body with
    | (none, _) => none
    | (some value, rest) =>
      if rest ≠ [] ∧ rest.head?.any isSpace = false then none
      else if rest.dropWhile isSpace ≠ [] ∧ trailingFields = false then none
      else some value

/-- `append_fatal_address`. -/
def appendFatalAddress (name : Text) (address : Nat) (fatal : Fatal) : Fatal :=
  appendFatalErrorDetail
    (name ++ ": 0x".toList ++ (Nat.toDigits 16 address).leftpad 16 '0') fatal

/-- The lines of a fatal report after its first one. -/
def processFatalLine (line : Text) (nowUs : Nat) (m : Monitor) : Monitor :=
  if line.head? ≠ some '#' then m
  else
    let m := { m with fatal := { m.fatal with progressUs := nowUs } }
    if line = "#".toList then
      if m.fatal.part = .legacy ∨ m.fatal.part = .backtrace then finishFatalError nowUs m else m
    else if fatalThreadNamePrefix.isPrefixOf line || fatalReasonPrefix.isPrefixOf line then
      { m with fatal := appendFatalErrorDetail (line.drop 2) m.fatal }
    else if fatalProcessIdPrefix.isPrefixOf line then
      { m with fatal := parseFatalErrorPid line m.fatal }
    else if fatalFaultAddressPrefix.isPrefixOf line then
      match parseFatalAddress (line.drop fatalFaultAddressPrefix.length) false with
      | some address =>
        { m with fatal := appendFatalAddress "fault address".toList address m.fatal }
      | none => m
    else if fatalRipPrefix.isPrefixOf line then
      match parseFatalAddress (line.drop fatalRipPrefix.length) true with
      | some address => { m with fatal := appendFatalAddress "RIP".toList address m.fatal }
      | none => m
    else if line = "# backtrace:".toList then
      { m with fatal := { m.fatal with part := .backtrace } }
    else if line = "# dynamic libraries:".toList then finishFatalError nowUs m
    else if m.fatal.part = .backtrace && (line)[1]? = some ' ' then
      match parseFatalAddress (line.drop 2) false with
      | some address =>
        finishFatalError nowUs
          { m with fatal := appendFatalAddress "backtrace[0]".toList address m.fatal }
      | none => m
    else m

/-- `matches_tracked_rtld_error`. -/
def matchesTrackedRtldError (line : Text) (m : Monitor) : Bool :=
  match m.game with
  | none => false
  | some game => !game.rtldErrorPrefix.isEmpty && strstr game.rtldErrorPrefix line

/-- `process_log_line`. -/
def processLogLine (buffer : Text) (nowUs : Nat) (m : Monitor) : Monitor :=
  let line := cString buffer
  let m := { m with processed := m.processed ++ [buffer] }
  if matchesTrackedRtldError line m then handleGameFailure line nowUs .rtld m
  else if line = fatalSignalHeader then startFatalError .signal [] nowUs m
  else if fatalSignalPrefix.isPrefixOf line then startFatalError .signal (line.drop 2) nowUs m
  else if fatalExceptionPrefix.isPrefixOf line then
    startFatalError .legacy (line.drop fatalExceptionPrefix.length) nowUs m
  else if m.fatal.part ≠ .none then processFatalLine line nowUs m
  else m

def isLineEnd (ch : Char) : Bool := ch = '\r' || ch = '\n'

/-- `fatal_log_line_pending`. -/
def fatalLogLinePending (m : Monitor) : Bool :=
  m.logLine ≠ [] &&
    [fatalSignalHeader, fatalSignalPrefix, fatalExceptionPrefix].any fun first =>
      (first.take m.logLine.length).isPrefixOf m.logLine

/-- `flush_log_line`. -/
def flushLogLine (nowUs : Nat) (m : Monitor) : Monitor :=
  if m.logLine = [] then m
  else { processLogLine m.logLine nowUs m with logLine := [] }

/-- `append_log_char`. -/
def appendLogChar (position : Nat) (ch : Char) (nowUs : Nat) (m : Monitor) : Monitor :=
  if m.game.isNone then m
  else
    let m := { m with calls := m.calls ++ [.appended position ch] }
    if isLineEnd ch then flushLogLine nowUs m
    else if logLineBufferSize ≤ m.logLine.length + 1 then m
    else { m with logLine := m.logLine ++ [ch] }

/-- The loop of `poll_log_monitor`, which leaves it when the game is no longer tracked. -/
def feed (nowUs : Nat) : Nat → Text → Monitor → Monitor
  | _, [], m => m
  | position, ch :: rest, m =>
    let m := appendLogChar position ch nowUs m
    if m.game.isNone then m else feed nowUs (position + 1) rest m

/-- A pending first line of a fatal report counts as its progress. -/
def noteProgress (nowUs : Nat) (m : Monitor) : Monitor :=
  if fatalLogLinePending m then { m with fatal := { m.fatal with progressUs := nowUs } } else m

/-- `find_log_overlap`: the ends of the snapshot are tried from the longest one that fits. -/
def findLogOverlap (snapshot current : Text) : Nat :=
  overlap current (snapshot.drop (snapshot.length - min snapshot.length current.length))

/-- `poll_log_monitor` on what `fetch_log_text` gives, none for an error. -/
def pollLogMonitor (log : Text) (fetched : Option Window) (nowUs : Nat) (m : Monitor) : Monitor :=
  if m.game.isNone then m
  else
    match fetched with
    | none => clearTrackedGame m
    | some w =>
      let text := w.text log
      let seen := { m with read := w }
      if m.logSnapshot.isPrefixOf text then
        if m.logSnapshot.length = text.length then seen
        else finish text w m.logSnapshot.length seen
      else
        let skip := findLogOverlap m.logSnapshot text
        if skip = 0 ∧ m.logSnapshot ≠ [] then
          finish text w 0 { seen with logLine := [], fatal := .zero }
        else finish text w skip seen
where
  /-- The new characters, and the snapshot for the next poll. -/
  finish (text : Text) (w : Window) (skip : Nat) (m : Monitor) : Monitor :=
    let m := feed nowUs (w.start + skip) (text.drop skip) m
    if m.game.isNone then m else { noteProgress nowUs m with logSnapshot := text }

/-- `drain_log_monitor_before_clear`. -/
def drainLogMonitorBeforeClear (log : Text) (fetched : Option Window) (nowUs : Nat)
    (m : Monitor) : Monitor :=
  let m := pollLogMonitor log fetched nowUs m
  if m.game.isNone then m
  else
    let m := flushLogLine nowUs { m with calls := m.calls ++ [.drained] }
    if m.game.isNone then m else finishFatalError nowUs m

/-- The part of a text after its last line end. -/
def lastLine (text : Text) : Text := text.rtakeWhile fun ch => !isLineEnd ch

/-- `start_log_monitoring` once its buffers are there. -/
def startLogMonitoring (log : Text) (w : Window) (nowUs : Nat) (m : Monitor) : Monitor :=
  let text := w.text log
  let tail := lastLine text
  let m := { m with logSnapshot := text, read := w, baseline := w.stop }
  let m := (tail.zipIdx (w.start + (text.length - tail.length))).foldl
    (fun m at' => appendLogChar at'.2 at'.1 nowUs m) m
  noteProgress nowUs m

/-- `set_tracked_game_pid`. -/
def setTrackedGamePid (pid : Int) (game : Game) : Game :=
  { game with
    pid := pid
    rtldErrorPrefix :=
      strlcpy rtldErrorPrefixSize ("[rtld] <".toList ++ (toString pid).toList ++ "> ERROR".toList) }

/-- `sm_mdbg_game_on_exec`.  `ready` says that the privileges and the buffers of
`start_log_monitoring` are there. -/
def gameOnExec (log : Text) (pid : Int) (titleId : Text) (execTimeUs nowUs : Nat) (ready : Bool)
    (fetched : Option Window) (m : Monitor) : Monitor :=
  let m := clearTrackedGame m
  let launchTimeUs := if execTimeUs ≠ 0 then execTimeUs else nowUs
  if pid ≤ 0 ∨ titleId = [] ∨ nowUs = 0 then m
  else if nowUs < launchTimeUs ∨ 2 ^ 64 - 1 - monitorWindowUs < launchTimeUs then m
  else if launchTimeUs + monitorWindowUs ≤ nowUs then m
  else
    let game : Game :=
      setTrackedGamePid pid
        { pid := 0
          monitorDeadlineUs := launchTimeUs + monitorWindowUs
          nextPollUs := (nowUs + pollIntervalUs) % 2 ^ 64
          titleId := strlcpy maxTitleId titleId
          rtldErrorPrefix := [] }
    let m := { m with game := some game, calls := [], processed := [] }
    match fetched with
    | some w => if ready then startLogMonitoring log w nowUs m else clearTrackedGame m
    | none => clearTrackedGame m

/-- `sm_mdbg_game_handoff`. -/
def gameHandoff (log : Text) (oldPid newPid : Int) (nowUs : Nat) (fetched : Option Window)
    (m : Monitor) : Monitor :=
  match m.game with
  | none => m
  | some game =>
    if game.pid ≠ oldPid ∨ newPid ≤ 0 then m
    else if nowUs = 0 ∨ game.monitorDeadlineUs ≤ nowUs then clearTrackedGame m
    else pollLogMonitor log fetched nowUs { m with game := some (setTrackedGamePid newPid game) }

/-- `sm_mdbg_game_on_exit`. -/
def gameOnExit (log : Text) (pid : Int) (nowUs : Nat) (fetched : Option Window)
    (m : Monitor) : Monitor :=
  match m.game with
  | none => m
  | some game =>
    if game.pid ≠ pid then m
    else if nowUs ≠ 0 ∧ nowUs < game.monitorDeadlineUs then
      clearTrackedGame (drainLogMonitorBeforeClear log fetched nowUs m)
    else clearTrackedGame m

/-- `is_mdbg_process_gone_error`. -/
def isMdbgProcessGoneError (ret : Int) : Bool := ret = -3 || ret = -2 || ret = 3 || ret = 2

/-- The process flags of `sm_mdbg_poll`, or the error of the query. -/
def checkProcessFlags (log : Text) (flags : Except Int Nat) (again : Option Window) (nowUs : Nat)
    (m : Monitor) : Monitor :=
  match flags with
  | .error ret =>
    if isMdbgProcessGoneError ret then
      clearTrackedGame (drainLogMonitorBeforeClear log again nowUs m)
    else m
  | .ok value =>
    if value &&& flagExceptionStop ≠ 0 then
      handleGameFailure "crash-candidate".toList nowUs .generic m
    else m

/-- Is a fatal report of the tracked process being put together? -/
def fatalPending (m : Monitor) : Bool :=
  fatalLogLinePending m ||
    (m.fatal.part ≠ .none && (m.fatal.pid = 0 || m.game.map Game.pid = some m.fatal.pid))

/-- The time since the fatal report last made progress. -/
def idleUs (nowUs : Nat) (m : Monitor) : Nat := (nowUs + 2 ^ 64 - m.fatal.progressUs) % 2 ^ 64

/-- The part of `sm_mdbg_poll` after the log was read. -/
def checkProcess (log : Text) (flags : Except Int Nat) (again : Option Window) (nowUs : Nat)
    (m : Monitor) : Monitor :=
  if fatalPending m then
    if idleUs nowUs m < fatalReportGraceUs then m
    else
      let m := flushLogLine nowUs { m with calls := m.calls ++ [.abandoned (idleUs nowUs m)] }
      if m.game.isNone then m
      else
        let m := finishFatalError nowUs m
        if m.game.isNone then m else checkProcessFlags log flags again nowUs m
  else checkProcessFlags log flags again nowUs m

/-- `sm_mdbg_poll`; `again` is the second snapshot, read when the process is gone. -/
def poll (log : Text) (processActive : Bool) (nowUs : Nat) (fetched : Option Window)
    (flags : Except Int Nat) (again : Option Window) (m : Monitor) : Monitor :=
  match m.game with
  | none => m
  | some game =>
    if nowUs = 0 ∨ game.monitorDeadlineUs ≤ nowUs then clearTrackedGame m
    else if nowUs < game.nextPollUs then m
    else
      let m := pollLogMonitor log fetched nowUs m
      match m.game with
      | none => m
      | some game =>
        let m :=
          { m with game := some { game with nextPollUs := (nowUs + pollIntervalUs) % 2 ^ 64 } }
        if processActive then checkProcess log flags again nowUs m else m

/-- One call of the monitor, with what the system answers meanwhile. -/
inductive Op where
  | exec (pid : Int) (titleId : Text) (execTimeUs nowUs : Nat) (ready : Bool)
      (fetched : Option Window)
  | handoff (oldPid newPid : Int) (nowUs : Nat) (fetched : Option Window)
  | exit (pid : Int) (nowUs : Nat) (fetched : Option Window)
  | shutdown
  | poll (processActive : Bool) (nowUs : Nat) (fetched : Option Window) (flags : Except Int Nat)
      (again : Option Window)

def Op.run (log : Text) : Op → Monitor → Monitor
  | .exec pid titleId execTimeUs nowUs ready fetched =>
    gameOnExec log pid titleId execTimeUs nowUs ready fetched
  | .handoff oldPid newPid nowUs fetched => gameHandoff log oldPid newPid nowUs fetched
  | .exit pid nowUs fetched => gameOnExit log pid nowUs fetched
  | .shutdown => clearTrackedGame
  | .poll processActive nowUs fetched flags again =>
    LogMonitor.poll log processActive nowUs fetched flags again

/-- The snapshots that a call may read, in order. -/
def Op.snapshots : Op → List Window
  | .exec _ _ _ _ _ fetched => fetched.toList
  | .handoff _ _ _ fetched => fetched.toList
  | .exit _ _ fetched => fetched.toList
  | .shutdown => []
  | .poll _ _ fetched _ again => fetched.toList ++ again.toList

/-- The log moved on: both ends of the second window are no earlier. -/
def Window.follows (earlier later : Window) : Prop :=
  earlier.start ≤ later.start ∧ earlier.stop ≤ later.stop

instance (earlier later : Window) : Decidable (earlier.follows later) :=
  inferInstanceAs (Decidable (_ ∧ _))

/-- A window lies in the log. -/
def Window.within (log : Text) (w : Window) : Prop := w.start ≤ w.stop ∧ w.stop ≤ log.length

instance (log : Text) (w : Window) : Decidable (w.within log) :=
  inferInstanceAs (Decidable (_ ∧ _))

/-- The snapshots of a call are windows of the log, each no earlier than the one before. -/
def Shows (log : Text) (m : Monitor) (op : Op) : Prop :=
  (m.read :: op.snapshots).IsChain Window.follows ∧ ∀ w ∈ op.snapshots, w.within log

instance (log : Text) (m : Monitor) (op : Op) : Decidable (Shows log m op) :=
  inferInstanceAs (Decidable (_ ∧ _))

/-- The monitor on a log. -/
def monitoring (log : Text) : System Monitor Op :=
  (System.ofFunction Monitor.zero fun m op => op.run log m).restrict (Shows log)

/-- All snapshots of a call start at one position: the log only grows. -/
def StartsAt (origin : Nat) (_ : Monitor) (op : Op) : Prop := ∀ w ∈ op.snapshots, w.start = origin

instance (origin : Nat) (m : Monitor) (op : Op) : Decidable (StartsAt origin m op) :=
  inferInstanceAs (Decidable (∀ w ∈ op.snapshots, w.start = origin))

end ShadowMount.LogMonitor
