import Mathlib.Logic.Function.Basic
import ShadowMount.Foundation.Transition

/-!
# Pausing the scanner for an ejection

A volume cannot be unmounted while the scanner watches its directories.  Before an ejection a
caller asks the scanner to close its USB watches, and afterwards it lets the scanner reopen
them.  The two agree through one atomic word of {lit}`sm_scanner.c`; sleep mode closes and
reopens the same watches on its own.

Every load, store and exchange of the word, and every look at the sleep and stop flags, is a
step of its own.  The scan work between two looks at the word is one step, which may rebuild
the USB watches.
-/

namespace ShadowMount.UsbEject

open Foundation

/-- `g_usb_eject_pause`. -/
inductive Pause where
  | idle | requested | paused | resuming
deriving DecidableEq

/-- Where the scanner is in `sm_scanner_run_loop`. -/
inductive Scanner where
  /-- Before the first watches are opened. -/
  | starting
  | top
  /-- In `handle_usb_eject_pause`: the load of the word, and its branches. -/
  | load | dismiss | suspend | grant | wait | checkStop | checkSleep | restore | release
  /-- The branches on sleep mode. -/
  | sleepCheck | doze | sleeping | awake
  /-- The rest of a turn. -/
  | work
  /-- The loop has been left, and `sm_scanner_shutdown` has run. -/
  | ended | closed
deriving DecidableEq

/-- Where a caller is in `sm_scanner_suspend_usb_for_eject`, or after it. -/
inductive Caller where
  /-- Not in a call. -/
  | out
  /-- The first looks at the stop flag and at the sleep flag were passed. -/
  | sawRunning | entering
  /-- In the loop: before each of its three looks. -/
  | waiting | pollSleep | pollWord
  /-- The loop was left without the pause. -/
  | failing
  /-- The call has returned true. -/
  | granted
deriving DecidableEq

/-- The caller has set the word and not given it back. -/
def Caller.holds : Caller → Bool
  | .waiting | .pollSleep | .pollWord | .failing | .granted => true
  | _ => false

/-- The shared words, the scanner and all callers. -/
structure State (ι : Type) where
  word : Pause
  sleep : Bool
  stop : Bool
  scanner : Scanner
  /-- Does the scanner hold USB watch descriptors? -/
  usb : Bool
  wasSleeping : Bool
  callers : ι → Caller

/-- How a step of the scanner goes. -/
inductive Turn where
  | ok
  /-- The scan work rebuilds the USB watches. -/
  | rebuild
  /-- A call of the scanner fails, or the scan work ends the loop. -/
  | fail
deriving DecidableEq

/-- A step of the system. -/
inductive Step (ι : Type) where
  | scan (turn : Turn)
  | call (i : ι)
  | timeout (i : ι)
  | sleepOn
  | sleepOff
  | stop
deriving DecidableEq

variable {ι : Type}

/-- The scanner clears its watches and asks for a shutdown. -/
def State.fail (s : State ι) : State ι := { s with scanner := .ended, usb := false, stop := true }

/-- A step of the scanner that may fail. -/
def State.try (s : State ι) (turn : Turn) (next : State ι) : State ι :=
  if turn = .fail then s.fail else next

/-- The scanner's next step. -/
def scan (s : State ι) (turn : Turn) : State ι :=
  match s.scanner with
  | .starting => s.try turn { s with scanner := .top, usb := true }
  | .top =>
      if s.stop then { s with scanner := .ended, usb := false } else { s with scanner := .load }
  | .load =>
    match s.word with
    | .idle => { s with scanner := .sleepCheck }
    | .resuming => { s with scanner := .dismiss }
    | _ => { s with scanner := .suspend }
  | .dismiss => { s with word := .idle, scanner := .sleepCheck }
  | .suspend => s.try turn { s with usb := false, scanner := .grant }
  | .grant =>
    { s with word := if s.word = .requested then .paused else s.word, scanner := .wait }
  | .wait =>
    if s.word = .paused ∧ s.stop = false ∧ s.sleep = false then s.try turn s
    else { s with scanner := .checkStop }
  | .checkStop => { s with scanner := if s.stop then .release else .checkSleep }
  | .checkSleep => { s with scanner := if s.sleep then .release else .restore }
  | .restore => s.try turn { s with usb := true, scanner := .release }
  | .release => { s with word := .idle, scanner := .sleepCheck }
  | .sleepCheck =>
    { s with scanner :=
      if s.sleep then if s.wasSleeping then .sleeping else .doze else .awake }
  | .doze => s.try turn { s with usb := false, wasSleeping := true, scanner := .sleeping }
  | .sleeping => s.try turn { s with scanner := .top }
  | .awake =>
    if s.wasSleeping then
      s.try turn { s with usb := true, wasSleeping := false, scanner := .work }
    else { s with scanner := .work }
  | .work =>
    match turn with
    | .ok => { s with scanner := .top }
    | .rebuild => { s with usb := true, scanner := .top }
    | .fail => s.fail
  | .ended => { s with word := .idle, scanner := .closed }
  | .closed => s

/-- A caller goes on to another place. -/
def State.move (s : State ι) [DecidableEq ι] (i : ι) (c : Caller) : State ι :=
  { s with callers := Function.update s.callers i c }

/-- `sm_scanner_resume_usb_after_eject`. -/
def State.resume (s : State ι) [DecidableEq ι] (i : ι) : State ι :=
  { s with word := .resuming, callers := Function.update s.callers i .out }

/-- A caller's next step. -/
def call [DecidableEq ι] (s : State ι) (i : ι) : State ι :=
  match s.callers i with
  | .out => if s.stop then s else s.move i .sawRunning
  | .sawRunning => s.move i (if s.sleep then .out else .entering)
  | .entering =>
    if s.word = .idle then
      { s with word := .requested, callers := Function.update s.callers i .waiting }
    else s.move i .out
  | .waiting => s.move i (if s.stop then .failing else .pollSleep)
  | .pollSleep => s.move i (if s.sleep then .failing else .pollWord)
  | .pollWord => s.move i (if s.word = .paused then .granted else .waiting)
  | .failing => s.resume i
  | .granted => s.resume i

/-- The state after a step. -/
def next [DecidableEq ι] (s : State ι) : Step ι → State ι
  | .scan turn => scan s turn
  | .call i => call s i
  | .timeout i => if s.callers i = .waiting then s.move i .failing else s
  | .sleepOn => { s with sleep := true }
  | .sleepOff => { s with sleep := false }
  | .stop => { s with stop := true }

/-- The system at the start of `sm_scanner_run_loop`. -/
def start : State ι where
  word := .idle
  sleep := false
  stop := false
  scanner := .starting
  usb := false
  wasSleeping := false
  callers := fun _ => .out

/-- All interleavings. -/
def protocol (ι : Type) [DecidableEq ι] : System (State ι) (Step ι) :=
  System.ofFunction start next

end ShadowMount.UsbEject
