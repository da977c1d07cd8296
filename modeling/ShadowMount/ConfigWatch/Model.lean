import Mathlib.Data.Fin.Basic
import Mathlib.Logic.Function.Basic
import ShadowMount.Foundation.Transition
import ShadowMount.Types

/-!
# Watching the configuration files

How the scanner of {lit}`sm_scanner.c` learns that {lit}`config.ini` or
{lit}`profiles.ini` has changed.  It holds one descriptor for each file, registered with
{lit}`kqueue` for changes of the vnode behind it.  A vnode event schedules a reload; when
the file was replaced or removed, the descriptor is closed and the file opened anew.  A
file that cannot be opened or registered is probed every ten seconds.

The file system is part of the state: which vnode a path names at present, counted as the
generations of the path, and what it holds.  Anyone may edit the files at any moment, so
every action of the scanner carries the edits that happen between its system calls, and
what these calls return.  The kernel is assumed to queue an event for every change of a
vnode once the descriptor is registered.  Times are microseconds in 64 bits; they are numbers
without a bound here, on the assumption that the clock does not reach 2^64.
-/

namespace ShadowMount.ConfigWatch

open Foundation

/-- `SCANNER_CONFIG_RELOAD_DEBOUNCE_US`. -/
def configReloadDebounceUs : Nat := 250000

/-- `SCANNER_CONFIG_PROBE_INTERVAL_US`. -/
def configProbeIntervalUs : Nat := 10000000

/-- One of the two files: what its path names, and what the scanner has of it. -/
structure File where
  /-- Which vnode the path names, or would name next. -/
  generation : Nat
  /-- What the file holds; none when there is no file. -/
  present : Option Text
  /-- The vnode of `g_scanner_config_fds`; none is a negative descriptor. -/
  fd : Option Nat
  registered : Bool
  /-- The event the kernel has queued for the descriptor, and whether it tells that the
  vnode was removed or renamed. -/
  queued : Option Bool
  /-- What the file held when the configuration was last loaded. -/
  loaded : Option Text
deriving DecidableEq

/-- How a file can be edited. -/
inductive Change where
  /-- In place. -/
  | write (text : Text)
  /-- By a rename over the path, or by creating the file. -/
  | replace (text : Text)
  | remove
deriving DecidableEq

namespace File

variable (f : File)

/-- Is a change of the present vnode noticed by the kernel? -/
def watching : Bool := f.registered && f.fd = some f.generation

/-- The kernel queues an event, if the vnode is watched. -/
def notify (gone : Bool) : File :=
  if f.watching then { f with queued := some (f.queued.getD false || gone) } else f

/-- The file after a change. -/
def change : Change → File
  | .write text =>
    if f.present.isNone then f else { f.notify false with present := some text }
  | .replace text =>
    { f.notify true with present := some text, generation := f.generation + 1 }
  | .remove =>
    if f.present.isNone then f
    else { f.notify true with present := none, generation := f.generation + 1 }

/-- Close the descriptor; its events go with it. -/
def close : File := { f with fd := none, registered := false, queued := none }

/-- `open` the path, unless a descriptor is there already. -/
def openFd (ok : Bool) : File :=
  if f.fd.isSome then f
  else if ok && f.present.isSome then { f with fd := some f.generation, registered := false }
  else f

/-- Register the descriptor, or close it when that fails. -/
def register (ok : Bool) : File :=
  if f.fd.isNone then f else if ok then { f with registered := true } else f.close

end File

/-- An edit of one of the files. -/
structure Edit where
  file : Fin 2
  change : Change
deriving DecidableEq

/-- How far the scanner has come. -/
inductive Phase where
  /-- The configuration is loaded, `sm_scanner_init` has not run. -/
  | loaded
  /-- The descriptors are open, `sm_scanner_run_loop` has not begun. -/
  | initialized
  | running
deriving DecidableEq

/-- The files and the variables of the scanner. -/
structure Watch where
  phase : Phase
  files : Fin 2 → File
  /-- The events that were fetched from the kernel and not handled yet. -/
  batch : List (Fin 2 × Bool)
  reloadPending : Bool
  reloadReadyAfterUs : Nat
  probeDueUs : Nat

/-- What happens between the system calls of an action, and what they return. -/
structure Gaps where
  openOk : Fin 2 → Bool
  registerOk : Fin 2 → Bool
  beforeOpen : List Edit
  betweenOpens : List Edit
  beforeRegister : List Edit
  betweenRegisters : List Edit
  afterRegister : List Edit

namespace Watch

variable (s : Watch)

def setFile (i : Fin 2) (f : File) : Watch :=
  { s with files := Function.update s.files i f }

def edit (e : Edit) : Watch := s.setFile e.file ((s.files e.file).change e.change)

def edits (es : List Edit) : Watch := es.foldl edit s

/-- `schedule_config_reload`. -/
def scheduleConfigReload (now : Nat) : Watch :=
  { s with reloadPending := true, reloadReadyAfterUs := now + configReloadDebounceUs }

/-- `schedule_config_probe`. -/
def scheduleConfigProbe (now : Nat) : Watch :=
  { s with probeDueUs := now + configProbeIntervalUs }

/-- Schedule a probe if the file has no descriptor. -/
def probeIfLost (now : Nat) (i : Fin 2) : Watch :=
  if (s.files i).fd.isNone then s.scheduleConfigProbe now else s

/-- One turn of the loop of `reopen_config_file_watch`. -/
def openFile (now : Nat) (ok : Fin 2 → Bool) (i : Fin 2) : Watch :=
  (s.setFile i ((s.files i).openFd (ok i))).probeIfLost now i

/-- One turn of the loop of `register_config_file_watch`. -/
def registerFile (now : Nat) (ok : Fin 2 → Bool) (i : Fin 2) : Watch :=
  (s.setFile i ((s.files i).register (ok i))).probeIfLost now i

/-- The loop of `reopen_config_file_watch`. -/
def openFiles (now : Nat) (g : Gaps) : Watch :=
  (((s.edits g.beforeOpen).openFile now g.openOk 0).edits g.betweenOpens).openFile now g.openOk 1

/-- `register_config_file_watch`. -/
def registerConfigFileWatch (now : Nat) (g : Gaps) : Watch :=
  let s := { s.edits g.beforeRegister with probeDueUs := 0 }
  (((s.registerFile now g.registerOk 0).edits g.betweenRegisters).registerFile now
    g.registerOk 1).edits g.afterRegister

/-- `reopen_config_file_watch`, with a queue to register in. -/
def reopenConfigFileWatch (now : Nat) (g : Gaps) : Watch :=
  (s.openFiles now g).registerConfigFileWatch now g

/-- `sm_scanner_init`: the files are opened, nothing is registered yet. -/
def init (now : Nat) (g : Gaps) : Watch :=
  if s.phase = .loaded then { s.openFiles now g with phase := .initialized } else s

/-- The beginning of `sm_scanner_run_loop`. -/
def beginLoop (now : Nat) (g : Gaps) : Watch :=
  if s.phase = .initialized then { s.registerConfigFileWatch now g with phase := .running }
  else s

/-- `kevent` returns the events of some descriptors, in the given order. -/
def fetch (order : List (Fin 2)) : Watch :=
  if s.phase = .running ∧ s.batch = [] then
    order.foldl (fun s i => match (s.files i).queued with
      | some gone =>
        { s.setFile i { s.files i with queued := none } with batch := s.batch ++ [(i, gone)] }
      | none => s) s
  else s

/-- `handle_scanner_control_event` for the next event of the batch. -/
def handle (now : Nat) (g : Gaps) : Watch :=
  match s.batch with
  | [] => s
  | (i, gone) :: rest =>
    let s := { s with batch := rest }
    if (s.files i).fd.isNone then s
    else if gone then
      ((s.setFile i (s.files i).close).reopenConfigFileWatch now g).scheduleConfigReload now
    else s.scheduleConfigReload now

/-- `config_probe_due`, in the loop. -/
def configProbeDue (now : Nat) : Bool :=
  s.phase = .running && s.batch.isEmpty &&
    ((s.files 0).fd.isNone || (s.files 1).fd.isNone) && s.probeDueUs ≠ 0 && s.probeDueUs ≤ now

/-- The branch of the loop for a due probe. -/
def probe (now : Nat) (g : Gaps) : Watch :=
  if s.configProbeDue now then
    let s := { s with probeDueUs := 0 }.reopenConfigFileWatch now g
    if (s.files 0).fd.isSome && (s.files 1).fd.isSome then s.scheduleConfigReload now else s
  else s

/-- The files are read for a reload. -/
def load (i : Fin 2) : Watch :=
  s.setFile i { s.files i with loaded := (s.files i).present }

/-- The branch of the loop for a due reload: the flag is cleared and both files are looked
at, with the edits between the two looks.  Files whose stamps are unchanged are not read
again, but they too count as loaded with what they hold. -/
def reload (now : Nat) (between : List Edit) : Watch :=
  if s.phase = .running ∧ s.batch = [] ∧ s.reloadPending ∧ s.reloadReadyAfterUs ≤ now then
    (({ s with reloadPending := false, reloadReadyAfterUs := 0 }.load 0).edits between).load 1
  else s

/-- The resume from sleep: both descriptors are closed and opened anew. -/
def resume (now : Nat) (g : Gaps) : Watch :=
  if s.phase = .running ∧ s.batch = [] then
    let s := s.setFile 0 (s.files 0).close
    let s := s.setFile 1 (s.files 1).close
    (s.reopenConfigFileWatch now g).scheduleConfigReload now
  else s

end Watch

/-- An edit, or an action of the scanner. -/
inductive Step where
  | edit (e : Edit)
  | init (now : Nat) (g : Gaps)
  | beginLoop (now : Nat) (g : Gaps)
  | fetch (order : List (Fin 2))
  | handle (now : Nat) (g : Gaps)
  | probe (now : Nat) (g : Gaps)
  | reload (now : Nat) (between : List Edit)
  | resume (now : Nat) (g : Gaps)

def Watch.next (s : Watch) : Step → Watch
  | .edit e => s.edit e
  | .init now g => s.init now g
  | .beginLoop now g => s.beginLoop now g
  | .fetch order => s.fetch order
  | .handle now g => s.handle now g
  | .probe now g => s.probe now g
  | .reload now between => s.reload now between
  | .resume now g => s.resume now g

/-- The state after the initial load of two files. -/
def Watch.initial (contents : Fin 2 → Option Text) : Watch where
  phase := .loaded
  files i := {
    generation := 0, present := contents i, fd := none, registered := false,
    queued := none, loaded := contents i }
  batch := []
  reloadPending := false
  reloadReadyAfterUs := 0
  probeDueUs := 0

/-- The scanner of a program that was started with some configuration. -/
def system : System Watch Step where
  init s := ∃ contents, s = Watch.initial contents
  step s step s' := s' = s.next step

/-- Nothing is forgotten: a file that differs from what was loaded has a reload or an event
pending, or its watch is lost and a probe is scheduled. -/
def Noticed (s : Watch) : Prop :=
  ∀ i, (s.files i).present ≠ (s.files i).loaded →
    s.reloadPending = true ∨ (s.files i).queued ≠ none ∨
      ((s.files i).fd = none ∧ s.probeDueUs ≠ 0)

/-- The run loop stands between two actions. -/
def AtRest (s : Watch) : Prop := s.phase = .running ∧ s.batch = []

instance (s : Watch) : Decidable (Noticed s) :=
  inferInstanceAs (Decidable (∀ i : Fin 2, (s.files i).present ≠ (s.files i).loaded →
    s.reloadPending = true ∨ (s.files i).queued ≠ none ∨
      ((s.files i).fd = none ∧ s.probeDueUs ≠ 0)))

instance (s : Watch) : Decidable (AtRest s) :=
  inferInstanceAs (Decidable (_ ∧ _))

end ShadowMount.ConfigWatch
