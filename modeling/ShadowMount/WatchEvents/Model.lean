import ShadowMount.WatchRegistry.Invariant
import ShadowMount.WatchTree.Model

/-!
# Batches of kernel events

{lit}`process_scanner_events` of {lit}`sm_scanner.c` reads a batch of events from the kernel and
handles one after another.  A vnode event carries a descriptor number, and the scanner looks up in
its own tables what the number stands for.  Handling an event can close descriptors and open others:
a configuration file that is gone is reopened, and in some cases the watch tree of a scan root is
rebuilt at once.

The registry of the watches is the one of {lit}`WatchRegistry`.  The descriptor table of the process
is part of the state: it says which opening of which file every number stands for.  The kernel
generates an event for an opening, so that a directory which is opened again, under the same number
and even by the same path, is not the one that an older event is of.  What the handlers schedule
for the main loop is left out, since nothing here reads it.
-/

namespace ShadowMount.WatchEvents

open Config hiding maxScanPaths
open WatchRegistry WatchRegistry.Registry WatchTree

/-- What a descriptor of the scanner is open for. -/
inductive File where
  | directory (path : Text)
  | config (i : Fin 2)
  | manual
deriving DecidableEq

/-- An open file of the process.  The openings are counted, so that no two are the same. -/
structure Opening where
  serial : Nat
  file : File
deriving DecidableEq

/-- The descriptor table of the process. -/
abbrev Descriptors := Nat → Option Opening

/-- The file that a number is open for. -/
def fileAt (table : Descriptors) (fd : Nat) : Option File := (table fd).map Opening.file

/-- The field `root_present` of `scanner_root_state_t`, with the device and the inode of a
root that is present. -/
abbrev Presence := Option Identity

/-- The variables of the scanner that its event loop works on. -/
structure Scanner where
  registry : Registry
  /-- `g_scanner_config_fds`. -/
  configFds : Fin 2 → Option Nat
  /-- `g_scanner_manual_fd`. -/
  manualFd : Option Nat
  presence : Fin maxScanPaths → Presence
  descriptors : Descriptors
  /-- The openings so far are those with a smaller serial number. -/
  opened : Nat

/-- The table after calls that the registry has logged: with what it opened, if anything, and
without what it closed. -/
def tableAfter (before after : List FdCall) (opening : Option Opening) (table : Descriptors) :
    Descriptors := fun fd =>
  if isOpen after fd = isOpen before fd then table fd
  else if isOpen after fd then opening
  else none

/-- A number from `open`: the kernel never returns one that is in use. -/
def freeNumber (table : Descriptors) (fd : Option Nat) : Option Nat :=
  fd.filter fun fd => (table fd).isNone

/-- The field `filter` of a kernel event. -/
inductive Filter where
  | vnode | read | fs | other
deriving DecidableEq

/-- The flags of a vnode event that the scanner looks at. -/
structure VnodeFlags where
  /-- `NOTE_DELETE`, `NOTE_RENAME` or `NOTE_REVOKE`. -/
  gone : Bool
  /-- `NOTE_WRITE` or `NOTE_EXTEND`. -/
  written : Bool

/-- `struct kevent`, as the kernel returns it. -/
structure Event where
  filter : Filter
  ident : Nat
  flags : VnodeFlags

/-- The answers of the system while the event of one subscription is handled. -/
structure ParentView where
  /-- `stat_directory_identity`, before a rebuild and in it. -/
  identity : Text → Option Identity
  identityAgain : Text → Option Identity
  /-- `runtime_resume_grace_active`. -/
  resumeGrace : Bool
  /-- `usb_storage_root_mounted`. -/
  usbMounted : Text → Bool
  /-- The file system, for the walk and the directory above the root. -/
  tree : View
  /-- The answers to the calls of one registration. -/
  answers : Text → Answers
  /-- Can the index grow after the removal? -/
  grows : Bool

/-- The answers of the system while one event is handled. -/
structure EventView where
  /-- The numbers from `open` for the configuration files. -/
  configOpen : Fin 2 → Option Nat
  /-- Does `kevent` accept them? -/
  configWatched : Fin 2 → Bool
  /-- By the position of the subscription. -/
  parents : Nat → ParentView

/-- The registry and the table, while a tree is rebuilt. -/
structure Tables where
  registry : Registry
  descriptors : Descriptors
  opened : Nat

/-- `register_scanner_watch_entry`.  The outcome `none` is a probe that does not end. -/
def Tables.register (s : Tables) (r : Request) (a : Answers) : Option (Bool × Tables) :=
  let a := { a with fd := freeNumber s.descriptors a.fd }
  (s.registry.registerScannerWatchEntry r a).map fun (ok, registry) =>
    (ok, ⟨registry, tableAfter s.registry.log registry.log
      (some ⟨s.opened, .directory (strlcpy maxPath r.path)⟩) s.descriptors, s.opened + 1⟩)

/-- `remove_scan_root_watch_entries`.  The outcome `none` is a loop that does not end. -/
def Tables.removeRoot (s : Tables) (root : Fin maxScanPaths) (grows : Bool) :
    Option (Bool × Tables) :=
  (s.registry.removeScanRootWatchEntries root grows).map fun (ok, registry) =>
    (ok, ⟨registry, tableAfter s.registry.log registry.log none s.descriptors, s.opened⟩)

/-- `register_watch_directory_visit`, on the registry.  The state is `none` after a probe
that does not end. -/
def registerVisit (e : ParentView) (root : Fin maxScanPaths) (scanDepth : Nat) (dirPath : Text)
    (depthFromRoot : Nat) (s : Option Tables) : DirVisit × Option Tables :=
  if 0 < depthFromRoot && isUnderImageMountBase dirPath then (.skipDescend, s)
  else if 0 < depthFromRoot &&
      (decide (scanDepth ≤ depthFromRoot) || directoryHasGameParam e.tree.stat dirPath) then
    (.skipDescend, s)
  else
    match s.bind fun s => s.register ⟨some root, dirPath, kindAt depthFromRoot,
        depthFromRoot % 256⟩ (e.answers dirPath) with
    | none => (.abort, none)
    | some (true, s) => (.descend, some s)
    | some (false, s) => (.abort, some s)

/-- The callbacks of the walk. -/
def registerCallbacks (e : ParentView) (root : Fin maxScanPaths) (scanDepth : Nat) :
    Callbacks (Option Tables) where
  onDirectory := registerVisit e root scanDepth
  skipPermissionErrors := true

/-- `register_scan_root_parent_watch`. -/
def registerParent (e : ParentView) (root : Fin maxScanPaths) (scanRoot : Text) (s : Tables) :
    Option (Bool × Tables) :=
  match resolveExistingParentDirectoryPath e.tree.stat scanRoot with
  | none => some (true, s)
  | some parent => s.register ⟨some root, parent, .scanRootParent, 0⟩ (e.answers parent)

/-- The part of `rebuild_scan_root_watch_tree` after the removal. -/
def registerTree (config : RuntimeState) (e : ParentView) (root : Fin maxScanPaths)
    (scanRoot : Text) (s : Tables) : Option (Bool × Tables) :=
  if (e.identityAgain scanRoot).isNone then registerParent e root scanRoot s
  else
    let scanDepth := getScanDepthForRoot config scanRoot
    match smScanTreeWalk e.tree config (registerCallbacks e root scanDepth) scanRoot scanDepth
        scanRoot 0 ⟨0, some s⟩ with
    | (_, ⟨_, none⟩) => none
    | (false, ⟨_, some s⟩) => some (false, s)
    | (true, ⟨_, some s⟩) => registerParent e root scanRoot s

/-- Put the tables back. -/
def Scanner.withTables (s : Scanner) (t : Tables) : Scanner :=
  { s with registry := t.registry, descriptors := t.descriptors, opened := t.opened }

/-- The tables of a scanner. -/
def Scanner.tables (s : Scanner) : Tables := ⟨s.registry, s.descriptors, s.opened⟩

/-- `rebuild_scan_root_watch_tree`. -/
def rebuildTree (config : RuntimeState) (e : ParentView) (root : Fin maxScanPaths) (s : Scanner) :
    Option (Bool × Scanner) :=
  match getScanPath config root with
  | none => some (false, s)
  | some scanRoot =>
    match s.tables.removeRoot root e.grows with
    | none => none
    | some (false, t) => some (false, s.withTables t)
    | some (true, t) =>
      let s := { s with presence := Function.update s.presence root (e.identityAgain scanRoot) }
      (registerTree config e root scanRoot t).map fun (ok, t) => (ok, s.withTables t)

/-- The roots of `find_usb_storage_root`. -/
def usbStorageRoots : List Text :=
  ["/mnt/usb0".toList, "/mnt/usb1".toList, "/mnt/usb2".toList, "/mnt/usb3".toList,
    "/mnt/usb4".toList, "/mnt/usb5".toList, "/mnt/usb6".toList, "/mnt/usb7".toList,
    "/mnt/ext0".toList]

/-- `is_usb_storage_path`. -/
def isUsbStoragePath (path : Text) : Bool := usbStorageRoots.any (pathMatchesRootOrChild path)

/-- `update_scan_root_presence_state`: did the presence of the root change? -/
def presenceChanged (old new : Presence) : Bool :=
  match old, new with
  | some old, some new => old ≠ new
  | none, none => false
  | _, _ => true

/-- `handle_scan_root_parent_event`.  Where nothing is rebuilt, a rebuild is scheduled or there
is nothing to do. -/
def handleScanRootParentEvent (config : RuntimeState) (e : ParentView) (root : Fin maxScanPaths)
    (watchedPath : Text) (s : Scanner) : Option (Bool × Scanner) :=
  match getScanPath config root with
  | none => some (false, s)
  | some scanRoot =>
    let present := e.identity scanRoot
    let changed := presenceChanged (s.presence root) present
    let s := { s with presence := Function.update s.presence root present }
    if present.isSome && changed then
      let resumedUsbRoot := e.resumeGrace && isUsbStoragePath scanRoot
      if resumedUsbRoot && !e.usbMounted scanRoot then rebuildTree config e root s
      else some (true, s)
    else if present.isSome then some (true, s)
    else if changed then
      if e.resumeGrace && isUsbStoragePath scanRoot then rebuildTree config e root s
      else some (true, s)
    else if resolveExistingParentDirectoryPath e.tree.stat scanRoot ≠ some watchedPath then
      rebuildTree config e root s
    else some (true, s)

/-- The number of a configuration file is closed. -/
def Scanner.closeConfig (s : Scanner) (i : Fin 2) : Scanner :=
  match s.configFds i with
  | none => s
  | some fd =>
    { s with
      configFds := Function.update s.configFds i none
      descriptors := Function.update s.descriptors fd none }

/-- The first loop of `reopen_config_file_watch`, for one file. -/
def Scanner.openConfig (s : Scanner) (v : EventView) (i : Fin 2) : Scanner :=
  match s.configFds i, freeNumber s.descriptors (v.configOpen i) with
  | none, some fd =>
    { s with
      configFds := Function.update s.configFds i (some fd)
      descriptors := Function.update s.descriptors fd (some ⟨s.opened, .config i⟩)
      opened := s.opened + 1 }
  | _, _ => s

/-- `register_config_file_watch`, for one file. -/
def Scanner.watchConfig (s : Scanner) (v : EventView) (i : Fin 2) : Scanner :=
  if v.configWatched i then s else s.closeConfig i

/-- `reopen_config_file_watch`. -/
def Scanner.reopenConfigFileWatch (s : Scanner) (v : EventView) : Scanner :=
  (((s.openConfig v 0).openConfig v 1).watchConfig v 0).watchConfig v 1

/-- `close_scanner_manual_file`. -/
def Scanner.closeManual (s : Scanner) : Scanner :=
  match s.manualFd with
  | none => s
  | some fd =>
    { s with manualFd := none, descriptors := Function.update s.descriptors fd none }

/-- Who an event is delivered to. -/
inductive Recipient where
  | config (i : Fin 2)
  | manual
  /-- A subscription, with the path that is taken for the watched one. -/
  | subscription (subscription : EventSubscription) (watchedPath : Text)

/-- `handle_scanner_control_event`, for vnode events: the recipient, if it is a control file.
The wake pipe is read by another filter. -/
def handleScannerControlEvent (v : EventView) (event : Event) (s : Scanner) :
    Option (Recipient × Scanner) :=
  if s.configFds 0 = some event.ident then
    some (.config 0,
      if event.flags.gone then (s.closeConfig 0).reopenConfigFileWatch v else s)
  else if s.configFds 1 = some event.ident then
    some (.config 1,
      if event.flags.gone then (s.closeConfig 1).reopenConfigFileWatch v else s)
  else if s.manualFd = some event.ident then
    some (.manual, if event.flags.gone then s.closeManual else s)
  else none

/-- The loop of `process_scanner_events` over the copied subscriptions, as far as it works on
descriptors. -/
def handleSubscriptions (config : RuntimeState) (v : EventView) (watchedPath : Text) :
    List EventSubscription → Nat → Scanner → Option (Bool × Scanner)
  | [], _, s => some (true, s)
  | subscription :: rest, n, s =>
    match subscription.scanRootIndex with
    | none => handleSubscriptions config v watchedPath rest (n + 1) s
    | some root =>
      if (getScanPath config root).isNone || subscription.kind ≠ .scanRootParent then
        handleSubscriptions config v watchedPath rest (n + 1) s
      else
        match handleScanRootParentEvent config (v.parents n) root watchedPath s with
        | none => none
        | some (false, s) => some (false, s)
        | some (true, s) => handleSubscriptions config v watchedPath rest (n + 1) s

/-- An event that was handled: the scanner at that moment, and who got the event. -/
structure Handled where
  event : Event
  before : Scanner
  recipients : List Recipient

/-- How the handling of one event ends.  The recipients are the subscriptions that were copied for
the event: a rebuild that fails ends the loop before the ones after it. -/
structure Outcome where
  /-- Does the loop go on? -/
  ok : Bool
  recipients : List Recipient
  scanner : Scanner

/-- One turn of the loop of `process_scanner_events` for a vnode event of a watch.  An event
with too many subscriptions is delivered to none. -/
def processWatchEvent (config : RuntimeState) (v : EventView) (event : Event) (s : Scanner) :
    Option Outcome :=
  match s.registry.findScannerWatchEntryByFd event.ident with
  | none => none
  | some none => some ⟨true, [], s⟩
  | some (some owner) =>
    let watchedPath := (s.registry.entries owner).path
    match s.registry.processVnodeEvent event.ident event.flags.gone with
    | none => none
    | some (false, _, registry) => some ⟨false, [], { s with registry := registry }⟩
    | some (true, subscriptions, registry) =>
      (handleSubscriptions config v watchedPath subscriptions 0
        { s with registry := registry }).map fun (ok, s) =>
          ⟨ok, subscriptions.map (.subscription · watchedPath), s⟩

/-- One turn of the loop of `process_scanner_events`. -/
def processEvent (config : RuntimeState) (v : EventView) (event : Event) (s : Scanner) :
    Option Outcome :=
  if event.filter ≠ .vnode then some ⟨true, [], s⟩
  else
    match handleScannerControlEvent v event s with
    | some (recipient, s) => some ⟨true, [recipient], s⟩
    | none => processWatchEvent config v event s

/-- The loop of `process_scanner_events` over a batch: the events that were handled, and the
scanner afterwards.  The watches of the USB volumes are refreshed only after it. -/
def processScannerEvents (config : RuntimeState) :
    List (Event × EventView) → Scanner → Option (List Handled × Scanner)
  | [], s => some ([], s)
  | (event, v) :: rest, s =>
    match processEvent config v event s with
    | none => none
    | some outcome =>
      let handled : Handled := ⟨event, s, outcome.recipients⟩
      if outcome.ok then
        (processScannerEvents config rest outcome.scanner).map fun (more, s) =>
          (handled :: more, s)
      else some ([handled], outcome.scanner)

end ShadowMount.WatchEvents
