import ShadowMount.Foundation.Chains
import ShadowMount.Foundation.Probing
import ShadowMount.Foundation.Transition
import ShadowMount.Paths

/-!
# The watch registry of the scanner

{lit}`sm_scanner.c` watches directories through open descriptors.  Its registry is
one growing array of subscriptions.  The subscriptions of a scan root are linked in
a list, subscriptions of several roots to one directory share a descriptor that
exactly one of them owns, and an index from descriptors to owners is probed
linearly.

The array is modelled as a function from indices to entries, with the number of
entries beside it.  Calls of {lit}`open` and {lit}`close` are recorded in a log.
-/

namespace ShadowMount.WatchRegistry

open Foundation

/-- `MAX_SCAN_PATHS`. -/
def maxScanPaths : Nat := 256

theorem maxScanPaths_pos : 0 < maxScanPaths := by decide

/-- The list a subscription belongs to.  The index -1 of the USB subscriptions is
`none`. -/
abbrev ScanRoot := Option (Fin maxScanPaths)

/-- `scanner_watch_kind_t`. -/
inductive WatchKind where
  | scanRoot | scanRootParent | scanSubdir | usbParent | usbRoot
deriving DecidableEq

/-- `scanner_watch_entry_t`.  The index `SCANNER_WATCH_INDEX_NONE` is
`none`. -/
structure WatchEntry where
  fd : Nat
  ownsFd : Bool
  fdShareable : Bool
  scanRootIndex : ScanRoot
  depth : Nat
  kind : WatchKind
  prevRootWatchIndex : Option Nat
  nextRootWatchIndex : Option Nat
  path : Text

/-- An entry after `memset`. -/
def WatchEntry.zero : WatchEntry where
  fd := 0
  ownsFd := false
  fdShareable := false
  scanRootIndex := some ⟨0, by decide⟩
  depth := 0
  kind := .scanRoot
  prevRootWatchIndex := some 0
  nextRootWatchIndex := some 0
  path := []

/-- A call of the kernel on a descriptor. -/
inductive FdCall where
  | opened (fd : Nat)
  | closed (fd : Nat)
deriving DecidableEq

/-- The static variables of the registry, and the calls made so far, latest first.
A slot of the descriptor index holds zero for `SCANNER_WATCH_INDEX_NONE` and
`k + 1` for entry `k`; the index is `NULL` when its capacity is
zero. -/
structure Registry where
  entries : Nat → WatchEntry
  count : Nat
  capacity : Nat
  heads : Fin maxScanPaths → Option Nat
  fdIndex : Nat → Nat
  fdIndexCapacity : Nat
  log : List FdCall

/-- The registry after `clear_scanner_watch_entries` at start-up. -/
def Registry.empty : Registry where
  entries _ := WatchEntry.zero
  count := 0
  capacity := 0
  heads _ := none
  fdIndex _ := 0
  fdIndexCapacity := 0
  log := []

namespace Registry

/-- Change one entry. -/
def modifyEntry (s : Registry) (i : Nat) (f : WatchEntry → WatchEntry) : Registry :=
  { s with entries := Function.update s.entries i (f (s.entries i)) }

/-- A call of `close`. -/
def close (s : Registry) (fd : Nat) : Registry :=
  { s with log := .closed fd :: s.log }

/-- `clear_scanner_watch_entries`. -/
def clearScannerWatchEntries (s : Registry) : Registry :=
  let owners := (List.range s.count).filter fun i => (s.entries i).ownsFd
  { Registry.empty with
    log := (owners.map fun i => FdCall.closed (s.entries i).fd).reverse ++ s.log }

/-- The loop that doubles a capacity until it is large enough.  The number of rounds
is bounded by the target. -/
def doubleUntil (target : Nat) : Nat → Nat → Nat
  | 0, capacity => capacity
  | rounds + 1, capacity =>
    if capacity < target then doubleUntil target rounds (capacity * 2) else capacity

/-- The capacity of the index that a number of entries asks for. -/
def neededCapacity (watchCount : Nat) : Nat := doubleUntil (watchCount * 2) (watchCount * 2) 16

/-- `ensure_scanner_watch_capacity`.  The flag says whether `realloc`
succeeds. -/
def ensureScannerWatchCapacity (s : Registry) (grows : Bool) (needed : Nat) : Bool × Registry :=
  if needed ≤ s.capacity then (true, s)
  else if !grows then (false, s)
  else
    let start := if s.capacity = 0 then 64 else s.capacity
    (true, { s with capacity := doubleUntil needed needed start })

/-- `scanner_watch_fd_hash`. -/
def scannerWatchFdHash (ident : Nat) : Nat := ident * 11400714819323198485 % 2 ^ 64

/-- The slot a probe starts at.  The source masks with the capacity less one; the
capacity is a power of two. -/
def homeSlot (s : Registry) (ident : Nat) : Nat := scannerWatchFdHash ident % s.fdIndexCapacity

/-- `insert_scanner_watch_fd_index_entry`.  The outcome `none` is a probe
that finds no free slot and never ends. -/
def insertScannerWatchFdIndexEntry (s : Registry) (ident watchIndex : Nat) :
    Option (Bool × Registry) :=
  if s.fdIndexCapacity = 0 then some (false, s)
  else
    (insertFrom s.fdIndexCapacity s.fdIndex (watchIndex + 1) s.fdIndexCapacity
      (s.homeSlot ident)).map fun index => (true, { s with fdIndex := index })

/-- The loop of `rebuild_scanner_watch_fd_index_with_count` over the entries. -/
def fileOwners : List Nat → Registry → Option (Bool × Registry)
  | [], s => some (true, s)
  | i :: rest, s =>
    if !(s.entries i).ownsFd then fileOwners rest s
    else
      match s.insertScannerWatchFdIndexEntry (s.entries i).fd i with
      | none => none
      | some (false, s) => some (false, s)
      | some (true, s) => fileOwners rest s

/-- `rebuild_scanner_watch_fd_index_with_count`. -/
def rebuildScannerWatchFdIndexWithCount (s : Registry) (grows : Bool) (watchCount : Nat) :
    Option (Bool × Registry) :=
  let needed := neededCapacity watchCount
  if s.fdIndexCapacity < needed ∧ grows = false then some (false, s)
  else
    let capacity := if s.fdIndexCapacity < needed then needed else s.fdIndexCapacity
    fileOwners (List.range s.count) { s with fdIndex := fun _ => 0, fdIndexCapacity := capacity }

/-- `rebuild_scanner_watch_fd_index`. -/
def rebuildScannerWatchFdIndex (s : Registry) (grows : Bool) : Option (Bool × Registry) :=
  s.rebuildScannerWatchFdIndexWithCount grows s.count

/-- `ensure_scanner_watch_fd_index_capacity`. -/
def ensureScannerWatchFdIndexCapacity (s : Registry) (grows : Bool) (watchCount : Nat) :
    Option (Bool × Registry) :=
  if s.fdIndexCapacity ≠ 0 ∧ neededCapacity watchCount ≤ s.fdIndexCapacity then some (true, s)
  else s.rebuildScannerWatchFdIndexWithCount grows watchCount

/-- The walk of `find_scanner_watch_entry_by_fd`.  The outcome `none` is a
walk that meets no free slot and no hit, and never ends. -/
def findFrom (s : Registry) (ident : Nat) : Nat → Nat → Option (Option Nat)
  | 0, _ => none
  | fuel + 1, slot =>
    if s.fdIndex slot = 0 then some none
    else if (s.entries (s.fdIndex slot - 1)).fd = ident then some (some (s.fdIndex slot - 1))
    else findFrom s ident fuel ((slot + 1) % s.fdIndexCapacity)

/-- `find_scanner_watch_entry_by_fd`. -/
def findScannerWatchEntryByFd (s : Registry) (ident : Nat) : Option (Option Nat) :=
  if s.fdIndexCapacity = 0 then some none
  else s.findFrom ident s.fdIndexCapacity (s.homeSlot ident)

/-- Set the index before an entry, if there is one. -/
def setPrev (s : Registry) (i : Option Nat) (value : Option Nat) : Registry :=
  match i with
  | none => s
  | some i => s.modifyEntry i fun e => { e with prevRootWatchIndex := value }

/-- Set the index after an entry, if there is one. -/
def setNext (s : Registry) (i : Option Nat) (value : Option Nat) : Registry :=
  match i with
  | none => s
  | some i => s.modifyEntry i fun e => { e with nextRootWatchIndex := value }

/-- Set the head of a list. -/
def setHead (s : Registry) (root : Fin maxScanPaths) (value : Option Nat) : Registry :=
  { s with heads := Function.update s.heads root value }

/-- `link_scanner_watch_entry_to_root`. -/
def linkScannerWatchEntryToRoot (s : Registry) (index : Nat) : Registry :=
  match (s.entries index).scanRootIndex with
  | none => s
  | some root =>
    let head := s.heads root
    let s := s.setPrev (some index) none
    let s := s.setNext (some index) head
    let s := s.setPrev head (some index)
    s.setHead root (some index)

/-- `unlink_scanner_watch_entry_from_root`. -/
def unlinkScannerWatchEntryFromRoot (s : Registry) (index : Nat) : Registry :=
  match (s.entries index).scanRootIndex with
  | none => s
  | some root =>
    let prev := (s.entries index).prevRootWatchIndex
    let s := match prev with
      | some p => s.setNext (some p) (s.entries index).nextRootWatchIndex
      | none => s.setHead root (s.entries index).nextRootWatchIndex
    let s := s.setPrev (s.entries index).nextRootWatchIndex (s.entries index).prevRootWatchIndex
    let s := s.setPrev (some index) none
    s.setNext (some index) none

/-- `rebind_scanner_watch_entry_root_index`. -/
def rebindScannerWatchEntryRootIndex (s : Registry) (oldIndex newIndex : Nat) : Registry :=
  match (s.entries newIndex).scanRootIndex with
  | none => s
  | some root =>
    let s := if s.heads root = some oldIndex then s.setHead root (some newIndex) else s
    let s := s.setNext (s.entries newIndex).prevRootWatchIndex (some newIndex)
    s.setPrev (s.entries newIndex).nextRootWatchIndex (some newIndex)

/-- What a caller subscribes to. -/
structure Request where
  scanRootIndex : ScanRoot
  path : Text
  kind : WatchKind
  depth : Nat

/-- The entry of a new subscription. -/
def Request.entry (r : Request) (fd : Nat) (ownsFd : Bool) : WatchEntry where
  fd := fd
  ownsFd := ownsFd
  fdShareable := true
  scanRootIndex := r.scanRootIndex
  depth := r.depth
  kind := r.kind
  prevRootWatchIndex := none
  nextRootWatchIndex := none
  path := strlcpy maxPath r.path

/-- The entry after the last one, before it is linked. -/
def pushEntry (s : Registry) (e : WatchEntry) : Registry :=
  { s with count := s.count + 1, entries := Function.update s.entries s.count e }

/-- `append_scanner_watch_subscription`. -/
def appendScannerWatchSubscription (s : Registry) (fd : Nat) (ownsFd : Bool) (r : Request) :
    Registry :=
  (s.pushEntry (r.entry fd ownsFd)).linkScannerWatchEntryToRoot s.count

/-- A device and an inode, as `fstat` reports them. -/
abbrev Identity := Nat × Nat

/-- What the calls of one registration return. -/
structure Answers where
  /-- Does `realloc` of the entries, and of the index, succeed? -/
  entriesGrow : Bool
  indexGrows : Bool
  /-- The descriptor from `open`. -/
  fd : Option Nat
  /-- `fstat` of that descriptor. -/
  openedStat : Option Identity
  /-- `fstat` of the descriptor of an entry. -/
  existingStat : Nat → Option Identity
  /-- Does `kevent` accept the watch? -/
  watched : Bool

/-- Both calls of `fstat` succeed, with the same device and inode. -/
def Answers.sameIdentity (a : Answers) (i : Nat) : Bool :=
  match a.openedStat, a.existingStat i with
  | some opened, some existing => existing = opened
  | _, _ => false

/-- How the search for a descriptor to share ends. -/
inductive SharedSearch where
  /-- The root has this subscription already. -/
  | subscribed
  /-- The root has another subscription to the directory. -/
  | conflict
  /-- The descriptor to share, if there is one. -/
  | done (sharedFd : Option Nat)
deriving DecidableEq

/-- The loop of `register_scanner_watch_entry` over the existing entries. -/
def searchShared (s : Registry) (r : Request) (a : Answers) : List Nat → Option Nat → SharedSearch
  | [], sharedFd => .done sharedFd
  | i :: rest, sharedFd =>
    let existing := s.entries i
    if !existing.fdShareable || existing.path ≠ r.path then searchShared s r a rest sharedFd
    else if some existing.fd ≠ sharedFd && !a.sameIdentity i then
      searchShared s r a rest sharedFd
    else if existing.scanRootIndex = r.scanRootIndex then
      if existing.kind = r.kind && existing.depth = r.depth then .subscribed else .conflict
    else searchShared s r a rest (sharedFd.or (some existing.fd))

/-- The last part of `register_scanner_watch_entry`: a descriptor of its own. -/
def registerOwner (s : Registry) (r : Request) (a : Answers) (fd : Nat) :
    Option (Bool × Registry) :=
  match s.ensureScannerWatchFdIndexCapacity a.indexGrows (s.count + 1) with
  | none => none
  | some (false, s) => some (false, s.close fd)
  | some (true, s) =>
    if !a.watched then some (false, s.close fd)
    else
      let index := s.count
      let s := s.appendScannerWatchSubscription fd true r
      match s.insertScannerWatchFdIndexEntry fd index with
      | none => none
      | some (true, s) => some (true, s)
      | some (false, s) =>
        let s := s.unlinkScannerWatchEntryFromRoot index
        let s := s.modifyEntry index fun _ => WatchEntry.zero
        let s := s.close fd
        let s := { s with count := s.count - 1 }
        (s.rebuildScannerWatchFdIndex a.indexGrows).map fun (_, s) => (false, s)

/-- `register_scanner_watch_entry`. -/
def registerScannerWatchEntry (s : Registry) (r : Request) (a : Answers) :
    Option (Bool × Registry) :=
  match s.ensureScannerWatchCapacity a.entriesGrow (s.count + 1) with
  | (false, s) => some (false, s)
  | (true, s) =>
    match a.fd with
    | none => some (true, s)
    | some fd =>
      let s := { s with log := .opened fd :: s.log }
      match s.searchShared r a (List.range s.count) none with
      | .subscribed => some (true, s.close fd)
      | .conflict => some (false, s.close fd)
      | .done (some sharedFd) =>
        some (true, (s.close fd).appendScannerWatchSubscription sharedFd false r)
      | .done none => s.registerOwner r a fd

/-- The entry that takes over the descriptor of a removed owner. -/
def heir (s : Registry) (index : Nat) : Option Nat :=
  (List.range s.count).find? fun i =>
    i ≠ index && (s.entries i).fd = (s.entries index).fd

/-- The part of `remove_scanner_watch_entry_at` that hands the descriptor on or
closes it. -/
def releaseFd (s : Registry) (index : Nat) : Registry :=
  if !(s.entries index).ownsFd then s
  else
    match s.heir index with
    | some i => s.modifyEntry i fun e => { e with ownsFd := true }
    | none => s.close (s.entries index).fd

/-- The part of `remove_scanner_watch_entry_at` that moves the last entry into
the hole. -/
def moveLast (s : Registry) (index : Nat) : Registry :=
  let last := s.count - 1
  if index ≠ last then
    (s.modifyEntry index fun _ => s.entries last).rebindScannerWatchEntryRootIndex last index
  else s

/-- The end of `remove_scanner_watch_entry_at`: the last entry is no longer
counted. -/
def dropLast (s : Registry) : Registry :=
  { s.modifyEntry (s.count - 1) fun _ => WatchEntry.zero with count := s.count - 1 }

/-- `remove_scanner_watch_entry_at`. -/
def removeScannerWatchEntryAt (s : Registry) (index : Nat) : Registry :=
  if s.count ≤ index then s
  else
    let s := s.unlinkScannerWatchEntryFromRoot index
    let s := s.releaseFd index
    (s.moveLast index).dropLast

/-- The loop that removes the head of a list until the list is empty.  The outcome
`none` is a loop that takes more rounds than there are entries. -/
def drainRoot (root : Fin maxScanPaths) : Nat → Bool → Registry → Option (Bool × Registry)
  | 0, _, _ => none
  | fuel + 1, removedAny, s =>
    match s.heads root with
    | none => some (removedAny, s)
    | some i => drainRoot root fuel true (s.removeScannerWatchEntryAt i)

/-- The index is rebuilt if anything was removed. -/
def finishRemoval (grows : Bool) : Bool × Registry → Option (Bool × Registry)
  | (false, s) => some (true, s)
  | (true, s) => s.rebuildScannerWatchFdIndex grows

/-- `remove_scan_root_watch_entries`. -/
def removeScanRootWatchEntries (s : Registry) (root : Fin maxScanPaths) (grows : Bool) :
    Option (Bool × Registry) :=
  (drainRoot root (s.count + 1) false s).bind (finishRemoval grows)

/-- The loop of `remove_scan_root_watch_entries_for_path`, which starts over at
the head after each removal. -/
def drainPath (root : Fin maxScanPaths) (path : Text) :
    Nat → Bool → Option Nat → Registry → Option (Bool × Registry)
  | 0, _, _, _ => none
  | _ + 1, removedAny, none, s => some (removedAny, s)
  | fuel + 1, removedAny, some i, s =>
    if pathMatchesRootOrChild (s.entries i).path path then
      let s := s.removeScannerWatchEntryAt i
      drainPath root path fuel true (s.heads root) s
    else drainPath root path fuel removedAny (s.entries i).nextRootWatchIndex s

/-- `remove_scan_root_watch_entries_for_path`. -/
def removeScanRootWatchEntriesForPath (s : Registry) (root : Fin maxScanPaths) (path : Text)
    (grows : Bool) : Option (Bool × Registry) :=
  (drainPath root path ((s.count + 1) * (s.count + 1)) false (s.heads root) s).bind
    (finishRemoval grows)

/-- The loop over all entries that removes the USB subscriptions. -/
def drainUsb : Nat → Nat → Bool → Registry → Option (Bool × Registry)
  | 0, _, _, _ => none
  | fuel + 1, i, removedAny, s =>
    if s.count ≤ i then some (removedAny, s)
    else if (s.entries i).scanRootIndex = none then
      drainUsb fuel i true (s.removeScannerWatchEntryAt i)
    else drainUsb fuel (i + 1) removedAny s

/-- The first part of `rebuild_scanner_usb_watches`. -/
def removeUsbWatchEntries (s : Registry) (grows : Bool) : Option (Bool × Registry) :=
  (drainUsb (s.count + 1) 0 false s).bind fun (_, s) => s.rebuildScannerWatchFdIndex grows

/-- The loop of `suspend_usb_scan_root_watch_trees` over the scan roots on USB
storage. -/
def drainRoots : List (Fin maxScanPaths) → Bool → Registry → Option (Bool × Registry)
  | [], removedAny, s => some (removedAny, s)
  | root :: rest, removedAny, s =>
    (drainRoot root (s.count + 1) removedAny s).bind fun (removedAny, s) =>
      drainRoots rest removedAny s

/-- `suspend_usb_scan_root_watch_trees`. -/
def suspendUsbScanRootWatchTrees (s : Registry) (usbRoots : List (Fin maxScanPaths))
    (grows : Bool) : Option (Bool × Registry) :=
  ((drainUsb (s.count + 1) 0 false s).bind fun (removedAny, s) =>
    drainRoots usbRoots removedAny s).bind (finishRemoval grows)

/-- `scanner_event_subscription_t`. -/
structure EventSubscription where
  scanRootIndex : ScanRoot
  depth : Nat
  kind : WatchKind

/-- The number of elements of the table of `process_scanner_events`. -/
def maxSubscriptions : Nat := maxScanPaths + 1

/-- The loop of `process_scanner_events` that copies the subscriptions of a
descriptor, and keeps the descriptor from being shared when the directory is gone.
It stops when its table is full. -/
def collectSubscriptions (ident : Nat) (immediate : Bool) :
    List Nat → List EventSubscription → Registry → Bool × List EventSubscription × Registry
  | [], subscriptions, s => (true, subscriptions, s)
  | i :: rest, subscriptions, s =>
    if (s.entries i).fd ≠ ident then collectSubscriptions ident immediate rest subscriptions s
    else
      let s := if immediate then s.modifyEntry i fun e => { e with fdShareable := false } else s
      if maxSubscriptions ≤ subscriptions.length then (false, subscriptions, s)
      else
        let e := s.entries i
        collectSubscriptions ident immediate rest
          (subscriptions ++ [⟨e.scanRootIndex, e.depth, e.kind⟩]) s

/-- The part of `process_scanner_events` that works on the registry, for one
vnode event. -/
def processVnodeEvent (s : Registry) (ident : Nat) (immediate : Bool) :
    Option (Bool × List EventSubscription × Registry) :=
  match s.findScannerWatchEntryByFd ident with
  | none => none
  | some none => some (true, [], s)
  | some (some _) => some (collectSubscriptions ident immediate (List.range s.count) [] s)

end Registry

open Registry

/-- An operation on the registry. -/
inductive Operation where
  | register (r : Request) (a : Answers)
  | removeRoot (root : Fin maxScanPaths) (grows : Bool)
  | removePath (root : Fin maxScanPaths) (path : Text) (grows : Bool)
  | removeUsb (grows : Bool)
  | suspendUsb (usbRoots : List (Fin maxScanPaths)) (grows : Bool)
  | event (ident : Nat) (immediate : Bool)
  | clear

/-- What an operation returns and leaves behind.  The outcome `none` is a loop
that does not end. -/
def Operation.apply (s : Registry) : Operation → Option (Bool × Registry)
  | .register r a => s.registerScannerWatchEntry r a
  | .removeRoot root grows => s.removeScanRootWatchEntries root grows
  | .removePath root path grows => s.removeScanRootWatchEntriesForPath root path grows
  | .removeUsb grows => s.removeUsbWatchEntries grows
  | .suspendUsb usbRoots grows => s.suspendUsbScanRootWatchTrees usbRoots grows
  | .event ident immediate =>
    (s.processVnodeEvent ident immediate).map fun (ok, _, s) => (ok, s)
  | .clear => some (true, s.clearScannerWatchEntries)

/-- Does the operation end with a rebuild of the index? -/
def Operation.rebuilds : Operation → Bool
  | .removeRoot .. | .removePath .. | .removeUsb .. | .suspendUsb .. => true
  | _ => false

/-- Does `realloc` of the index succeed, if the operation calls it? -/
def Operation.indexGrows : Operation → Bool
  | .register _ a => a.indexGrows
  | .removeRoot _ grows | .removePath _ _ grows | .removeUsb grows | .suspendUsb _ grows => grows
  | .event .. | .clear => true

/-- Is the descriptor open?  It is if the latest call on it was `open`. -/
def isOpen : List FdCall → Nat → Bool
  | [], _ => false
  | .opened fd :: log, x => fd = x || isOpen log x
  | .closed fd :: log, x => fd ≠ x && isOpen log x

/-- The kernel does not return a descriptor that is open. -/
def Operation.Admissible (s : Registry) : Operation → Prop
  | .register _ a => ∀ fd, a.fd = some fd → isOpen s.log fd = false
  | _ => True

/-- The registry in the hands of the scanner. -/
structure Scanner where
  registry : Registry
  /-- A removal has returned false because the index could not grow, and the
  registry was not cleared since.  The callers of a removal that returns false clear
  the registry before they go on. -/
  rebuildFailed : Bool

/-- The scanner after an operation. -/
def Scanner.after (s : Scanner) (op : Operation) (ok : Bool) (registry : Registry) : Scanner where
  registry := registry
  rebuildFailed := match op with
    | .clear => false
    | op => s.rebuildFailed || (op.rebuilds && !ok)

/-- Every sequence of operations, with every answer of the calls they make. -/
def system : System Scanner Operation where
  init s := s = ⟨Registry.empty, false⟩
  step s op t := op.Admissible s.registry ∧
    ∃ ok registry, op.apply s.registry = some (ok, registry) ∧ t = s.after op ok registry

end ShadowMount.WatchRegistry
