import ShadowMount.Config.Runtime
import ShadowMount.WatchRegistry.Model

/-!
# The watch tree of a scan root

{lit}`sm_scanner.c` keeps a watch on a scan root, on the directories below it that a scan looks
into, and on the directory above it.  Events on watched directories ask for a rebuild of a part of
the tree; the requests are merged into one pending rebuild for each root, which the main loop
executes after the next scan.

The watches are modelled as the list of the subscriptions that a root has in the registry.  The
answers of the system during one rebuild are the fields of a {lit}`View`.
-/

namespace ShadowMount.WatchTree

open Config WatchRegistry

/-- The errors that a walk tells apart. -/
inductive Failure where
  /-- `ENOENT` and `ENOTDIR`. -/
  | missing
  /-- `EACCES` and `EPERM`. -/
  | denied
  | other
deriving DecidableEq

/-- The field `d_type` of a directory entry. -/
inductive EntryType where
  | directory | regular | unknown | other
deriving DecidableEq

/-- What `readdir` returns. -/
structure DirEntry where
  name : Text
  type : EntryType
  name_ne : name ≠ []
  name_plain : '/' ∉ name

/-- The entries of an open directory, and the errors of `readdir` at their end and of
`closedir`. -/
structure Listing where
  entries : List DirEntry
  readError : Option Failure
  closeError : Option Failure

/-- The answers during one rebuild. -/
structure View where
  stat : StatView
  /-- Does `lstat` find a directory? -/
  lstat : Text → Except Failure Bool
  opendir : Text → Except Failure Listing
  /-- Is there memory for one more entry? -/
  grows : Text → Bool
  /-- The descriptor from `open`. -/
  openDirectory : Text → Option Nat
  /-- May the descriptor of an entry be shared, and is it of the directory the path names? -/
  sameDirectory : Nat → Text → Bool
  /-- Is the watch shared with another root, or accepted by the index and `kevent`? -/
  accepts : Text → Bool
  /-- Can the index of descriptors be rebuilt after a removal? -/
  indexRebuilds : Bool
  /-- What `should_stop_requested` or `runtime_sleep_mode_active` answer, by the number
  of earlier questions. -/
  halted : Nat → Bool
  /-- `sm_game_lifecycle_has_active_game` at such a moment. -/
  gameActive : Nat → Bool

/-- `get_scan_path`. -/
def getScanPath (config : RuntimeState) (scanRootIndex : Nat) : Option Text :=
  config.scanPaths[scanRootIndex]?

/-- `is_pfsc_image_mount_base_or_child`. -/
def isPfscImageMountBaseOrChild (path : Text) : Bool :=
  pathMatchesRootOrChild path pfscImageMountBase

/-- `MIN_SCAN_DEPTH`. -/
def minScanDepth : Nat := 1

/-- The field `scan_depth`. -/
def configuredDepth (config : RuntimeState) : Nat :=
  match config.scalar .scanDepth with
  | .number n => n
  | _ => 0

/-- `get_scan_depth_for_root`. -/
def getScanDepthForRoot (config : RuntimeState) (scanPath : Text) : Nat :=
  let scanDepth := max minScanDepth (configuredDepth config)
  if isPfscImageMountBaseOrChild scanPath then scanDepth + 1 else scanDepth

/-- `is_distinct_configured_scan_root`. -/
def isDistinctConfiguredScanRoot (config : RuntimeState) (currentScanRoot path : Text) : Bool :=
  config.scanPaths.any (fun scanPath => scanPath = path) && currentScanRoot ≠ path

/-- The loop of `resolve_game_param` over the names. -/
def findGameParam (stat : StatView) (basePath : Text) : List Text → Bool
  | [] => false
  | name :: rest =>
    let path := basePath ++ "/sce_sys/".toList ++ name
    if maxPath ≤ path.length then false
    else
      match stat path with
      | .found st => st.isRegular || findGameParam stat basePath rest
      | .missing | .notDirectory => findGameParam stat basePath rest
      | .failed => false

/-- `directory_has_game_param`. -/
def directoryHasGameParam (stat : StatView) (dirPath : Text) : Bool :=
  findGameParam stat dirPath ["param.json".toList, "param.sfo".toList]

/-- `sm_scan_tree_dir_visit_t`. -/
inductive DirVisit where
  | abort | skipDescend | descend
deriving DecidableEq

/-- `sm_scan_tree_callbacks_t`.  The callback for image files is `NULL` in every walk
over a watch tree. -/
structure Callbacks (σ : Type) where
  onDirectory : Text → Nat → σ → DirVisit × σ
  skipPermissionErrors : Bool

/-- The state of a walk: how often it asked whether to halt, and what its callbacks work on. -/
structure Walking (σ : Type) where
  polls : Nat
  data : σ

variable {σ : Type}

/-- Ask whether to halt. -/
def Walking.poll (w : Walking σ) (v : View) : Bool × Walking σ :=
  (v.halted w.polls, { w with polls := w.polls + 1 })

/-- `classify_scan_tree_entry`, for directories. -/
def classifyScanTreeEntry (v : View) (fullPath : Text) : EntryType → Except Failure Bool
  | .directory => .ok true
  | .regular | .other => .ok false
  | .unknown =>
    match v.lstat fullPath with
    | .ok isDir => .ok isDir
    | .error .missing => .ok false
    | .error failure => .error failure

/-- `DEFAULT_BACKPORTS_DIR_NAME`. -/
def defaultBackportsDirName : Text := "backports".toList

/-- The path of an entry. -/
def DirEntry.path (e : DirEntry) (dirPath : Text) : Text := dirPath ++ '/' :: e.name

/-- Is the entry passed over because of its name? -/
def DirEntry.skipped (e : DirEntry) (skipBackportsRoot : Bool) (dirPath : Text) : Bool :=
  e.name.head? = some '.' || (skipBackportsRoot && decide (e.name = defaultBackportsDirName)) ||
    decide (maxPath ≤ (e.path dirPath).length)

/-- How the loop over the entries ends. -/
inductive LoopEnd where
  | halted
  | aborted
  | ended (readError : Option Failure)
deriving DecidableEq

/-- The pauses of `sm_scan_tree_walk` for a running game: every 32 entries it sleeps and asks
again whether to halt. -/
def Walking.pace (w : Walking σ) (v : View) (entries : Nat) : Bool × Walking σ :=
  if entries % 32 = 0 && v.gameActive w.polls then w.poll v else (false, w)

/-- The loop of `sm_scan_tree_walk` over the entries of a directory. -/
def readEntries (v : View) (skipPermissionErrors skipBackportsRoot : Bool) (dirPath : Text)
    (readError : Option Failure) (descend : Text → Walking σ → Bool × Walking σ) :
    List DirEntry → Nat → Walking σ → LoopEnd × Walking σ
  | [], _, w =>
    match w.poll v with
    | (true, w) => (.halted, w)
    | (false, w) => (.ended readError, w)
  | entry :: rest, entries, w =>
    let next := readEntries v skipPermissionErrors skipBackportsRoot dirPath readError descend
      rest (entries + 1)
    match w.poll v with
    | (true, w) => (.halted, w)
    | (false, w) =>
    match w.poll v with
    | (true, w) => (.halted, w)
    | (false, w) =>
    match w.pace v (entries + 1) with
    | (true, w) => (.halted, w)
    | (false, w) =>
    if entry.skipped skipBackportsRoot dirPath then next w
    else
      match classifyScanTreeEntry v (entry.path dirPath) entry.type with
      | .error failure =>
        if skipPermissionErrors && failure = .denied then next w
        else (.ended (some failure), w)
      | .ok false => next w
      | .ok true =>
        match descend (entry.path dirPath) w with
        | (false, w) => (.aborted, w)
        | (true, w) => next w

/-- The result of a walk over a directory that could be opened. -/
def LoopEnd.result (skipPermissionErrors : Bool) (closeError : Option Failure) : LoopEnd → Bool
  | .halted => true
  | .aborted => false
  | .ended readError =>
    match readError.or closeError with
    | none => true
    | some failure => skipPermissionErrors && failure = .denied

/-- How `sm_scan_tree_walk` goes on after the first half of its body. -/
inductive Entered where
  | returns (ok : Bool)
  | descends
deriving DecidableEq

/-- The first half of the body of `sm_scan_tree_walk`. -/
def enterDirectory (v : View) (config : RuntimeState) (callbacks : Callbacks σ)
    (scanRoot dirPath : Text) (depthFromRoot : Nat) (w : Walking σ) : Entered × Walking σ :=
  match w.poll v with
  | (true, w) => (.returns true, w)
  | (false, w) =>
  if 0 < depthFromRoot && isDistinctConfiguredScanRoot config scanRoot dirPath then
    (.returns true, w)
  else
    match w.poll v with
    | (true, w) => (.returns true, w)
    | (false, w) =>
      match callbacks.onDirectory dirPath depthFromRoot w.data with
      | (.abort, data) => (.returns false, { w with data := data })
      | (.skipDescend, data) => (.returns true, { w with data := data })
      | (.descend, data) => (.descends, { w with data := data })

/-- Is the directory `backports` of a directory passed over? -/
def skipsBackports (scanRoot : Text) (depthFromRoot : Nat) : Bool :=
  depthFromRoot = 0 && !isUnderImageMountBase scanRoot

/-- `sm_scan_tree_walk`, by recursion on the remaining depth. -/
def smScanTreeWalk (v : View) (config : RuntimeState) (callbacks : Callbacks σ) (scanRoot : Text) :
    Nat → Text → Nat → Walking σ → Bool × Walking σ
  | 0, dirPath, depthFromRoot, w =>
    match enterDirectory v config callbacks scanRoot dirPath depthFromRoot w with
    | (.returns ok, w) => (ok, w)
    | (.descends, w) => (true, w)
  | remaining + 1, dirPath, depthFromRoot, w =>
    match enterDirectory v config callbacks scanRoot dirPath depthFromRoot w with
    | (.returns ok, w) => (ok, w)
    | (.descends, w) =>
      match v.opendir dirPath with
      | .error failure =>
        (failure = .missing || (callbacks.skipPermissionErrors && failure = .denied), w)
      | .ok listing =>
        let (loopEnd, w) := readEntries v callbacks.skipPermissionErrors
          (skipsBackports scanRoot depthFromRoot) dirPath listing.readError
          (fun path => smScanTreeWalk v config callbacks scanRoot remaining path
            (depthFromRoot + 1)) listing.entries 0 w
        (loopEnd.result callbacks.skipPermissionErrors listing.closeError, w)

/-- What a `scanner_watch_entry_t` of the root says. -/
structure Subscription where
  path : Text
  kind : WatchKind
  depth : Nat
  fd : Nat
deriving DecidableEq

/-- `register_scanner_watch_entry`, for the entries of one root. -/
def registerScannerWatchEntry (v : View) (path : Text) (kind : WatchKind) (depth : Nat)
    (watches : List Subscription) : Bool × List Subscription :=
  if !v.grows path then (false, watches)
  else
    match v.openDirectory path with
    | none => (true, watches)
    | some fd =>
      match watches.find? fun e => e.path = path && v.sameDirectory e.fd path with
      | some existing => (existing.kind = kind && existing.depth = depth, watches)
      | none =>
        if !v.accepts path then (false, watches)
        else (true, watches ++ [⟨path, kind, depth, fd⟩])

/-- The kind of the watch on a directory of the tree. -/
def kindAt (depthFromRoot : Nat) : WatchKind :=
  if depthFromRoot = 0 then .scanRoot else .scanSubdir

/-- `register_watch_directory_visit`.  The depth is cast to a byte. -/
def registerWatchDirectoryVisit (v : View) (scanDepth : Nat) (dirPath : Text)
    (depthFromRoot : Nat) (watches : List Subscription) : DirVisit × List Subscription :=
  if 0 < depthFromRoot && isUnderImageMountBase dirPath then (.skipDescend, watches)
  else if 0 < depthFromRoot &&
      (decide (scanDepth ≤ depthFromRoot) || directoryHasGameParam v.stat dirPath) then
    (.skipDescend, watches)
  else
    match registerScannerWatchEntry v dirPath (kindAt depthFromRoot) (depthFromRoot % 256)
        watches with
    | (true, watches) => (.descend, watches)
    | (false, watches) => (.abort, watches)

/-- The callbacks of the walks that watch directories. -/
def watchCallbacks (v : View) (scanDepth : Nat) : Callbacks (List Subscription) where
  onDirectory := registerWatchDirectoryVisit v scanDepth
  skipPermissionErrors := true

/-- `build_parent_directory_path`. -/
def buildParentDirectoryPath (path : Text) : Option Text :=
  if '/' ∉ path then none
  else
    let parent := (path.rdropWhile (· ≠ '/')).dropLast
    if parent = [] then some ['/'] else some (parent.take (maxPath - 1))

/-- `stat_directory_identity` succeeds. -/
def isDirectoryAt (stat : StatView) (path : Text) : Bool :=
  match stat path with
  | .found st => st.isDirectory
  | _ => false

/-- The loop of `resolve_existing_parent_directory_path`, which shortens the path in every
round but the last. -/
def findExistingParent (stat : StatView) : Nat → Text → Option Text
  | 0, _ => none
  | rounds + 1, current =>
    match buildParentDirectoryPath current with
    | none => none
    | some candidate =>
      if candidate = current then none
      else if isDirectoryAt stat candidate then some candidate
      else findExistingParent stat rounds candidate

/-- `resolve_existing_parent_directory_path`. -/
def resolveExistingParentDirectoryPath (stat : StatView) (path : Text) : Option Text :=
  findExistingParent stat (path.length + 1) path

/-- `register_scan_root_parent_watch`. -/
def registerScanRootParentWatch (v : View) (scanRoot : Text) (watches : List Subscription) :
    Bool × List Subscription :=
  match resolveExistingParentDirectoryPath v.stat scanRoot with
  | none => (true, watches)
  | some parent => registerScannerWatchEntry v parent .scanRootParent 0 watches

/-- The fields of `scanner_root_state_t` about the watch tree. -/
structure Pending where
  stale : Bool
  path : Text
  depth : Nat
  kind : WatchKind
deriving DecidableEq

/-- `clear_scan_root_watch_tree_state`. -/
def Pending.cleared : Pending := ⟨false, [], 0, .scanRoot⟩

/-- What the scanner holds for one root. -/
structure RootState where
  watches : List Subscription
  pending : Pending

/-- `resolve_watch_tree_rebuild_target`. -/
def resolveWatchTreeRebuildTarget (config : RuntimeState) (scanRootIndex : Nat)
    (subscription : Subscription) : Option (Text × Nat × WatchKind) :=
  match subscription.kind with
  | .scanRoot | .scanSubdir =>
    some (strlcpy maxPath subscription.path, subscription.depth, subscription.kind)
  | .scanRootParent => (getScanPath config scanRootIndex).map fun path => (path, 0, .scanRoot)
  | .usbParent | .usbRoot => none

/-- `schedule_scan_root_watch_tree_rebuild`.  The subscription is the one of the root to the
watched directory. -/
def scheduleScanRootWatchTreeRebuild (config : RuntimeState) (scanRootIndex : Nat)
    (state : Pending) (subscription : Subscription) : Pending :=
  match resolveWatchTreeRebuildTarget config scanRootIndex subscription with
  | none => state
  | some (rebuildPath, rebuildDepth, rebuildKind) =>
    if !state.stale || state.path = [] then
      ⟨true, strlcpy maxPath rebuildPath, rebuildDepth, rebuildKind⟩
    else if state.path = rebuildPath then
      { state with
        depth := if rebuildDepth < state.depth then rebuildDepth else state.depth
        kind := if rebuildKind = .scanRoot then rebuildKind else state.kind }
    else if pathMatchesRootOrChild rebuildPath state.path then state
    else if pathMatchesRootOrChild state.path rebuildPath then
      { state with
        depth := rebuildDepth
        kind := rebuildKind
        path := strlcpy maxPath rebuildPath }
    else
      ⟨true, (getScanPath config scanRootIndex).getD [], 0, .scanRoot⟩

/-- `remove_scan_root_watch_entries`. -/
def removeScanRootWatchEntries (v : View) (watches : List Subscription) :
    Bool × List Subscription :=
  (watches.isEmpty || v.indexRebuilds, [])

/-- `remove_scan_root_watch_entries_for_path`. -/
def removeScanRootWatchEntriesForPath (v : View) (path : Text) (watches : List Subscription) :
    Bool × List Subscription :=
  let removedAny := watches.any fun e => pathMatchesRootOrChild e.path path
  (!removedAny || v.indexRebuilds, watches.filter fun e => !pathMatchesRootOrChild e.path path)

/-- The result of a rebuild: the watches, and the pending request, which a success clears. -/
def RootState.rebuilt (s : RootState) (result : Bool × List Subscription) : Bool × RootState :=
  match result with
  | (true, watches) => (true, ⟨watches, .cleared⟩)
  | (false, watches) => (false, { s with watches := watches })

/-- The part of `rebuild_scan_root_watch_tree` after the removal. -/
def watchScanRoot (v : View) (config : RuntimeState) (scanRoot : Text)
    (watches : List Subscription) : Bool × List Subscription :=
  if !isDirectoryAt v.stat scanRoot then registerScanRootParentWatch v scanRoot watches
  else
    let scanDepth := getScanDepthForRoot config scanRoot
    match smScanTreeWalk v config (watchCallbacks v scanDepth) scanRoot scanDepth scanRoot 0
        ⟨0, watches⟩ with
    | (false, w) => (false, w.data)
    | (true, w) => registerScanRootParentWatch v scanRoot w.data

/-- `rebuild_scan_root_watch_tree`. -/
def rebuildScanRootWatchTree (v : View) (config : RuntimeState) (scanRootIndex : Nat)
    (s : RootState) : Bool × RootState :=
  match getScanPath config scanRootIndex with
  | none => (false, s)
  | some scanRoot =>
    match removeScanRootWatchEntries v s.watches with
    | (false, watches) => (false, { s with watches := watches })
    | (true, watches) => s.rebuilt (watchScanRoot v config scanRoot watches)

/-- The part of `rebuild_scan_root_watch_subtree` after the removal. -/
def watchSubtree (v : View) (config : RuntimeState) (scanRoot rebuildPath : Text)
    (rebuildDepth : Nat) (watches : List Subscription) : Bool × List Subscription :=
  let scanDepth := getScanDepthForRoot config scanRoot
  if scanDepth < rebuildDepth then (true, watches)
  else
    match smScanTreeWalk v config (watchCallbacks v scanDepth) scanRoot (scanDepth - rebuildDepth)
        rebuildPath rebuildDepth ⟨0, watches⟩ with
    | (ok, w) => (ok, w.data)

/-- `rebuild_scan_root_watch_subtree`. -/
def rebuildScanRootWatchSubtree (v : View) (config : RuntimeState) (scanRootIndex : Nat)
    (rebuildPath : Text) (rebuildDepth : Nat) (rebuildKind : WatchKind) (s : RootState) :
    Bool × RootState :=
  match getScanPath config scanRootIndex with
  | none => (false, s)
  | some scanRoot =>
    if rebuildPath = [] || rebuildKind = .scanRoot || decide (rebuildPath = scanRoot) then
      rebuildScanRootWatchTree v config scanRootIndex s
    else
      match removeScanRootWatchEntriesForPath v rebuildPath s.watches with
      | (false, watches) => (false, { s with watches := watches })
      | (true, watches) =>
        s.rebuilt (watchSubtree v config scanRoot rebuildPath rebuildDepth watches)

/-- The part of the main loop that executes what is pending: it takes the request, clears it, and
rebuilds after the scan. -/
def executePending (v : View) (config : RuntimeState) (scanRootIndex : Nat) (s : RootState) :
    Bool × RootState :=
  let pending := s.pending
  let s := { s with pending := .cleared }
  if pending.stale then
    rebuildScanRootWatchSubtree v config scanRootIndex pending.path pending.depth pending.kind s
  else (true, s)

end ShadowMount.WatchTree
