import ShadowMount.Foundation.Crashes
import ShadowMount.Foundation.Transition
import ShadowMount.FakelibCache.Tree

/-!
# The fakelib cache of a title

{lit}`sm_fakelib.c` keeps, for each title, a directory with the combined fakelib and a
manifest of what it was made from.  This file has the functions that build, check, use
and remove such a directory, as programs whose file system calls may fail, and that may
be stopped after any call.

The copy of one source is one call; if it fails, it leaves something in its place.
What ShellCore answers about a protected title and whether the mount table has the cache
are calls too: an error stands for a protected title, or for a cache that is mounted.
The world records which builds were published.
-/

namespace ShadowMount.FakelibCache

open Foundation

/-- A build that was published: what it was made from. -/
structure Build where
  manifest : Manifest
  sources : Sources

/-- The entries of the cache directory by their names, the source directories by their
paths, and the builds that were published. -/
structure World where
  cache : Text → Option Node
  sources : Sources
  builds : List Build

/-- A path below the cache directory, the outermost name first. -/
abbrev Path := List Text

/-- The node at a path below another one. -/
def lookup : Path → Option Node → Option Node
  | [], node => node
  | name :: path, node => lookup path (Node.child name node)

/-- Take away what is at a path. -/
def eraseAt : Path → Option Node → Option Node
  | [], _ => none
  | name :: path, some (.dir st entries) =>
    match eraseAt path (entries.find name) with
    | none => some (.dir st (entries.erase name))
    | some node => some (.dir st (entries.put name node))
  | _ :: _, node => node

namespace World

def node (w : World) : Path → Option Node
  | [] => none
  | name :: path => lookup path (w.cache name)

def setCache (w : World) (name : Text) (node : Option Node) : World :=
  { w with cache := fun n => if n = name then node else w.cache n }

def erase (w : World) : Path → World
  | [] => w
  | name :: path => w.setCache name (eraseAt path (w.cache name))

/-- Put an entry of a directory of the cache. -/
def putEntry (w : World) (name entry : Text) (new : Node) : World :=
  match w.cache name with
  | some (.dir st entries) => w.setCache name (some (.dir st (entries.put entry new)))
  | _ => w

def setSource (w : World) (path : Text) (node : Option Node) : World :=
  { w with sources := fun p => if p = path then node else w.sources p }

end World

def manifestName : Text := "manifest".toList

def fakelibName : Text := "fakelib".toList

/-- The name of the temporary cache of a title. -/
def tempName (titleId : Text) : Text := titleId ++ ".tmp".toList

/-- The calls that matter, and others. -/
inductive Call where
  /-- A call on whose failure `prepare_title_cache` returns at once. -/
  | guard
  /-- `sm_shellcore_title_is_protected` in `remove_title_cache`. -/
  | askProtected
  /-- `lstat` in `remove_title_cache`. -/
  | lookRoot
  /-- `unlink` of the manifest in `remove_title_cache`. -/
  | unlinkManifest (titleId : Text)
  /-- `unlink` or `rmdir`. -/
  | delete (path : Path)
  /-- `rename` of a temporary cache. -/
  | publish (titleId : Text)
  | other
deriving DecidableEq

/-- A failure, with what a failed copy leaves. -/
structure Fault where
  residue : Option Node

abbrev Program := Exec World Call Fault

/-- Ask for something; `none` when the call failed. -/
def look {α : Type} (c : Call) (ask : World → α) : Program (Option α) :=
  query c fun w => some (ask w)

/-- Do something, and say whether it succeeded. -/
def act (c : Call) (f : World → Except Fault World) : Program Bool := do
  return (← call c f).isNone

/-- A call that only succeeds or fails. -/
def attempt (c : Call) : Program Bool := act c fun w => .ok w

/-- `unlink` or `rmdir`. -/
def delete (path : Path) : Program Bool :=
  act (.delete path) fun w =>
    match w.node path with
    | some (.dir _ (.cons _ _ _)) => .error ⟨none⟩
    | _ => .ok (w.erase path)

/-- The length of a path with the cache directory in front. -/
def pathLength (path : Path) : Nat :=
  path.foldl (fun n name => n + 1 + name.length) "/data/shadowmount/cache".length

mutual

/-- `remove_cache_tree` for a node that was found. -/
def removeNode : Node → Path → Program Bool
  | .dir _ entries, path => do
    match ← attempt .other with
    | false => return false
    | true =>
      let removed ← removeEntries entries path
      let closed ← attempt .other
      if removed && closed then delete path else return false
  | .file _ _, path => delete path
  | .special _, path => delete path

/-- The loop of `remove_cache_tree`.  A failed `readdir` is taken for the end. -/
def removeEntries : Entries → Path → Program Bool
  | .nil, _ => do
    let _ ← attempt .other
    return true
  | .cons name node rest, path => do
    match ← attempt .other with
    | false => return true
    | true =>
      if pathLength (path ++ [name]) ≥ maxPath then return false
      else
        match ← attempt .other with
        | false => return false
        | true =>
          match ← removeNode node (path ++ [name]) with
          | true => removeEntries rest path
          | false => return false

end

/-- `remove_cache_tree`. -/
def removeCacheTree (path : Path) : Program Bool := do
  match ← look .other fun w => w.node path with
  | none => return false
  | some none => return true
  | some (some node) => removeNode node path

/-- `remove_title_cache`. -/
def removeTitleCache (titleId : Text) : Program Unit := do
  match ← attempt .askProtected with
  | false => return ()
  | true =>
    match ← look .lookRoot fun w => w.cache titleId with
    | some (some (.dir _ _)) =>
      let _ ← act (.unlinkManifest titleId) fun w =>
        match w.node [titleId, manifestName] with
        | some (.dir _ _) => .ok w
        | _ => .ok (w.erase [titleId, manifestName])
      match ← attempt .other with
      | false => return ()
      | true =>
        let _ ← removeCacheTree [titleId]
        return ()
    | some (some _) =>
      let _ ← delete [titleId]
      return ()
    | _ => return ()

/-- The tests of `read_cache_manifest` on a manifest of the right magic number and
version. -/
def Manifest.isValid (m : Manifest) : Bool :=
  let flags := m.recipe.flags
  (!flags.globalPriority || flags.hasGlobal) && m.recipe.gamePath.head? = some '/' &&
    (if flags.hasGlobal then m.recipe.globalPath.head? = some '/' else m.recipe.globalPath = []) &&
    (flags.hasGlobal || m.emulatorFileCount > 0 || flags.filtered)

/-- `read_cache_manifest`: the manifest and when it was last used. -/
def readManifest (root : Option Node) : Option (Manifest × Nat) :=
  match Node.child manifestName root with
  | some (.file st (.manifest m)) => if m.isValid then some (m, st.mtimeSec) else none
  | _ => none

/-- The entries of the fakelib directory of a cache. -/
def fakelibEntries (root : Option Node) : Option Entries :=
  Node.entries? (Node.child fakelibName root)

/-- `sm_fakelib_mode_t`. -/
inductive FakelibMode where
  | disabled | full | emulators
deriving DecidableEq

/-- The configuration that the functions read. -/
structure Config where
  backportFakelibEnabled : Bool
  fakelibMode : Text → FakelibMode
  updateEmulatorsEnabled : Bool
  emulatorsPath : Text
  globalFakelibEnabled : Bool
  globalFakelibExcluded : Text → Bool
  globalFakelibPath : Text
  globalFakelibGamePriority : Bool

/-- `FAKELIB_CACHE_PATH`. -/
def fakelibCachePath : Text := "/data/shadowmount/cache".toList

/-- `path_overlaps_fakelib_cache`. -/
def pathOverlapsFakelibCache (path : Text) : Bool :=
  pathMatchesRootOrChild path fakelibCachePath || pathMatchesRootOrChild fakelibCachePath path

/-- `resolve_global_fakelib_source`. -/
def resolveGlobal (cfg : Config) (titleId : Text) : Program (Option Text) := do
  if !cfg.globalFakelibEnabled || cfg.globalFakelibExcluded titleId then return none
  else
    match ← look .other fun w => (Node.entries? (w.sources cfg.globalFakelibPath)).isSome with
    | some true =>
      if pathOverlapsFakelibCache cfg.globalFakelibPath then return none
      else return some cfg.globalFakelibPath
    | _ => return none

/-- The global source beside a game source; a `fakelib2` is not composed with one. -/
def composedGlobal (cfg : Config) (titleId : Text) (exclusive : Bool) : Program (Option Text) :=
  if exclusive then pure none else resolveGlobal cfg titleId

/-- The first path that is a directory. -/
def firstDirectory : List (Text × Bool) → Program (Option (Text × Bool))
  | [] => return none
  | (path, exclusive) :: rest => do
    if path.length ≥ maxPath then firstDirectory rest
    else
      match ← look .other fun w => (Node.entries? (w.sources path)).isSome with
      | some true => return some (path, exclusive)
      | _ => firstDirectory rest

/-- What `prepare_title_cache` is called for.  The backport is what
`resolve_backport_path_for_title` has found. -/
structure Request where
  titleId : Text
  gamePath : Text
  backport : Option Text
  allowEmulatorUpdates : Bool
  now : Nat

/-- `resolve_game_fakelib_source_for_path`: the path, and whether it is a
`fakelib2`. -/
def resolveGameSource (r : Request) : Program (Option (Text × Bool)) :=
  let below (root : Text) : List (Text × Bool) :=
    [(root ++ "/fakelib2".toList, true), (root ++ "/fakelib".toList, false)]
  firstDirectory
    ((r.backport.map below).getD [] ++ if r.gamePath = [] then [] else below r.gamePath)

/-- `directory_entry_exists` for the kernel library. -/
def kernelExists (path : Text) : Program (Option Bool) :=
  look .guard fun w => (Node.child kernelName (w.sources path)).isSome

/-- The same for the global source, if there is one. -/
def globalKernelExists : Option Text → Program (Option Bool)
  | none => return some false
  | some path => kernelExists path

/-- `init_cache_context`. -/
def initContext (cfg : Config) (titleId gamePath : Text) (allowEmulatorUpdates exclusive : Bool) :
    Program (Option Recipe) := do
  let emulatorsOnly := cfg.fakelibMode titleId = .emulators
  let global := (← composedGlobal cfg titleId exclusive).filter fun path => path ≠ gamePath
  match ← kernelExists gamePath with
  | none => return none
  | some gameKernel =>
    match ← globalKernelExists global with
    | none => return none
    | some globalKernel =>
      return some {
        flags := {
          hasGlobal := global.isSome
          globalPriority := global.isSome && !cfg.globalFakelibGamePriority
          emulatorsOnly := emulatorsOnly
          package := !allowEmulatorUpdates
          exclusive := exclusive
          filtered := emulatorsOnly || gameKernel || globalKernel }
        gamePath := gamePath
        globalPath := global.getD []
        emulatorsPath :=
          if !exclusive && allowEmulatorUpdates && cfg.updateEmulatorsEnabled then
            cfg.emulatorsPath
          else [] }

/-- `compute_cache_context_signatures`. -/
def computeSignatures (recipe : Recipe) : Program (Option Manifest) := do
  return (← look .other fun w => recipe.manifest w.sources).join

/-- `cache_context_requires_cache`. -/
def Manifest.requiresCache (m : Manifest) : Bool :=
  m.recipe.flags.hasGlobal || m.emulatorFileCount > 0 || m.recipe.flags.filtered

/-- Copy one source into the temporary cache. -/
def copyStep (titleId : Text) (m : Manifest) (step : BuildStep) : Program Bool :=
  let temp := tempName titleId
  lossyCall .other
    (fun fault w => match fault.residue with
      | some node => w.putEntry temp fakelibName node
      | none => w)
    fun w =>
      match m.buildStep w.sources ((fakelibEntries (w.cache temp)).getD .nil) step with
      | some entries => some (w.putEntry temp fakelibName (.dir copiedStat entries))
      | none => none

def copySteps (titleId : Text) (m : Manifest) : List BuildStep → Program Bool
  | [] => return true
  | step :: rest => do
    match ← copyStep titleId m step with
    | true => copySteps titleId m rest
    | false => return false

/-- `write_cache_manifest` at a time; a failed write may leave a file that is no
manifest. -/
def writeManifest (titleId : Text) (m : Manifest) (now : Nat) : Program Bool :=
  lossyCall .other
    (fun fault w => match fault.residue with
      | some _ => w.putEntry (tempName titleId) manifestName (.file copiedStat (.bytes []))
      | none => w)
    fun w => some (w.putEntry (tempName titleId) manifestName
      (.file { copiedStat with mtimeSec := now } (.manifest m)))

/-- The part of `rebuild_fakelib_cache` that fills the temporary cache. -/
def fillTemporary (titleId : Text) (m : Manifest) (now : Nat) : Program Bool := do
  match ← copySteps titleId m m.buildSteps with
  | false => return false
  | true =>
    match ← computeSignatures m.recipe with
    | none => return false
    | some current => if current = m then writeManifest titleId m now else return false

/-- `rename` of the temporary cache. -/
def publish (titleId : Text) (m : Manifest) : Program Bool :=
  act (.publish titleId) fun w =>
    match w.cache (tempName titleId), w.cache titleId with
    | some node, none | some node, some (.dir _ .nil) =>
      .ok { (w.setCache titleId (some node)).setCache (tempName titleId) none with
        builds := ⟨m, w.sources⟩ :: w.builds }
    | _, _ => .error ⟨none⟩

/-- Give up a build. -/
def discardTemporary (titleId : Text) : Program Bool := do
  let _ ← removeCacheTree [tempName titleId]
  return false

/-- `mkdir` of the temporary cache. -/
def makeTemporary (titleId : Text) : Program Bool :=
  act .other fun w =>
    if (w.cache (tempName titleId)).isSome then .error ⟨none⟩
    else .ok (w.setCache (tempName titleId) (some (.dir copiedStat .nil)))

/-- `rebuild_fakelib_cache`. -/
def rebuild (titleId : Text) (m : Manifest) (now : Nat) : Program Bool := do
  match ← removeCacheTree [tempName titleId] with
  | false => return false
  | true =>
    match ← makeTemporary titleId with
    | false => return false
    | true =>
      match ← fillTemporary titleId m now with
      | false => discardTemporary titleId
      | true =>
        match ← attempt .other with
        | false => discardTemporary titleId
        | true =>
          match ← removeCacheTree [titleId] with
          | false => discardTemporary titleId
          | true =>
            match ← publish titleId m with
            | true => return true
            | false => discardTemporary titleId

/-- `remove_fakelib_kernel`. -/
def removeKernel (path : Text) : Program Bool := do
  match ← kernelExists path with
  | none => return false
  | some false => return true
  | some true =>
    act .guard fun w =>
      match w.sources path with
      | some (.dir st entries) =>
        .ok (w.setSource path (some (.dir st (entries.erase kernelName))))
      | _ => .ok w

/-- The title has its fakelib enabled. -/
def Config.isEnabled (cfg : Config) (titleId : Text) : Bool :=
  cfg.backportFakelibEnabled && cfg.fakelibMode titleId ≠ .disabled

/-- The kernel libraries that `prepare_title_cache` removes first. -/
def removeKernels (cfg : Config) (r : Request) (source : Text) (exclusive : Bool) :
    Program Bool := do
  if r.allowEmulatorUpdates && !isUnderImageMountBase r.gamePath then
    match ← removeKernel source with
    | false => return false
    | true =>
      match ← composedGlobal cfg r.titleId exclusive with
      | none => return true
      | some global => removeKernel global
  else return true

/-- The published cache is the one of a context. -/
def isCurrent (titleId : Text) (m : Manifest) : Program Bool := do
  match ← look .other fun w => (fakelibEntries (w.cache titleId)).isSome with
  | some true =>
    match ← look .other fun w => readManifest (w.cache titleId) with
    | some (some (found, _)) => return found = m
    | _ => return false
  | _ => return false

/-- `prepare_title_cache`, for the source that it has found. -/
def prepareSource (cfg : Config) (r : Request) (source : Text) (exclusive : Bool) :
    Program Unit := do
  match ← removeKernels cfg r source exclusive with
  | false => return ()
  | true =>
    match ← initContext cfg r.titleId source r.allowEmulatorUpdates exclusive with
    | none => return ()
    | some recipe =>
      match ← computeSignatures recipe with
      | none => removeTitleCache r.titleId
      | some m =>
        if !m.requiresCache then removeTitleCache r.titleId
        else
          match ← attempt .guard with
          | false => return ()
          | true =>
            match ← isCurrent r.titleId m with
            | true => return ()
            | false =>
              match ← rebuild r.titleId m r.now with
              | true => return ()
              | false => removeTitleCache r.titleId

/-- The source of a title: its own, or the global one. -/
def resolveSource (cfg : Config) (r : Request) : Program (Option (Text × Bool)) := do
  match ← resolveGameSource r with
  | some found => return some found
  | none => return (← resolveGlobal cfg r.titleId).map fun path => (path, false)

/-- `prepare_title_cache`. -/
def prepareTitleCache (cfg : Config) (r : Request) : Program Unit := do
  if !isSupportedGameTitleId r.titleId then return ()
  else if !cfg.isEnabled r.titleId then return ()
  else
    match ← resolveSource cfg r with
    | none => removeTitleCache r.titleId
    | some (source, exclusive) =>
      if pathOverlapsFakelibCache source then removeTitleCache r.titleId
      else prepareSource cfg r source exclusive

/-- `touch_cache_manifest`. -/
def touchManifest (titleId : Text) (now : Nat) : Program Bool :=
  act .other fun w =>
    match w.node [titleId, manifestName] with
    | some (.file st content) =>
      .ok (w.putEntry titleId manifestName (.file { st with mtimeSec := now } content))
    | _ => .error ⟨none⟩

/-- What `resolve_cached_fakelib` is called for. -/
structure Lookup where
  titleId : Text
  gamePath : Text
  allowEmulatorUpdates : Bool
  exclusive : Bool
  now : Nat

/-- `resolve_cached_fakelib`: the content of the directory that it yields. -/
def resolveCachedFakelib (cfg : Config) (l : Lookup) : Program (Option Entries) := do
  if !isSupportedGameTitleId l.titleId then return none
  else
    match ← initContext cfg l.titleId l.gamePath l.allowEmulatorUpdates l.exclusive with
    | none => return none
    | some recipe =>
      match ← look .other fun w => readManifest (w.cache l.titleId) with
      | some (some (m, _)) =>
        if m.recipe = recipe then
          match ← look .other fun w => fakelibEntries (w.cache l.titleId) with
          | some (some entries) =>
            let _ ← touchManifest l.titleId l.now
            return some entries
          | _ => return none
        else return none
      | _ => return none

/-- `FAKELIB_CACHE_MAX_AGE_SECONDS`. -/
def cacheMaxAge : Nat := 7 * 24 * 60 * 60

/-- `parse_temporary_cache_title_id`: the name is a temporary cache of a title. -/
def isTemporaryName (name : Text) : Bool :=
  name.length > 4 && name.drop (name.length - 4) = ".tmp".toList &&
    isSupportedGameTitleId (name.take (name.length - 4))

/-- One entry of `cleanup_expired_fakelib_caches`. -/
def cleanupEntry (now : Nat) (name : Text) : Program Unit := do
  if isTemporaryName name then
    match ← attempt .other with
    | false => return ()
    | true =>
      let _ ← removeCacheTree [name]
      return ()
  else if !isSupportedGameTitleId name then return ()
  else
    match ← attempt .other with
    | false => return ()
    | true =>
      match ← attempt .other with
      | false => return ()
      | true =>
        match ← look .other fun w => readManifest (w.cache name) with
        | some (some (_, lastUsed)) =>
          if lastUsed > 0 && (lastUsed > now || now - lastUsed ≤ cacheMaxAge) then return ()
          else
            let _ ← removeCacheTree [name]
            return ()
        | _ =>
          let _ ← removeCacheTree [name]
          return ()

/-- `cleanup_expired_fakelib_caches`, for the names that the directory lists. -/
def cleanupExpired (now : Nat) : List Text → Program Unit
  | [] => return ()
  | name :: rest => do
    cleanupEntry now name
    cleanupExpired now rest

/-- The calls of the component, and changes of the source directories.  A call may be
stopped after some number of file system calls. -/
inductive Step where
  | change (sources : Sources)
  | prepare (cfg : Config) (r : Request) (answers : Nat → Answer Fault) (stop : Option Nat)
  | resolve (cfg : Config) (l : Lookup) (answers : Nat → Answer Fault) (stop : Option Nat)
  | cleanup (now : Nat) (names : List Text) (answers : Nat → Answer Fault) (stop : Option Nat)

abbrev Log := List (Event World Call Fault)

/-- A machine at the start of a call. -/
def World.start (w : World) (answers : Nat → Answer Fault) : Machine World Call Fault :=
  ⟨answers, 0, w, []⟩

/-- The world and the log of a call that has ended, or was stopped. -/
def ended (w : World) (m : Machine World Call Fault) : Option Nat → World × Log
  | none => (m.world, m.log)
  | some n => stopped w m.log n

/-- The world after a step, and the file system calls that were made. -/
def run (w : World) : Step → World × Log
  | .change sources => ({ w with sources := sources }, [])
  | .prepare cfg r answers stop => ended w (prepareTitleCache cfg r (w.start answers)).2 stop
  | .resolve cfg l answers stop => ended w (resolveCachedFakelib cfg l (w.start answers)).2 stop
  | .cleanup now names answers stop => ended w (cleanupExpired now names (w.start answers)).2 stop

/-- The world at program start: the cache directory is empty. -/
def World.initial : World where
  cache := fun _ => none
  sources := fun _ => none
  builds := []

/-- Every history. -/
def system : System World Step := System.ofFunction World.initial fun w op => (run w op).1

end ShadowMount.FakelibCache
