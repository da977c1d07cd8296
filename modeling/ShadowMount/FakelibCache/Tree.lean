import ShadowMount.Foundation.LittleEndian
import ShadowMount.Paths

/-!
# Fakelib cache - Directories, signatures and builds

The directories that {lit}`sm_fakelib.c` reads and writes are trees.  A signature of a
directory is made of the names and the file status of what is in it; the cache of a
title is the result of copying the files of the game, the global directory and the
emulators over one another.

Copies are told apart by their content only: the status of a copied file is of no
interest here.
-/

namespace ShadowMount.FakelibCache

open Foundation

/-- The fields of `struct stat` that the functions read. -/
structure Stat where
  device : Nat
  inode : Nat
  size : Nat
  mode : Nat
  mtimeSec : Nat
  mtimeNsec : Nat
  ctimeSec : Nat
  ctimeNsec : Nat
deriving DecidableEq

/-- `fakelib_cache_signature_t`. -/
structure Signature where
  xorHash : UInt64
  sumHash : UInt64
  entryCount : UInt64
deriving DecidableEq

/-- A signature of zeros. -/
def Signature.zero : Signature := ⟨0, 0, 0⟩

/-- `cache_hash_bytes`. -/
def cacheHashBytes (hash : UInt64) (bytes : List UInt8) : UInt64 :=
  bytes.foldl (fun hash byte => (hash ^^^ byte.toUInt64) * 1099511628211) hash

/-- The hash of one entry in `cache_signature_add`. -/
def entryHash (relativePath : Text) (st : Stat) : UInt64 :=
  let path := relativePath.map fun c => UInt8.ofNat c.toNat
  let fields := littleEndian 8 st.size ++ littleEndian 2 st.mode ++
    littleEndian 8 st.mtimeSec ++ littleEndian 8 st.mtimeNsec ++
    littleEndian 8 st.ctimeSec ++ littleEndian 8 st.ctimeNsec
  cacheHashBytes (cacheHashBytes 1469598103934665603 path) fields

/-- `cache_signature_add`. -/
def Signature.add (s : Signature) (relativePath : Text) (st : Stat) : Signature where
  xorHash := s.xorHash ^^^ entryHash relativePath st
  sumHash := s.sumHash + entryHash relativePath st
  entryCount := s.entryCount + 1

/-- The flags of a cache. -/
structure Flags where
  hasGlobal : Bool
  globalPriority : Bool
  emulatorsOnly : Bool
  package : Bool
  exclusive : Bool
  filtered : Bool
deriving DecidableEq

/-- What a cache is made from: the part of a context that a lookup compares. -/
structure Recipe where
  flags : Flags
  gamePath : Text
  globalPath : Text
  emulatorsPath : Text
deriving DecidableEq

/-- `fakelib_cache_context_t`, which is also what a manifest of the right magic
number and version holds. -/
structure Manifest where
  recipe : Recipe
  emulatorFileCount : Nat
  gameSignature : Signature
  globalSignature : Signature
  emulatorFilesSignature : Signature
deriving DecidableEq

/-- The content of a file: a manifest, or bytes that are none. -/
inductive Content where
  | manifest (m : Manifest)
  | bytes (data : List UInt8)
deriving DecidableEq

mutual

/-- A regular file, a directory, or another node. -/
inductive Node where
  | file (st : Stat) (content : Content)
  | dir (st : Stat) (entries : Entries)
  | special (st : Stat)

/-- The entries of a directory, in the order in which they are listed. -/
inductive Entries where
  | nil
  | cons (name : Text) (node : Node) (rest : Entries)

end

/-- The entry with a name. -/
def Entries.find (name : Text) : Entries → Option Node
  | .nil => none
  | .cons n node rest => if n = name then some node else rest.find name

/-- Put an entry; a new one is listed last. -/
def Entries.put (name : Text) (node : Node) : Entries → Entries
  | .nil => .cons name node .nil
  | .cons n old rest => if n = name then .cons n node rest else .cons n old (rest.put name node)

/-- Take an entry away. -/
def Entries.erase (name : Text) : Entries → Entries
  | .nil => .nil
  | .cons n node rest => if n = name then rest.erase name else .cons n node (rest.erase name)

/-- The entries of a directory, none for another node. -/
def Node.entries? : Option Node → Option Entries
  | some (.dir _ entries) => some entries
  | _ => none

/-- The entry of a directory. -/
def Node.child (name : Text) (node : Option Node) : Option Node :=
  (Node.entries? node).bind (Entries.find name)

/-- A regular file. -/
def Node.regular? : Option Node → Option (Stat × Content)
  | some (.file st content) => some (st, content)
  | _ => none

/-- The path of an entry below the root of a source. -/
def relativeChild (relative name : Text) : Text :=
  if relative = [] then name else relative ++ '/' :: name

mutual

/-- The part of `compute_tree_signature` for one entry. -/
def nodeSignature (root relative : Text) : Node → Signature → Option Signature
  | .file st _, s => some (s.add relative st)
  | .special _, _ => none
  | .dir st entries, s => treeSignature root relative entries (s.add relative st)

/-- `compute_tree_signature`. -/
def treeSignature (root relative : Text) : Entries → Signature → Option Signature
  | .nil, s => some s
  | .cons name node rest, s =>
    if (relativeChild relative name).length + 1 + root.length < maxPath then
      match nodeSignature root (relativeChild relative name) node s with
      | some s => treeSignature root relative rest s
      | none => none
    else none

end

/-- `fakelib_emulator_names`, those that the flags allow. -/
def emulatorNames (flags : Flags) : List Text :=
  ["libSceAppContent.sprx".toList, "libSceGameUpdate.sprx".toList,
    "libSceNpEntitlementAccess.sprx".toList] ++
    if flags.package then [] else ["libSceAmpr.sprx".toList, "libScePlayGo.sprx".toList]

def kernelName : Text := "libkernel.sprx".toList

/-- `compute_fakelib_signature`. -/
def fakelibSignature (flags : Flags) (root : Text) (source : Option Node) : Option Signature :=
  if flags.emulatorsOnly then
    some ((emulatorNames flags).foldl (fun s name =>
      match Node.regular? (Node.child name source) with
      | some (st, _) => s.add name st
      | none => s) Signature.zero)
  else
    match Node.entries? source with
    | none => none
    | some entries => treeSignature root [] entries Signature.zero

/-- The entries of the emulator directory that `compute_emulator_files_signature` and
`copy_emulator_files_to_cache` pick: regular files of the game as well that are other
files, and not in the directory of higher priority. -/
def matchingEmulators (flags : Flags) (game higher : Option Node) :
    Entries → List (Text × Stat × Content)
  | .nil => []
  | .cons name node rest =>
    let others := matchingEmulators flags game higher rest
    if name = kernelName || (flags.emulatorsOnly && !(emulatorNames flags).contains name) then
      others
    else
      match Node.regular? (some node), Node.regular? (Node.child name game) with
      | some (st, content), some (gameSt, _) =>
        if (Node.child name higher).isSome ||
            (st.device = gameSt.device && st.inode = gameSt.inode) then others
        else (name, st, content) :: others
      | _, _ => others

/-- The source file systems: directories by their path. -/
abbrev Sources := Text → Option Node

/-- The emulator files of a recipe; `none` when there is no directory but another
node. -/
def Recipe.emulators (r : Recipe) (sources : Sources) : Option (List (Text × Stat × Content)) :=
  let higher := if r.flags.globalPriority then sources r.globalPath else none
  match sources r.emulatorsPath with
  | none => some []
  | some (.dir _ entries) => some (matchingEmulators r.flags (sources r.gamePath) higher entries)
  | some _ => none

/-- `compute_emulator_files_signature`: the signature and the number of files. -/
def emulatorFilesSignature (r : Recipe) (sources : Sources) : Option (Signature × Nat) :=
  match r.emulators sources with
  | none => none
  | some files =>
    some (files.foldl (fun s f => s.add f.1 f.2.1) Signature.zero, files.length)

/-- The signature of the global source, zeros without one. -/
def Recipe.globalSignature (r : Recipe) (sources : Sources) : Option Signature :=
  if r.flags.hasGlobal then fakelibSignature r.flags r.globalPath (sources r.globalPath)
  else some Signature.zero

/-- The signature and the number of the emulator files. -/
def Recipe.emulatorSignature (r : Recipe) (sources : Sources) : Option (Signature × Nat) :=
  if r.emulatorsPath ≠ [] then emulatorFilesSignature r sources else some (Signature.zero, 0)

/-- `compute_cache_context_signatures`, when no call fails. -/
def Recipe.manifest (r : Recipe) (sources : Sources) : Option Manifest := do
  let game ← fakelibSignature r.flags r.gamePath (sources r.gamePath)
  let global ← r.globalSignature sources
  let emulators ← r.emulatorSignature sources
  return ⟨r, emulators.2, game, global, emulators.1⟩

/-- The status of a copy. -/
def copiedStat : Stat := ⟨0, 0, 0, 0, 0, 0, 0, 0⟩

mutual

/-- Copy a node over what is at the destination, as `copy_dir_with_mode` does. -/
def copyNode : Node → Option Node → Option Node
  | .file _ content, _ => some (.file copiedStat content)
  | .special _, _ => none
  | .dir _ entries, target =>
    (copyEntries entries ((Node.entries? target).getD .nil)).map (.dir copiedStat)

/-- Copy the entries of a directory into another one. -/
def copyEntries : Entries → Entries → Option Entries
  | .nil, target => some target
  | .cons name node rest, target =>
    match copyNode node (target.find name) with
    | some copy => copyEntries rest (target.put name copy)
    | none => none

end

/-- `copy_fakelib_source`. -/
def copySource (flags : Flags) (source : Option Node) (target : Entries) : Option Entries :=
  if flags.emulatorsOnly then
    some ((emulatorNames flags).foldl (fun target name =>
      match Node.regular? (Node.child name source) with
      | some (_, content) => target.put name (.file copiedStat content)
      | none => target) target)
  else
    match Node.entries? source with
    | none => none
    | some entries => (copyEntries entries target).map (Entries.erase kernelName)

/-- `copy_emulator_files_to_cache`. -/
def copyEmulators (files : List (Text × Stat × Content)) (target : Entries) : Entries :=
  files.foldl (fun target f => target.put f.1 (.file copiedStat f.2.2)) target

/-- The steps of a build that `rebuild_fakelib_cache` takes one after the other. -/
inductive BuildStep where
  | game | global | emulators
deriving DecidableEq

/-- What is copied, in this order. -/
def Manifest.buildSteps (m : Manifest) : List BuildStep :=
  let flags := m.recipe.flags
  (if flags.hasGlobal && !flags.globalPriority then [.global, .game] else [.game]) ++
    (if m.emulatorFileCount > 0 then [.emulators] else []) ++
    (if flags.hasGlobal && flags.globalPriority then [.global] else [])

/-- One step of a build.  The number of copied emulator files must be the expected one. -/
def Manifest.buildStep (m : Manifest) (sources : Sources) (target : Entries) :
    BuildStep → Option Entries
  | .game => copySource m.recipe.flags (sources m.recipe.gamePath) target
  | .global => copySource m.recipe.flags (sources m.recipe.globalPath) target
  | .emulators =>
    match m.recipe.emulators sources with
    | none => none
    | some files =>
      if files.length = m.emulatorFileCount then some (copyEmulators files target) else none

/-- The complete result of a build. -/
def Manifest.build (m : Manifest) (sources : Sources) : Option Entries :=
  m.buildSteps.foldlM (m.buildStep sources) .nil

end ShadowMount.FakelibCache
