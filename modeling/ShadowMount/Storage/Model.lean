import ShadowMount.Foundation.Faults
import ShadowMount.Storage.Tree

/-!
# Storage - copying, moving and deleting trees

The transfers of {lit}`sm_storage.c`.  A transfer is between two places that are
not inside one another, which is what {lit}`valid_storage_transfer_paths` checks, so
the world has one tree at each.  Names, kinds and data are kept; permissions, times
and progress reports are left out.  A call that is repeated after {lit}`EINTR` is one
call, and the reader thread of {lit}`copy_file_read_ahead` is modelled by the
sequential loop it stands for.

The recursion over the source follows the tree that the directory streams list; the
source is not changed by anybody else.
-/

namespace ShadowMount.Storage

open Foundation
open Errno

/-- The two places of a transfer. -/
inductive Side where
  | source | destination
deriving DecidableEq

/-- The trees at both places, and the files of the destination whose data has not been
flushed. -/
structure World where
  source : Option Tree
  destination : Option Tree
  unflushed : List Path

def World.tree (w : World) : Side → Option Tree
  | .source => w.source
  | .destination => w.destination

/-- The calls, with what they are about. -/
inductive Call where
  | cancelled
  | validate
  | malloc
  | joinPath (side : Side) (path : Path)
  | lstat (side : Side) (path : Path)
  | rename
  | openFile (side : Side) (path : Path)
  | read (path : Path)
  | write (path : Path)
  | fchmod (path : Path)
  | startFsync (path : Path)
  | fdatasync (path : Path)
  | close (side : Side) (path : Path)
  | mkdir (path : Path)
  | opendir (side : Side) (path : Path)
  | readdir (side : Side) (path : Path)
  | closedir (side : Side) (path : Path)
  | unlink (side : Side) (path : Path)
  | rmdir (side : Side) (path : Path)
  | beginFinalize
deriving DecidableEq

/-- What a call is made for: the transfer itself, the removal of an unfinished
destination, or the removal of the source. -/
inductive Phase where
  | transfer | cleanup | removal
deriving DecidableEq

structure Step where
  phase : Phase
  call : Call
deriving DecidableEq

abbrev Program (α : Type) := Exec World Step Errno α

/-- A function that returns 0, or -1 with `errno`. -/
abbrev Action := Program (Option Errno)

/-- The parameters of a transfer. -/
structure Options where
  sourceRoot : Text
  destinationRoot : Text
  /-- `sm_smb_path` of the two paths. -/
  remoteSource : Bool
  remoteDestination : Bool
  /-- A `begin_finalize` callback is given. -/
  finalize : Bool

def Options.root (opts : Options) : Side → Text
  | .source => opts.sourceRoot
  | .destination => opts.destinationRoot

/-- Change the tree of a side. -/
def World.setTree (w : World) (side : Side) (t : Option Tree) : World :=
  match side with
  | .source => { w with source := t }
  | .destination => { w with destination := t }

/-- A file appears, empty and not flushed. -/
def World.create (path : Path) (w : World) : Except Errno World :=
  if (lookup path w.destination).isSome then .error .EEXIST
  else .ok { w with
    destination := setAt path (some (.file [])) w.destination
    unflushed := path :: w.unflushed }

/-- Add data to a file. -/
def appendBytes (chunk : Bytes) : Option Tree → Option Tree
  | some (.file bytes) => some (.file (bytes ++ chunk))
  | t => t

def World.write (path : Path) (chunk : Bytes) (w : World) : Except Errno World :=
  .ok { w with destination := modifyAt path (appendBytes chunk) w.destination }

def World.flush (path : Path) (w : World) : Except Errno World :=
  .ok { w with unflushed := w.unflushed.filter fun q => decide (q ≠ path) }

def World.mkdir (path : Path) (w : World) : Except Errno World :=
  if (lookup path w.destination).isSome then .error .EEXIST
  else .ok { w with destination := setAt path (some (.dir .nil)) w.destination }

def World.unlink (side : Side) (path : Path) (w : World) : Except Errno World :=
  match lookup path (w.tree side) with
  | none => .error .ENOENT
  | some (.dir _) => .error .EINVAL
  | some _ => .ok (w.setTree side (setAt path none (w.tree side)))

def World.rmdir (side : Side) (path : Path) (w : World) : Except Errno World :=
  match lookup path (w.tree side) with
  | some (.dir .nil) => .ok (w.setTree side (setAt path none (w.tree side)))
  | some _ => .error .ENOTEMPTY
  | none => .error .ENOENT

def World.rename (w : World) : Except Errno World :=
  .ok { w with source := none, destination := w.source }

/-- A call with an effect. -/
def act (phase : Phase) (c : Call) (effect : World → Except Errno World) : Action :=
  call ⟨phase, c⟩ effect

/-- A call that changes neither tree. -/
def ask (phase : Phase) (c : Call) : Action := act phase c Except.ok

/-- `storage_operation_cancelled`. -/
def cancelled : Action := do
  match ← ask .transfer .cancelled with
  | some _ => return some .ECANCELED
  | none => return none

/-- `lstat` of the destination, which must not exist. -/
def lstatDestination : Action := do
  let error ← ask .transfer (.lstat .destination [])
  let w ← currentWorld
  return match error with
    | some .ENOENT | none => if w.destination.isSome then some .EEXIST else none
    | some e => some e

/-- `join_storage_path`. -/
def joinStoragePath (opts : Options) (phase : Phase) (side : Side) (path : Path) : Action :=
  act phase (.joinPath side path) fun w =>
    if maxPath ≤ (opts.root side).length + (path.map fun name => 1 + name.length).sum then
      .error .ENAMETOOLONG
    else .ok w

/-- The first error, as `saved_errno` keeps it. -/
def orElse (result error : Option Errno) : Option Errno :=
  match result with
  | some e => some e
  | none => error

/-- A step that is skipped after an error. -/
def unlessFailed (status : Option Errno) (action : Action) : Action :=
  match status with
  | some e => return some e
  | none => action

/-- A step that is not always made. -/
def onlyIf (condition : Bool) (action : Action) : Action :=
  if condition then action else return none

/-- `STORAGE_PENDING_FILES`. -/
def storagePendingFiles : Nat := 4

/-- `finish_pending_file`. -/
def finishPendingFile (path : Path) (status : Option Errno) : Action := do
  let status ← unlessFailed status cancelled
  let status ← unlessFailed status (act .transfer (.fdatasync path) (World.flush path))
  let closed ← ask .transfer (.close .destination path)
  return orElse status closed

/-- `finish_oldest_file`: the result and the files that still wait. -/
def finishOldestFile (pending : List Path) (status : Option Errno) :
    Program (Option Errno × List Path) :=
  match pending with
  | [] => return (none, [])
  | path :: rest => do
    let result ← finishPendingFile path status
    return (result, rest)

/-- The loop of `finish_pending_files`. -/
def finishPendingFiles : List Path → Option Errno → Action
  | [], status => return status
  | path :: rest, status => do
    let result ← finishPendingFile path status
    finishPendingFiles rest (orElse status result)

/-- `STORAGE_COPY_BUFFER_SIZE`. -/
def storageCopyBufferSize : Nat := 4 * 1024 * 1024

/-- `storage_read_size`. -/
def storageReadSize (sourceSize completed capacity : Nat) : Nat :=
  if sourceSize < completed then capacity
  else if sourceSize - completed = 0 then 1
  else min (sourceSize - completed) capacity

/-- `write_storage_buffer`. -/
def writeStorageBuffer (path : Path) (buffer : Bytes) : Action :=
  if buffer = [] then return none
  else do
    match ← cancelled with
    | some e => return some e
    | none =>
      match ← countedCall ⟨.transfer, .write path⟩ fun count =>
        World.write path (buffer.take count) with
      | (some e, _) => return some e
      | (none, count) =>
        if _h : count = 0 then return some EIO
        else writeStorageBuffer path (buffer.drop count)
termination_by buffer.length
decreasing_by
  have hne : buffer.length ≠ 0 := by simpa using ‹¬buffer = []›
  rw [List.length_drop]
  omega

/-- The loop of `copy_regular_file` over the rest of the source. -/
def copyData (path : Path) (sourceSize : Nat) (rest : Bytes) : Action := do
  match ← cancelled with
  | some e => return some e
  | none =>
    match ← countedCall ⟨.transfer, .read path⟩ fun _ => Except.ok with
    | (some e, _) => return some e
    | (none, count) =>
      if rest = [] then return none
      else
        -- a read returns at least one byte before the end of the file
        let size := storageReadSize sourceSize (sourceSize - rest.length) storageCopyBufferSize
        let chunk := rest.take (max 1 (min count size))
        match ← writeStorageBuffer path chunk with
        | some e => return some e
        | none => copyData path sourceSize (rest.drop (max 1 (min count size)))
termination_by rest.length
decreasing_by
  have hne : rest.length ≠ 0 := by simpa using ‹¬rest = []›
  rw [List.length_drop]
  omega

/-- The end of `copy_regular_file`: flush, close, and remove the file after an
error. -/
def closeRegularFile (path : Path) (result : Option Errno) (sourceOpen : Bool) : Action := do
  let result ← unlessFailed result (act .transfer (.fdatasync path) (World.flush path))
  let closed ← ask .transfer (.close .destination path)
  let result := orElse result closed
  let closed ← onlyIf sourceOpen (ask .transfer (.close .source path))
  match orElse result closed with
  | none => return none
  | some e =>
    match ← act .cleanup (.unlink .destination path) (World.unlink .destination path) with
    | some e' => return some (if e' = .ENOENT then e else e')
    | none => return some e

/-- The files of a directory that wait for their flush, if it has a window. -/
abbrev Window := Option (List Path)

/-- The sliding window of `copy_regular_file`: start the flush and let the file
wait for it. -/
def queueRegularFile (path : Path) (waiting : List Path) : Program (Option Errno × Window) := do
  match ← ask .transfer (.startFsync path) with
  | some e => return (← closeRegularFile path (some e) true, some waiting)
  | none =>
    match ← ask .transfer (.close .source path) with
    | some e => return (← closeRegularFile path (some e) false, some waiting)
    | none =>
      if (waiting ++ [path]).length = storagePendingFiles then
        let (result, waiting) ← finishOldestFile (waiting ++ [path]) none
        return (result, some waiting)
      else return (none, some (waiting ++ [path]))

/-- `copy_regular_file`. -/
def copyRegularFile (opts : Options) (bytes : Bytes) (path : Path) (window : Window) :
    Program (Option Errno × Window) := do
  match ← ask .transfer (.openFile .source path) with
  | some e => return (some e, window)
  | none =>
    match ← act .transfer (.openFile .destination path) (World.create path) with
    | some e =>
      let _ ← ask .transfer (.close .source path)
      return (some e, window)
    | none =>
      let result ← copyData path bytes.length bytes
      let result ← unlessFailed result
        (onlyIf (opts.remoteSource && !opts.remoteDestination) (ask .transfer (.fchmod path)))
      match result, window, opts.remoteDestination with
      | none, some waiting, true => queueRegularFile path waiting
      | result, window, _ => return (← closeRegularFile path result true, window)

mutual

/-- `delete_storage_path` on what is at the path. -/
def deleteTree (opts : Options) (phase : Phase) (side : Side) : Tree → Path → Action
  | .file _, path => do
    match ← ask phase (.lstat side path) with
    | some e => return some e
    | none => act phase (.unlink side path) (World.unlink side path)
  | .other, path => do
    match ← ask phase (.lstat side path) with
    | some e => return some e
    | none => act phase (.unlink side path) (World.unlink side path)
  | .dir entries, path => do
    match ← ask phase (.lstat side path) with
    | some e => return some e
    | none =>
      match ← ask phase (.opendir side path) with
      | some e => return some e
      | none =>
        let result ← deleteEntries opts phase side entries path
        let closed ← ask phase (.closedir side path)
        match orElse result closed with
        | some e => return some e
        | none => act phase (.rmdir side path) (World.rmdir side path)

/-- The loop of `delete_storage_path` over the entries of a directory. -/
def deleteEntries (opts : Options) (phase : Phase) (side : Side) : Forest → Path → Action
  | .nil, path => ask phase (.readdir side path)
  | .cons name tree rest, path => do
    match ← ask phase (.readdir side path) with
    | some e => return some e
    | none =>
      match ← joinStoragePath opts phase side (path ++ [name]) with
      | some e => return some e
      | none =>
        match ← deleteTree opts phase side tree (path ++ [name]) with
        | some e => return some e
        | none => deleteEntries opts phase side rest path

end

/-- `delete_storage_path`. -/
def deleteStoragePath (opts : Options) (phase : Phase) (side : Side) (path : Path) : Action := do
  let w ← currentWorld
  match lookup path (w.tree side) with
  | some tree => deleteTree opts phase side tree path
  | none => act phase (.lstat side path) fun _ => .error .ENOENT

/-- The start of `copy_storage_path`. -/
def beginCopy (path : Path) : Action := do
  match ← cancelled with
  | some e => return some e
  | none => ask .transfer (.lstat .source path)

/-- The handle that keeps a session for the files of a remote destination. -/
def openDestination (opts : Options) (path : Path) : Program Bool := do
  if opts.remoteDestination then
    return (← ask .transfer (.opendir .destination path)).isNone
  else return false

/-- The end of `copy_storage_path` on a directory: the streams are closed and an
unfinished destination is removed. -/
def endDirectory (opts : Options) (path : Path) (opened : Bool) (result : Option Errno) :
    Action := do
  let closed ← ask .transfer (.closedir .source path)
  -- the handle of the destination only keeps a session; its error is ignored
  let _ ← onlyIf opened (ask .transfer (.closedir .destination path))
  match orElse result closed with
  | none => return none
  | some e =>
    match ← deleteStoragePath opts .cleanup .destination path with
    | some e' => return some (if e' = .ENOENT then e else e')
    | none => return some e

/-- The directory branch of `copy_storage_path`, around its loop. -/
def copyDirectory (opts : Options) (path : Path) (window : Window)
    (copyChildren : Window → Program (Option Errno × Window)) :
    Program (Option Errno × Window) := do
  let flushed ← finishPendingFiles (window.getD []) none
  let window := window.map fun _ => []
  match flushed with
  | some e => return (some e, window)
  | none =>
    match ← act .transfer (.mkdir path) (World.mkdir path) with
    | some e => return (some e, window)
    | none =>
      match ← ask .transfer (.opendir .source path) with
      | some e =>
        let _ ← act .cleanup (.rmdir .destination path) (World.rmdir .destination path)
        return (some e, window)
      | none =>
        let opened ← openDestination opts path
        let (result, waiting) ← copyChildren (if opened then some [] else none)
        let result ← finishPendingFiles (waiting.getD []) result
        let result ← endDirectory opts path opened result
        return (result, window)

mutual

/-- `copy_storage_path`. -/
def copyStoragePath (opts : Options) : Tree → Path → Window → Program (Option Errno × Window)
  | .file bytes, path, window => do
    match ← beginCopy path with
    | some e => return (some e, window)
    | none => copyRegularFile opts bytes path window
  | .other, path, window => do
    match ← beginCopy path with
    | some e => return (some e, window)
    | none => return (some .EINVAL, window)
  | .dir entries, path, window => do
    match ← beginCopy path with
    | some e => return (some e, window)
    | none => copyDirectory opts path window (copyEntries opts entries path)

/-- The loop of `copy_storage_path` over the entries of a directory. -/
def copyEntries (opts : Options) : Forest → Path → Window → Program (Option Errno × Window)
  | .nil, path, window => do
    return (← ask .transfer (.readdir .source path), window)
  | .cons name tree rest, path, window => do
    match ← ask .transfer (.readdir .source path) with
    | some e => return (some e, window)
    | none =>
      match ← joinStoragePath opts .transfer .source (path ++ [name]) with
      | some e => return (some e, window)
      | none =>
        match ← joinStoragePath opts .transfer .destination (path ++ [name]) with
        | some e => return (some e, window)
        | none =>
          let (result, window) ← copyStoragePath opts tree (path ++ [name]) window
          match result with
          | some e => return (some e, window)
          | none => copyEntries opts rest path window

end

/-- `sm_storage_copy_path_progress`. -/
def copyPathProgress (opts : Options) : Action := do
  match ← ask .transfer .validate with
  | some e => return some e
  | none =>
    match ← lstatDestination with
    | some e => return some e
    | none =>
      match ← ask .transfer .malloc with
      | some _ => return some .ENOMEM
      | none =>
        match (← currentWorld).source with
        | some tree =>
          let (result, _) ← copyStoragePath opts tree [] none
          return result
        | none =>
          match ← cancelled with
          | some e => return some e
          | none => return some .ENOENT

/-- The checks between the copy and the removal of the source. -/
def beginFinalize (opts : Options) : Action := do
  match ← cancelled with
  | some e => return some e
  | none =>
    let refused ← onlyIf opts.finalize (ask .transfer .beginFinalize)
    match refused with
    | some _ => return some .ECANCELED
    | none => cancelled

end ShadowMount.Storage
