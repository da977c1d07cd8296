import ShadowMount.Foundation.Chunks
import ShadowMount.Foundation.Faults
import ShadowMount.Types
import Mathlib.Logic.Function.Basic

/-!
# Mount links - the files of a title

{lit}`sm_filesystem.c` keeps two small files for each title: {lit}`mount.lnk` names the directory
that is mounted for it, and {lit}`mount_img.lnk` names the image that the directory is in, or the
images when one is inside of another, one on each line and the innermost one first.

A file is read as a stream that may turn out to be broken, and written by calls that may each
fail: what a failed call leaves in the file is arbitrary.  The bytes of a file may be any, zero
bytes among them.
-/

namespace ShadowMount.MountLinks

open Foundation

/-- `APP_BASE`. -/
def appBase : Text := "/user/app".toList

/-- `MAX_IMAGE_CHAIN_DEPTH`. -/
def maxImageChainDepth : Nat := 8

/-- `build_title_link_path`; `snprintf` cuts what does not fit. -/
def buildTitleLinkPath (titleId filename : Text) : Text :=
  strlcpy maxPath (appBase ++ '/' :: titleId ++ '/' :: filename)

/-- `title_link_paths_t`. -/
structure TitleLinkPaths where
  mountLink : Text
  stagedMountLink : Text
  mountImageLink : Text
deriving DecidableEq

/-- `build_title_link_paths`. -/
def buildTitleLinkPaths (titleId : Text) : TitleLinkPaths where
  mountLink := buildTitleLinkPath titleId "mount.lnk".toList
  stagedMountLink := buildTitleLinkPath titleId "mount.lnk.cleanup".toList
  mountImageLink := buildTitleLinkPath titleId "mount_img.lnk".toList

/-- An open file: the bytes that are left, whether an error waits behind them instead of the end
of the file, and the error indicator. -/
structure Stream where
  rest : Text
  broken : Bool
  failed : Bool
deriving DecidableEq

/-- Reading behind the last byte. -/
def Stream.exhaust (s : Stream) : Stream := ⟨[], s.broken, s.failed || s.broken⟩

/-- `fgetc`; `EOF` is `none`. -/
def fgetc (s : Stream) : Option Char × Stream :=
  match s.rest with
  | [] => (none, s.exhaust)
  | c :: rest => (some c, { s with rest := rest })

/-- The buffer has got all that `fgets` can take. -/
def fullLine (size : Nat) (line : Text) : Bool :=
  line.length = size - 1 || line.getLast? = some '\n'

/-- `fgets` into a buffer of the given size; the buffer up to the terminator. -/
def fgets (size : Nat) (s : Stream) : Option Text × Stream :=
  if size = 0 then (none, s)
  else
    let (line, rest) := chunk '\n' (size - 1) s.rest
    if fullLine size line then (some line, { s with rest := rest })
    else if s.broken || line = [] then (none, s.exhaust)
    else (some line, s.exhaust)

/-- `strcspn` with a line feed and a carriage return. -/
def lineEnd (line : Text) : Nat :=
  (line.takeWhile fun c => c ≠ '\r' ∧ c ≠ '\n' ∧ c ≠ '\x00').length

/-- The line fills the buffer and does not end in it. -/
def fillsBuffer (size : Nat) (line : Text) : Bool :=
  ((line)[lineEnd line]?).getD '\x00' = '\x00' && size ≤ lineEnd line + 1

/-- Does the byte behind a full buffer go on with the line? -/
def continues (next : Option Char) : Bool :=
  next ≠ none && next ≠ some '\n' && next ≠ some '\r'

/-- What goes wrong when a file is read: opening it, reading behind a number of bytes, and closing
it. -/
structure ReadFaults where
  refused : Bool
  brokenAfter : Option Nat
  closeFails : Bool
deriving DecidableEq

/-- A read that meets no error. -/
def ReadFaults.none : ReadFaults := ⟨false, .none, false⟩

/-- `fopen` for reading. -/
def openStream (f : ReadFaults) (file : Option Text) : Option Stream :=
  match f.refused, file with
  | false, some content =>
    match f.brokenAfter with
    | .none => some ⟨content, false, false⟩
    | some n => some ⟨content.take n, true, false⟩
  | _, _ => .none

/-- The buffer size that `fgets` is given, cast to `int`; a negative one is like zero. -/
def castSize (size : Nat) : Nat :=
  let low := size % 2 ^ 32
  if low < 2 ^ 31 then low else 0

/-- The first line of a stream, when it fits the buffer. -/
def firstLine (size : Nat) (s : Stream) : Option Text :=
  match fgets (castSize size) s with
  | (none, _) => none
  | (some line, s) =>
    if fillsBuffer size line && continues (fgetc s).1 then none
    else
      let out := line.take (lineEnd line)
      if out = [] then none else some out

/-- `read_mount_link_file`. -/
def readMountLinkFile (f : ReadFaults) (size : Nat) (file : Option Text) : Option Text :=
  if size = 0 then none
  else match openStream f file with
    | none => none
    | some s => firstLine size s

/-- The lines that the loop of `read_mount_image_chain` puts in the slots that are left, and
`ok` behind it. -/
def readLines : Nat → Stream → List Text × Bool × Stream
  | 0, s => ([], true, s)
  | slots + 1, s =>
    match fgets maxPath s with
    | (none, s) => ([], true, s)
    | (some line, s) =>
      let (next, s) := if fillsBuffer maxPath line then fgetc s else (none, s)
      if continues next then ([], false, s)
      else if lineEnd line = 0 then ([], false, s)
      else
        let (lines, ok, s) := readLines slots s
        (line.take (lineEnd line) :: lines, ok, s)

/-- `read_mount_image_chain` on the file of the title. -/
def readImageChainFile (f : ReadFaults) (file : Option Text) : Option (List Text) :=
  match openStream f file with
  | none => none
  | some s =>
    let (lines, ok, s) := readLines maxImageChainDepth s
    let (next, s) := if ok && lines.length = maxImageChainDepth then fgetc s else (none, s)
    if ok && next = none && !s.failed && !f.closeFails && lines ≠ [] then some lines else none

/-- The files by their paths. -/
abbrev Files := Text → Option Text

/-- `read_mount_link`. -/
def readMountLink (f : ReadFaults) (files : Files) (titleId : Text) (size : Nat) : Option Text :=
  readMountLinkFile f size (files (buildTitleLinkPaths titleId).mountLink)

/-- `read_mount_image_link`; a null pointer is `none`. -/
def readMountImageLink (f : ReadFaults) (files : Files) (titleId : Option Text) (size : Nat) :
    Option Text :=
  match titleId with
  | none => none
  | some titleId => readMountLinkFile f size (files (buildTitleLinkPaths titleId).mountImageLink)

/-- `read_mount_image_chain`. -/
def readMountImageChain (f : ReadFaults) (files : Files) (titleId : Option Text) :
    Option (List Text) :=
  match titleId with
  | none => none
  | some titleId => readImageChainFile f (files (buildTitleLinkPaths titleId).mountImageLink)

/-- The calls of a writer. -/
inductive Call where
  | create (path : Text)
  | print (path line : Text)
  | flush (path : Text)
  | sync (path : Text)
  | close (path : Text)
  | rename (path target : Text)
  | unlink (path : Text)
deriving DecidableEq

/-- An error, and what an output call that fails leaves in its file. -/
structure Fault where
  errno : Errno
  left : Text
deriving DecidableEq

/-- Programs on the files. -/
abbrev FileExec := Exec Files Call Fault

/-- The files after one of them has changed. -/
def put (files : Files) (path : Text) (content : Option Text) : Files :=
  Function.update files path content

/-- `fopen` for writing. -/
def create (path : Text) : FileExec Bool :=
  lossyCall (.create path) (fun _ files => files) fun files => some (put files path (some []))

/-- `fprintf`: the text is behind what was printed before, in the buffer or in the file. -/
def print (path line : Text) : FileExec Bool :=
  lossyCall (.print path line) (fun fault files => put files path (some fault.left)) fun files =>
    some (put files path (some ((files path).getD [] ++ line)))

/-- `fflush`, `fsync` and `fclose`, which bring to the file what was printed. -/
def complete (c : Call) (path : Text) : FileExec Bool :=
  lossyCall c (fun fault files => put files path (some fault.left)) some

/-- `rename`. -/
def rename (path target : Text) : FileExec Bool :=
  lossyCall (.rename path target) (fun _ files => files) fun files =>
    match files path with
    | none => none
    | some content => some (put (put files path none) target (some content))

/-- `unlink`. -/
def unlink (path : Text) : FileExec Bool :=
  lossyCall (.unlink path) (fun _ files => files) fun files =>
    match files path with
    | none => none
    | some _ => some (put files path none)

/-- The loop that prints the lines; no line feed follows the last one. -/
def printLines (path : Text) : List Text → FileExec Bool
  | [] => pure true
  | line :: lines => do
    if line = [] then return false
    else if !(← print path (line ++ if lines = [] then [] else ['\n'])) then return false
    else printLines path lines

/-- A step that is made when all went well so far. -/
def provided (ok : Bool) (step : FileExec Bool) : FileExec Bool :=
  if ok then step else pure false

/-- The file is written, flushed and closed. -/
def writeTemp (path : Text) (lines : List Text) : FileExec Bool := do
  let ok ← printLines path lines
  let ok ← provided ok (complete (.flush path) path)
  let ok ← provided ok (complete (.sync path) path)
  let closed ← complete (.close path) path
  return ok && closed

/-- `write_link_lines_atomic`. -/
def writeLinkLinesAtomic (path : Text) (lines : List Text) : FileExec Bool := do
  let tempPath := path ++ ".tmp".toList
  if maxPath ≤ tempPath.length then return false
  else if !(← create tempPath) then return false
  else
    let ok ← writeTemp tempPath lines
    let renamed ← provided ok (rename tempPath path)
    if renamed then return true
    else
      let _ ← unlink tempPath
      return false

/-- `write_mount_link`; null pointers are `none`. -/
def writeMountLink (titleId sourcePath : Option Text) : FileExec Bool :=
  match titleId, sourcePath with
  | some titleId, some sourcePath =>
    if titleId = [] || sourcePath = [] then pure false
    else writeLinkLinesAtomic (buildTitleLinkPaths titleId).mountLink [sourcePath]
  | _, _ => pure false

/-- `write_mount_image_chain`. -/
def writeMountImageChain (titleId : Option Text) (paths : List Text) : FileExec Bool :=
  match titleId with
  | none => pure false
  | some titleId =>
    if titleId = [] || paths = [] || maxImageChainDepth < paths.length then pure false
    else writeLinkLinesAtomic (buildTitleLinkPaths titleId).mountImageLink paths

/-- `write_mount_image_link`. -/
def writeMountImageLink (titleId imagePath : Option Text) : FileExec Bool :=
  match titleId, imagePath with
  | some titleId, some imagePath =>
    if titleId = [] || imagePath = [] then pure false
    else writeMountImageChain (some titleId) [strlcpy maxPath imagePath]
  | _, _ => pure false

end ShadowMount.MountLinks
