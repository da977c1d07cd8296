import ShadowMount.Backport.Selection
import ShadowMount.Foundation.Moments
import ShadowMount.MountLinks.Model
import ShadowMount.WatchEvents.Model

/-!
# Mount link cleanup - the functions and what they work on

A title that is mounted has its link {lit}`mount.lnk`.  When the source of the link is gone, the
cleanup of {lit}`sm_filesystem.c` renames the link to {lit}`mount.lnk.cleanup`, unmounts all that is
mounted for the title, and removes the links; what an interrupted cleanup has left is put in order
at the next start.

The functions are programs of single calls.  What they work on are the files of the title and the
stack of mounts at its mount point; the answers to all calls, and their errors, come from outside.
An error of {lit}`stat` is one that is not {lit}`ENOENT`.  Texts for the log are left out.
-/

namespace ShadowMount.LinkCleanup

open Foundation
open Backport (buildBackportsRootPath backportNameMatchesTitle)
open MountLinks (TitleLinkPaths buildTitleLinkPaths readMountLinkFile ReadFaults Files put)
open WatchEvents (isUsbStoragePath)

/-- The file systems that are told apart. -/
inductive FsType where
  | nullfs | unionfs | other
deriving DecidableEq

/-- An entry of the mount table at the mount point of the title. -/
structure Mount where
  fsType : FsType
  /-- `f_mntfromname`. -/
  source : Text
deriving DecidableEq

/-- What `statfs` says of the mount point: the mount on top, a file system that is mounted
elsewhere, or an error. -/
inductive TopMount where
  | mounted (mount : Mount)
  | elsewhere
  | failed (errno : Errno)
deriving DecidableEq

/-- What `stat` says of a file. -/
inductive Look where
  | found | missing | failed
deriving DecidableEq

inductive Op where
  /-- `sm_shellcore_title_is_protected`. -/
  | titleProtected
  | stat (path : Text)
  /-- `read_mount_link_file`. -/
  | readLink (path : Text)
  | rename (path target : Text)
  | unlink (path : Text)
  | statfs
  /-- `sm_mount_table_snapshot`. -/
  | mountTable
  | unmount
  | pathExists (path : Text)
  /-- `directory_has_game_executable`. -/
  | hasGameExecutable (path : Text)
  /-- `resolve_image_source_from_mount_cache`. -/
  | imageSourceOf (mountPoint : Text)
  /-- `cache_image_source_mapping`. -/
  | cacheImageSource (image mountPoint : Text)
deriving DecidableEq

/-- What a call returns; an error number is that of a failure. -/
def Op.Response : Op → Type
  | .titleProtected | .rename _ _ | .pathExists _ | .hasGameExecutable _ | .cacheImageSource _ _ =>
    Bool
  | .stat _ => Look
  | .readLink _ | .imageSourceOf _ => Option Text
  | .unlink _ | .unmount => Option Errno
  | .statfs => TopMount
  | .mountTable => Option (List Mount)

abbrev Routine (α : Type) := Prog Op.Response α

section Calls

def titleProtected : Routine Bool := perform Op.titleProtected

def stat (path : Text) : Routine Look := perform (Op.stat path)

def readLink (path : Text) : Routine (Option Text) := perform (Op.readLink path)

def rename (path target : Text) : Routine Bool := perform (Op.rename path target)

def unlink (path : Text) : Routine (Option Errno) := perform (Op.unlink path)

def statfs : Routine TopMount := perform Op.statfs

def mountTable : Routine (Option (List Mount)) := perform Op.mountTable

def unmount : Routine (Option Errno) := perform Op.unmount

def pathExists (path : Text) : Routine Bool := perform (Op.pathExists path)

def hasGameExecutable (path : Text) : Routine Bool := perform (Op.hasGameExecutable path)

def imageSourceOf (mountPoint : Text) : Routine (Option Text) :=
  perform (Op.imageSourceOf mountPoint)

def cacheImageSource (image mountPoint : Text) : Routine Bool :=
  perform (Op.cacheImageSource image mountPoint)

end Calls

/-- Which of two entries is taken for the mount on top. -/
def betterMount (best : Option Mount) (entry : Mount) : Option Mount :=
  match best with
  | none => some entry
  | some mount => if entry.fsType = .unionfs ∧ mount.fsType ≠ .unionfs then some entry else best

/-- The mount that the table is taken to have on top. -/
def bestMount (table : List Mount) : Option Mount := table.foldl betterMount none

/-- The mount on top by the table; `none` when the table is not available. -/
def getTableTop : Routine (Option (Option Mount)) := do
  match ← mountTable with
  | none => return none
  | some table => return some (bestMount table)

/-- `get_top_mount`. -/
def getTopMount : Routine (Option (Option Mount)) := do
  match ← statfs with
  | .mounted mount => return some (some mount)
  | _ => getTableTop

/-- `title_stack_top_kind_t`. -/
inductive TopKind where
  | none | other | nullfs | backport
deriving DecidableEq

/-- `title_mount_state_t`. -/
structure TitleMountState where
  mounted : Bool
  hasOurNullfs : Bool
  hasNullfsFromRoot : Bool
  hasOurBackport : Bool
  topIsOurNullfs : Bool
  ourNullfsCount : Nat
  ourBackportCount : Nat
  topKind : TopKind
  topFrom : Text
deriving DecidableEq

/-- The state that `memset` leaves. -/
def TitleMountState.zero : TitleMountState := ⟨false, false, false, false, false, 0, 0, .none, []⟩

/-- The source of an overlay without the mark of the kernel. -/
def stripAbove (path : Text) : Text :=
  if "<above>:".toList.isPrefixOf path then path.drop 8 else path

/-- `path_is_managed_backport_for_title`, for the scan paths of the configuration. -/
def pathIsManagedBackportForTitle (scanPaths : List Text) (titleId path : Text) : Bool :=
  let path := stripAbove path
  scanPaths.any fun scanPath =>
    match buildBackportsRootPath scanPath with
    | none => false
    | some root =>
      root.isPrefixOf path && (path.drop root.length).head? = some '/' &&
        backportNameMatchesTitle titleId (path.drop (root.length + 1))

/-- Whose mounts `inspect_title_stack` looks for; a null pointer is the empty path. -/
structure Owner where
  scanPaths : List Text
  titleId : Text
  sourcePath : Text
  sourceRoot : Text
deriving DecidableEq

/-- Is the mount an overlay of the title? -/
def Owner.managed (owner : Owner) (path : Text) : Bool :=
  pathIsManagedBackportForTitle owner.scanPaths owner.titleId path

/-- A turn of the loop over the mount table. -/
def inspectEntry (owner : Owner) (state : TitleMountState) (entry : Mount) : TitleMountState :=
  match entry.fsType with
  | .nullfs =>
    let ours := owner.sourcePath ≠ [] && entry.source = owner.sourcePath
    let fromRoot := owner.sourceRoot ≠ [] && pathMatchesRootOrChild entry.source owner.sourceRoot
    { state with
      hasOurNullfs := state.hasOurNullfs || ours
      ourNullfsCount := state.ourNullfsCount + if ours then 1 else 0
      hasNullfsFromRoot := state.hasNullfsFromRoot || fromRoot }
  | .unionfs =>
    if owner.managed entry.source then { state with
      hasOurBackport := true
      ourBackportCount := state.ourBackportCount + 1 }
    else state
  | .other => state

/-- The source of the mount on top. -/
def topSource (top : Mount) : Text :=
  if top.fsType = .unionfs then stripAbove top.source else top.source

/-- What is noted of the mount on top. -/
def inspectTop (owner : Owner) (state : TitleMountState) (top : Mount) : TitleMountState :=
  let topFrom := strlcpy maxPath (topSource top)
  match top.fsType with
  | .nullfs =>
    if owner.sourcePath ≠ [] ∧ topSource top = owner.sourcePath then { state with
      mounted := true
      topFrom := topFrom
      topKind := .nullfs
      topIsOurNullfs := true
      hasOurNullfs := true }
    else { state with mounted := true, topFrom := topFrom, topKind := .nullfs }
  | .unionfs =>
    if owner.managed (topSource top) then { state with
      mounted := true
      topFrom := topFrom
      topKind := .backport
      hasOurBackport := true }
    else { state with mounted := true, topFrom := topFrom, topKind := .other }
  | .other => { state with mounted := true, topFrom := topFrom, topKind := .other }

/-- Is the error of `statfs` one that leaves the stack unknown? -/
def TopMount.unknown : TopMount → Bool
  | .failed errno => errno ≠ .ENOENT && errno ≠ .EINVAL
  | _ => false

/-- What the answers of the kernel say of the stack. -/
def inspectAnswers (owner : Owner) (top : TopMount) (table : List Mount) : Option TitleMountState :=
  let state := table.foldl (inspectEntry owner) .zero
  match top, bestMount table with
  | .mounted mount, _ => some (inspectTop owner state mount)
  | _, some mount => some (inspectTop owner state mount)
  | top, none => if top.unknown then none else some state

/-- `inspect_title_stack`. -/
def inspectTitleStack (owner : Owner) : Routine (Option TitleMountState) := do
  let top ← statfs
  match ← mountTable with
  | none => return none
  | some table => return inspectAnswers owner top table

/-- `title_stack_top_is_managed`. -/
def titleStackTopIsManaged (state : TitleMountState) : Bool :=
  state.topIsOurNullfs || state.topKind = .backport

/-- `unmount_top_controlled_layer_impl`. -/
def unmountTopControlledLayer : Routine Bool := do
  match ← getTopMount with
  | none => return false
  | some none => return true
  | some (some mount) =>
    if mount.fsType = .other then return false
    else match ← unmount with
      | none => return true
      | some errno => return errno = .ENOENT || errno = .EINVAL

/-- `MAX_LAYERED_UNMOUNT_ATTEMPTS`. -/
def maxLayeredUnmountAttempts : Nat := 4

/-- The loop of `unmount_controlled_mount_stack_impl`. -/
def unmountLayers : Nat → Routine Bool
  | 0 => do
    match ← getTopMount with
    | some none => return true
    | _ => return false
  | attempts + 1 => do
    match ← getTopMount with
    | none => return false
    | some none => return true
    | some (some _) =>
      if !(← unmountTopControlledLayer) then return false else unmountLayers attempts

/-- `unmount_controlled_mount_stack`. -/
def unmountControlledMountStack : Routine Bool := unmountLayers (maxLayeredUnmountAttempts * 4)

/-- `cleanup_mount_links_ctx_t`; a null pointer is the empty path. -/
structure CleanupContext where
  removedSourceRoot : Text
  unmountSystemExBind : Bool
  forceRemoveMatchingSource : Bool
  matchUsbSources : Bool
  preserveMountLinks : Bool
deriving DecidableEq

/-- `source_path_needs_cleanup`, when the image is not missing. -/
def directoryNeedsCleanup (sourcePath : Text) : Routine Bool := do
  if !(← pathExists sourcePath) then return true
  else if pathMatchesRootOrChild sourcePath "/system_ex/app".toList then return true
  else return !(← hasGameExecutable sourcePath)

/-- `source_path_needs_cleanup`. -/
def sourcePathNeedsCleanup (sourcePath : Text) : Routine Bool := do
  if !isUnderImageMountBase sourcePath then directoryNeedsCleanup sourcePath
  else match ← imageSourceOf sourcePath with
    | none => directoryNeedsCleanup sourcePath
    | some image =>
      if !(← pathExists image) then return true
      else if !(← pathExists sourcePath) then return false
      else directoryNeedsCleanup sourcePath

/-- `resolve_mount_image_source_path`. -/
def resolveMountImageSourcePath (paths : TitleLinkPaths) (sourcePath : Text) :
    Routine (Option Text) := do
  if !isUnderImageMountBase sourcePath then return none
  else match ← readLink paths.mountImageLink with
    | some image =>
      let _ ← cacheImageSource image sourcePath
      return some image
    | none => imageSourceOf sourcePath

/-- The image of the source is known and missing, or the source is not in order. -/
def imageOrSourceNeedsCleanup (sourcePath : Text) (image : Option Text) : Routine Bool := do
  match image with
  | none => sourcePathNeedsCleanup sourcePath
  | some image =>
    if !(← pathExists image) then return true else sourcePathNeedsCleanup sourcePath

/-- What is known of the link before it is cleaned up: its source, empty when it cannot be read,
whether the source is one of those that are removed, and whether the link is to be removed. -/
structure Judgement where
  sourcePath : Text
  matchesRemovedSource : Bool
  shouldRemove : Bool
deriving DecidableEq

/-- A readable link is judged. -/
def judgeSource (ctx : CleanupContext) (sourcePath : Text) (image : Option Text) :
    Routine Judgement := do
  if ctx.matchUsbSources then
    let hit := isUsbStoragePath sourcePath || image.any isUsbStoragePath
    return ⟨sourcePath, hit, hit⟩
  else if ctx.removedSourceRoot ≠ [] then
    let hit := pathMatchesRootOrChild sourcePath ctx.removedSourceRoot ||
      image.any (pathMatchesRootOrChild · ctx.removedSourceRoot)
    if !hit then return ⟨sourcePath, false, false⟩
    else if ctx.forceRemoveMatchingSource then return ⟨sourcePath, true, true⟩
    else return ⟨sourcePath, true, ← imageOrSourceNeedsCleanup sourcePath image⟩
  else return ⟨sourcePath, false, ← imageOrSourceNeedsCleanup sourcePath image⟩

/-- The link is read and judged. -/
def judgeLink (ctx : CleanupContext) (paths : TitleLinkPaths) : Routine Judgement := do
  match ← readLink paths.mountLink with
  | none => return ⟨[], false, true⟩
  | some sourcePath =>
    let image ← resolveMountImageSourcePath paths sourcePath
    judgeSource ctx sourcePath image

/-- Does the stack belong to the link? -/
def stackMatchesLink (ctx : CleanupContext) (link : Judgement) (state : TitleMountState) : Bool :=
  if link.sourcePath ≠ [] then state.hasOurNullfs
  else link.matchesRemovedSource && ctx.removedSourceRoot ≠ [] && state.hasNullfsFromRoot

/-- What becomes of the link: is it kept, and was it staged? -/
structure Release where
  keepMountLink : Bool
  mountLinkStaged : Bool
deriving DecidableEq

/-- The stack of the link is unmounted, with the link staged unless links are preserved. -/
def unmountStaged (ctx : CleanupContext) (paths : TitleLinkPaths) : Routine (Option Release) := do
  if ctx.preserveMountLinks then return some ⟨!(← unmountControlledMountStack), false⟩
  else if !(← rename paths.mountLink paths.stagedMountLink) then return none
  else return some ⟨!(← unmountControlledMountStack), true⟩

/-- The stack is unmounted when it belongs to the link; none ends the cleanup. -/
def releaseStack (ctx : CleanupContext) (scanPaths : List Text) (titleId : Text)
    (paths : TitleLinkPaths) (link : Judgement) : Routine (Option Release) := do
  if !ctx.unmountSystemExBind then return some ⟨false, false⟩
  else match ← inspectTitleStack ⟨scanPaths, titleId, link.sourcePath, ctx.removedSourceRoot⟩ with
    | none => return none
    | some state =>
      if !stackMatchesLink ctx link state then return some ⟨false, false⟩
      else if !titleStackTopIsManaged state then return some ⟨true, false⟩
      else unmountStaged ctx paths

/-- The links are removed, or the staged link is put back. -/
def finishCleanup (paths : TitleLinkPaths) (release : Release) : Routine Bool := do
  if !release.keepMountLink then
    let gone ← unlink (if release.mountLinkStaged then paths.stagedMountLink else paths.mountLink)
    if gone = none ∨ gone = some .ENOENT then
      let _ ← unlink paths.mountImageLink
      return true
    else return true
  else if release.mountLinkStaged then
    let _ ← rename paths.stagedMountLink paths.mountLink
    return true
  else return true

/-- `cleanup_mount_links_entry`. -/
def cleanupMountLinksEntry (ctx : CleanupContext) (scanPaths : List Text) (titleId : Text)
    (paths : TitleLinkPaths) : Routine Bool := do
  if ← titleProtected then return true
  else match ← stat paths.mountLink with
    | .found =>
      let link ← judgeLink ctx paths
      if !link.shouldRemove then return true
      else match ← releaseStack ctx scanPaths titleId paths link with
        | none => return true
        | some release =>
          finishCleanup paths
            { release with keepMountLink := release.keepMountLink || ctx.preserveMountLinks }
    | _ => return true

/-- The image link is looked at when the link is in its place. -/
def warmImageLink (paths : TitleLinkPaths) : Routine Bool := do
  match ← readLink paths.mountLink with
  | none =>
    let _ ← unlink paths.mountImageLink
    return true
  | some sourcePath =>
    if !isUnderImageMountBase sourcePath then
      let _ ← unlink paths.mountImageLink
      return true
    else match ← readLink paths.mountImageLink with
      | none => return true
      | some image =>
        let _ ← cacheImageSource image sourcePath
        return true

/-- `cleanup_staged_mount_links_entry`. -/
def cleanupStagedMountLinksEntry (paths : TitleLinkPaths) : Routine Bool := do
  match ← stat paths.stagedMountLink with
  | .failed => return true
  | .missing => warmImageLink paths
  | .found =>
    match ← stat paths.mountLink with
    | .found =>
      let _ ← unlink paths.stagedMountLink
      warmImageLink paths
    | .failed => warmImageLink paths
    | .missing =>
      if ← rename paths.stagedMountLink paths.mountLink then warmImageLink paths
      else return true

end ShadowMount.LinkCleanup
