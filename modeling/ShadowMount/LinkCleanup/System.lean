import ShadowMount.LinkCleanup.Model

/-!
# Mount link cleanup - runs, crashes and what is promised

The cleanup runs now and then, and the cleanup of what was staged at each start.  Either of them
may be stopped after any call, and any call may fail.  Between the runs the title may be mounted
and unmounted in any way while it has its link.

What is promised of the cleanup is not true of two branches at the start.  When {lit}`stat` of the
link fails, the image link is removed although the link is still staged; and when {lit}`stat` of the
staged link fails, that link stays where it is, even if it could be renamed.
-/

namespace ShadowMount.LinkCleanup

open Foundation
open MountLinks (TitleLinkPaths buildTitleLinkPaths readMountLinkFile ReadFaults Files put)

/-- The files of the title, the mounts at its mount point with the last one first, and the image
sources by the mount points of the images. -/
structure World where
  files : Files
  stack : List Mount
  images : Text → Option Text

/-- What the environment chooses for an answer. -/
structure Answer where
  fails : Bool
  errno : Errno
  read : ReadFaults
  /-- The title is protected, the path exists. -/
  flag : Bool
deriving DecidableEq

/-- `rename` of a file that is there. -/
def World.renamed (w : World) (path target content : Text) : World :=
  { w with files := put (put w.files path none) target (some content) }

/-- `unlink`. -/
def World.unlinked (w : World) (path : Text) : World := { w with files := put w.files path none }

/-- The response to a call, and the world after it. -/
def World.respond (w : World) (answer : Answer) : (op : Op) → op.Response × World
  | .titleProtected => (answer.flag, w)
  | .stat path =>
    if answer.fails then (.failed, w)
    else if (w.files path).isSome then (.found, w)
    else (.missing, w)
  | .readLink path => (readMountLinkFile answer.read maxPath (w.files path), w)
  | .rename path target =>
    if answer.fails then (false, w)
    else match w.files path with
      | none => (false, w)
      | some content => (true, w.renamed path target content)
  | .unlink path =>
    if answer.fails then (some answer.errno, w)
    else if (w.files path).isSome then (none, w.unlinked path)
    else (some .ENOENT, w)
  | .statfs =>
    if answer.fails then (.failed answer.errno, w)
    else match w.stack with
      | [] => (.elsewhere, w)
      | mount :: _ => (.mounted mount, w)
  | .mountTable => if answer.fails then (none, w) else (some w.stack.reverse, w)
  | .unmount =>
    if answer.fails then (some answer.errno, w)
    else match w.stack with
      | [] => (some .EINVAL, w)
      | _ :: rest => (none, { w with stack := rest })
  | .pathExists _ | .hasGameExecutable _ => (answer.flag, w)
  | .imageSourceOf mountPoint => (w.images mountPoint, w)
  | .cacheImageSource image mountPoint =>
    if answer.fails then (false, w)
    else (true, { w with images := Function.update w.images mountPoint (some image) })

/-- The answers of a kind. -/
def answering (fine : World → Op → Answer → Prop) : Answering Op.Response World :=
  fun w op response w' => ∃ answer, fine w op answer ∧ w.respond answer op = (response, w')

/-- What is run. -/
inductive Job where
  /-- `cleanup_mount_links_entry`. -/
  | cleanup (ctx : CleanupContext) (scanPaths : List Text)
  /-- `cleanup_staged_mount_links_entry`. -/
  | staged
deriving DecidableEq

/-- Is unmounting requested? -/
def Job.unmounts : Job → Bool
  | .cleanup ctx _ => ctx.unmountSystemExBind
  | .staged => true

def Job.program (titleId : Text) : Job → Routine Bool
  | .cleanup ctx scanPaths =>
    cleanupMountLinksEntry ctx scanPaths titleId (buildTitleLinkPaths titleId)
  | .staged => cleanupStagedMountLinksEntry (buildTitleLinkPaths titleId)

structure State where
  world : World
  /-- The world at the start of the latest run. -/
  origin : World
  task : Option (Job × Routine Bool)

/-- The content of the link survives in its place or where it is staged. -/
def World.Survives (paths : TitleLinkPaths) (link : Text) (w : World) : Prop :=
  w.files paths.mountLink = some link ∨
    w.files paths.mountLink = none ∧ w.files paths.stagedMountLink = some link

instance (paths : TitleLinkPaths) (link : Text) (w : World) : Decidable (w.Survives paths link) :=
  inferInstanceAs (Decidable (_ ∨ _ ∧ _))

/-- What happens next. -/
inductive Choice where
  | start (job : Job)
  /-- The run makes its next call. -/
  | run (answer : Answer)
  /-- The run is over, or it is stopped where it is. -/
  | stop
  /-- Others mount and unmount. -/
  | others (stack : List Mount)
deriving DecidableEq

section Steps

variable (titleId link : Text)

def State.next (s : State) : Choice → Option State
  | .start job =>
    match s.task with
    | none =>
      if job.unmounts then some ⟨s.world, s.world, some (job, job.program titleId)⟩ else none
    | some _ => none
  | .run answer =>
    match s.task with
    | some (job, .call op next) =>
      let (response, w) := s.world.respond answer op
      some ⟨w, s.origin, some (job, next response)⟩
    | _ => none
  | .stop => some { s with task := none }
  | .others stack =>
    if s.task.isNone ∧ s.world.Survives (buildTitleLinkPaths titleId) link then
      some ⟨{ s.world with stack := stack }, { s.world with stack := stack }, none⟩
    else none

/-- Runs for a title that has its link in place at first. -/
def machine : System State Choice where
  init s := ∃ w : World, w.files (buildTitleLinkPaths titleId).mountLink = some link ∧
    s = ⟨w, w, none⟩
  step s choice s' := s.next titleId link choice = some s'

end Steps

/-- The stack contains the nullfs mount of the source. -/
def World.Mounted (source : Text) (w : World) : Prop := (⟨.nullfs, source⟩ : Mount) ∈ w.stack

instance (source : Text) (w : World) : Decidable (w.Mounted source) :=
  inferInstanceAs (Decidable (_ ∈ w.stack))

/-- The link survives, and with it the image link of a source that is in an image.  An image link
beside the link of another source belongs to nothing: the cleanup of the next start removes it,
mounted or not. -/
def Kept (paths : TitleLinkPaths) (link source : Text) (origin w : World) : Prop :=
  w.Survives paths link ∧ (isUnderImageMountBase source = true →
    w.files paths.mountImageLink = origin.files paths.mountImageLink)

/-- Renamings succeed; any other call may fail. -/
def RenamesWork (_ : World) (op : Op) (answer : Answer) : Prop :=
  ∀ path target, op = .rename path target → answer.fails = false

/-- While the link is not in its place, `stat` tells which of the two files are there. -/
def Told (paths : TitleLinkPaths) (w : World) (op : Op) (answer : Answer) : Prop :=
  op = .stat paths.mountLink ∨ op = .stat paths.stagedMountLink →
    w.files paths.mountLink = none → answer.fails = false

/-- The answers with which a cleanup at the start has to restore the link. -/
def Restoring (paths : TitleLinkPaths) (w : World) (op : Op) (answer : Answer) : Prop :=
  RenamesWork w op answer ∧ Told paths w op answer

/-- A title that is mounted is not stranded. -/
structure NotStranded (titleId link source : Text) (s : State) : Prop where
  /-- While the source is mounted, the link survives. -/
  survives : s.world.Mounted source → s.world.Survives (buildTitleLinkPaths titleId) link
  /-- A later cleanup at the start, with working renames, puts a link that survives in its
  place, if it is told which of the two files are there. -/
  restored : s.world.Survives (buildTitleLinkPaths titleId) link →
    (∃ w result, Run (answering (Restoring (buildTitleLinkPaths titleId))) s.world
      (Job.staged.program titleId) w result) ∧
    ∀ w result, Run (answering (Restoring (buildTitleLinkPaths titleId))) s.world
      (Job.staged.program titleId) w result →
        w.files (buildTitleLinkPaths titleId).mountLink = some link
  /-- A run that finds the source mounted discards the links only when all is unmounted. -/
  released : s.origin.Mounted source →
    Kept (buildTitleLinkPaths titleId) link source s.origin s.world ∨ s.world.stack = []

/-- The calls that have to succeed while the source is mounted: the link is read when it is there,
and at the start `stat` tells when it is missing. -/
def Attended (paths : TitleLinkPaths) (job : Job) (w : World) (op : Op) (answer : Answer) : Prop :=
  (op = .readLink paths.mountLink → w.files paths.mountLink ≠ none →
    answer.read = ReadFaults.none) ∧
  (job = .staged → op = .stat paths.mountLink → w.files paths.mountLink = none →
    answer.fails = false)

/-- The step is no call that has to succeed and fails. -/
def Attends (titleId source : Text) (s : State) (choice : Choice) : Prop :=
  ∀ job op next answer, s.task = some (job, .call op next) → choice = .run answer →
    s.origin.Mounted source → Attended (buildTitleLinkPaths titleId) job s.world op answer

end ShadowMount.LinkCleanup
