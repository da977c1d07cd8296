import ShadowMount.Paths
import ShadowMount.StateTable.Refinement

/-!
# The path state and the title state

The two tables of the scanner: what {lit}`sm_path_state.c` remembers about source
paths and what {lit}`sm_title_state.c` remembers about title ids.  Every public
function of the two files is given here on the table it works on, and every call
is one operation of a state table.

Main results:

- Theorem {lit}`state_tables_refine_maps`: over all sequences of calls, both tables
  behave like maps from keys to records.
-/

namespace ShadowMount.StateTable

open Foundation

/-- `struct PathStateEntry` without its key and its flag. -/
structure PathRecord where
  missingParamAttempts : Nat
  imageMountAttempts : Nat
  missingParamLimitLogged : Bool
  imageMountLimitLogged : Bool
  backportMountBlocked : Bool
  backportPermissionsIncompleteLogged : Bool
  manualMissingSourceLogged : Bool
  gameInfoCached : Bool
  gameInfoValid : Bool
  moduleCaseChecked : Bool
  moduleCaseFingerprint : UInt64
  gameInfoMtime : Int
  gameInfoMtimeNsec : Int
  gameInfoSize : Int
  gameInfoIno : Nat
  gameTitleId : Text
  gameTitleName : Text
deriving DecidableEq

/-- The fields after `memset`. -/
def PathRecord.zero : PathRecord where
  missingParamAttempts := 0
  imageMountAttempts := 0
  missingParamLimitLogged := false
  imageMountLimitLogged := false
  backportMountBlocked := false
  backportPermissionsIncompleteLogged := false
  manualMissingSourceLogged := false
  gameInfoCached := false
  gameInfoValid := false
  moduleCaseChecked := false
  moduleCaseFingerprint := 0
  gameInfoMtime := 0
  gameInfoMtimeNsec := 0
  gameInfoSize := 0
  gameInfoIno := 0
  gameTitleId := []
  gameTitleName := []

/-- `STATE_HASH_SIZE`. -/
def stateHashSize : Nat := 1024

def maxMissingParamScanAttempts : Nat := 3

def maxImageMountAttempts : Nat := 3

/-- Increment of a counter of one byte that stops at its largest value. -/
def bump (n : Nat) : Nat := if n < 255 then n + 1 else n

def pathLayout : Layout PathRecord where
  capacity := maxPending
  slots := stateHashSize
  buffer := maxPath
  zero := PathRecord.zero
  capacity_pos := by decide
  capacity_lt := by decide

/-- Which path entry is given up first: one whose path is gone and was not reported
as a missing manual source, then one that remembers nothing. -/
def pathPrefs (stat : StatView) : List (Text → PathRecord → Bool) :=
  [fun path r => !pathExists stat path && !r.manualMissingSourceLogged,
   fun _ r => r.missingParamAttempts = 0 && r.imageMountAttempts = 0 &&
     !r.backportMountBlocked && !r.backportPermissionsIncompleteLogged &&
     !r.manualMissingSourceLogged && !r.moduleCaseChecked && !r.gameInfoCached]

namespace PathRecord

/-- The record after `store_cached_game_info`. -/
def withGameInfo (param : Stat) (info : Option (Text × Text)) (r : PathRecord) : PathRecord :=
  { r with
    gameInfoCached := true
    gameInfoValid := info.isSome
    gameInfoMtime := param.mtimeSec
    gameInfoMtimeNsec := param.mtimeNsec
    gameInfoSize := param.size
    gameInfoIno := param.inode
    gameTitleId := strlcpy maxTitleId (info.elim [] Prod.fst)
    gameTitleName := strlcpy maxTitleName (info.elim [] Prod.snd) }

/-- One more scan without a parameter file, and whether it is the first. -/
def missParam (r : PathRecord) : Bool × PathRecord :=
  let attempts := bump r.missingParamAttempts
  (attempts = 1, { r with
    missingParamAttempts := attempts
    missingParamLimitLogged :=
      r.missingParamLimitLogged || maxMissingParamScanAttempts ≤ attempts })

/-- One more attempt to mount the image, and how many there were. -/
def attemptMount (r : PathRecord) : Nat × PathRecord :=
  let attempts := bump r.imageMountAttempts
  (attempts, { r with
    imageMountAttempts := attempts
    imageMountLimitLogged := r.imageMountLimitLogged || maxImageMountAttempts ≤ attempts })

/-- The record after `clear_image_mount_attempts`. -/
def clearAttempts (r : PathRecord) : PathRecord :=
  { r with imageMountAttempts := 0, imageMountLimitLogged := false }

/-- The record after `reset_all_image_mount_attempts`. -/
def resetAttempts (r : PathRecord) : PathRecord :=
  if r.imageMountAttempts = 0 then r else r.clearAttempts

end PathRecord

namespace PathState

/-- `module_case_fingerprint_matches`. -/
def moduleCaseFingerprintMatches (t : Table PathRecord) (path : Text) (fingerprint : UInt64) :
    Bool :=
  match pathLayout.lookup t path with
  | some r => r.moduleCaseChecked && r.moduleCaseFingerprint = fingerprint
  | none => false

/-- `store_module_case_fingerprint`. -/
def storeModuleCaseFingerprint (t : Table PathRecord) (stat : StatView) (path : Text)
    (fingerprint : UInt64) : Table PathRecord :=
  (pathLayout.upsert t (pathPrefs stat) path fun r =>
    ((), { r with moduleCaseChecked := true, moduleCaseFingerprint := fingerprint })).2

/-- `load_cached_game_info`: the cached answer, when the parameter file is as it
was; the answer itself says whether the file was valid. -/
def loadCachedGameInfo (t : Table PathRecord) (path : Text) (param : Stat) :
    Option (Option (Text × Text)) :=
  match pathLayout.lookup t path with
  | some r =>
    if !r.gameInfoCached || r.gameInfoMtime ≠ param.mtimeSec ||
        r.gameInfoMtimeNsec ≠ param.mtimeNsec || r.gameInfoSize ≠ param.size ||
        r.gameInfoIno ≠ param.inode then none
    else if r.gameInfoValid then
      some (some (strlcpy maxTitleId r.gameTitleId, strlcpy maxTitleName r.gameTitleName))
    else some none
  | none => none

/-- `store_cached_game_info`. -/
def storeCachedGameInfo (t : Table PathRecord) (stat : StatView) (path : Text) (param : Stat)
    (info : Option (Text × Text)) : Table PathRecord :=
  (pathLayout.upsert t (pathPrefs stat) path fun r => ((), r.withGameInfo param info)).2

/-- Does `prune_path_state` give the entry up? -/
def expired (stat : StatView) (path : Text) (r : PathRecord) : Bool :=
  !pathExists stat path && !r.manualMissingSourceLogged

/-- `prune_path_state`. -/
def prunePathState (t : Table PathRecord) (stat : StatView) : Table PathRecord :=
  pathLayout.prune t (expired stat)

/-- `prune_path_state_for_root`. -/
def prunePathStateForRoot (t : Table PathRecord) (stat : StatView) (root : Text) :
    Table PathRecord :=
  if root = [] then prunePathState t stat
  else pathLayout.prune t fun path r => pathMatchesRootOrChild path root && expired stat path r

/-- `is_missing_param_scan_limited`. -/
def isMissingParamScanLimited (t : Table PathRecord) (path : Text) : Bool :=
  isUnderImageMountBase path && match pathLayout.lookup t path with
    | some r => r.missingParamAttempts ≥ maxMissingParamScanAttempts
    | none => false

/-- `record_missing_param_failure`, with whether the user is notified. -/
def recordMissingParamFailure (t : Table PathRecord) (stat : StatView) (path : Text) :
    Option Bool × Table PathRecord :=
  if !isUnderImageMountBase path then (some false, t)
  else pathLayout.upsert t (pathPrefs stat) path PathRecord.missParam

/-- `clear_missing_param_entry`. -/
def clearMissingParamEntry (t : Table PathRecord) (path : Text) : Table PathRecord :=
  pathLayout.modify t path fun r =>
    { r with missingParamAttempts := 0, missingParamLimitLogged := false }

/-- `is_image_mount_limited`. -/
def isImageMountLimited (t : Table PathRecord) (path : Text) : Bool :=
  match pathLayout.lookup t path with
  | some r => r.imageMountAttempts ≥ maxImageMountAttempts
  | none => false

/-- `bump_image_mount_attempts`. -/
def bumpImageMountAttempts (t : Table PathRecord) (stat : StatView) (path : Text) :
    Option Nat × Table PathRecord :=
  pathLayout.upsert t (pathPrefs stat) path PathRecord.attemptMount

/-- `clear_image_mount_attempts`. -/
def clearImageMountAttempts (t : Table PathRecord) (path : Text) : Table PathRecord :=
  pathLayout.modify t path PathRecord.clearAttempts

/-- `reset_all_image_mount_attempts`, with the number of entries it resets. -/
def resetAllImageMountAttempts (t : Table PathRecord) : Nat × Table PathRecord :=
  ((List.range pathLayout.capacity).countP fun k =>
      (t.entries k).valid && (t.entries k).record.imageMountAttempts ≠ 0,
    pathLayout.updateAll t PathRecord.resetAttempts)

/-- `is_backport_mount_blocked`. -/
def isBackportMountBlocked (t : Table PathRecord) (path : Text) : Bool :=
  path ≠ [] && match pathLayout.lookup t path with
    | some r => r.backportMountBlocked
    | none => false

/-- `note_backport_mount_failure`. -/
def noteBackportMountFailure (t : Table PathRecord) (stat : StatView) (path : Text) :
    Table PathRecord :=
  if path = [] then t
  else (pathLayout.upsert t (pathPrefs stat) path fun r =>
    ((), { r with backportMountBlocked := true })).2

/-- `clear_backport_mount_failure`. -/
def clearBackportMountFailure (t : Table PathRecord) (path : Text) : Table PathRecord :=
  if path = [] then t
  else pathLayout.modify t path fun r => { r with backportMountBlocked := false }

/-- `note_backport_permissions_incomplete_once`. -/
def noteBackportPermissionsIncompleteOnce (t : Table PathRecord) (stat : StatView)
    (path : Text) : Bool × Table PathRecord :=
  if path = [] then (false, t)
  else
    let (first, t) := pathLayout.upsert t (pathPrefs stat) path fun r =>
      (!r.backportPermissionsIncompleteLogged,
        { r with backportPermissionsIncompleteLogged := true })
    (first.getD false, t)

/-- `clear_backport_permissions_incomplete`. -/
def clearBackportPermissionsIncomplete (t : Table PathRecord) (path : Text) :
    Table PathRecord :=
  if path = [] then t
  else pathLayout.modify t path fun r => { r with backportPermissionsIncompleteLogged := false }

/-- `note_manual_missing_source_once`. -/
def noteManualMissingSourceOnce (t : Table PathRecord) (stat : StatView) (path : Text) :
    Bool × Table PathRecord :=
  if path = [] then (false, t)
  else
    let (first, t) := pathLayout.upsert t (pathPrefs stat) path fun r =>
      (!r.manualMissingSourceLogged, { r with manualMissingSourceLogged := true })
    (first.getD false, t)

/-- `clear_manual_missing_source`. -/
def clearManualMissingSource (t : Table PathRecord) (path : Text) : Table PathRecord :=
  if path = [] then t
  else pathLayout.modify t path fun r => { r with manualMissingSourceLogged := false }

end PathState

/-- The calls of the path state functions.  Those that may have to give up or prune
entries carry what `stat` answers meanwhile. -/
inductive PathCall where
  | moduleCaseFingerprintMatches (path : Text) (fingerprint : UInt64)
  | storeModuleCaseFingerprint (stat : StatView) (path : Text) (fingerprint : UInt64)
  | loadCachedGameInfo (path : Text) (param : Stat)
  | storeCachedGameInfo (stat : StatView) (path : Text) (param : Stat)
      (info : Option (Text × Text))
  | prunePathState (stat : StatView)
  | prunePathStateForRoot (stat : StatView) (root : Text)
  | isMissingParamScanLimited (path : Text)
  | recordMissingParamFailure (stat : StatView) (path : Text)
  | clearMissingParamEntry (path : Text)
  | isImageMountLimited (path : Text)
  | bumpImageMountAttempts (stat : StatView) (path : Text)
  | clearImageMountAttempts (path : Text)
  | resetAllImageMountAttempts
  | isBackportMountBlocked (path : Text)
  | noteBackportMountFailure (stat : StatView) (path : Text)
  | clearBackportMountFailure (path : Text)
  | noteBackportPermissionsIncompleteOnce (stat : StatView) (path : Text)
  | clearBackportPermissionsIncomplete (path : Text)
  | noteManualMissingSourceOnce (stat : StatView) (path : Text)
  | clearManualMissingSource (path : Text)

namespace PathCall

/-- The table after a call. -/
def run (t : Table PathRecord) : PathCall → Table PathRecord
  | .moduleCaseFingerprintMatches _ _ => t
  | .storeModuleCaseFingerprint stat path fingerprint =>
    PathState.storeModuleCaseFingerprint t stat path fingerprint
  | .loadCachedGameInfo _ _ => t
  | .storeCachedGameInfo stat path param info =>
    PathState.storeCachedGameInfo t stat path param info
  | .prunePathState stat => PathState.prunePathState t stat
  | .prunePathStateForRoot stat root => PathState.prunePathStateForRoot t stat root
  | .isMissingParamScanLimited _ => t
  | .recordMissingParamFailure stat path => (PathState.recordMissingParamFailure t stat path).2
  | .clearMissingParamEntry path => PathState.clearMissingParamEntry t path
  | .isImageMountLimited _ => t
  | .bumpImageMountAttempts stat path => (PathState.bumpImageMountAttempts t stat path).2
  | .clearImageMountAttempts path => PathState.clearImageMountAttempts t path
  | .resetAllImageMountAttempts => (PathState.resetAllImageMountAttempts t).2
  | .isBackportMountBlocked _ => t
  | .noteBackportMountFailure stat path => PathState.noteBackportMountFailure t stat path
  | .clearBackportMountFailure path => PathState.clearBackportMountFailure t path
  | .noteBackportPermissionsIncompleteOnce stat path =>
    (PathState.noteBackportPermissionsIncompleteOnce t stat path).2
  | .clearBackportPermissionsIncomplete path =>
    PathState.clearBackportPermissionsIncomplete t path
  | .noteManualMissingSourceOnce stat path =>
    (PathState.noteManualMissingSourceOnce t stat path).2
  | .clearManualMissingSource path => PathState.clearManualMissingSource t path

/-- The operation a call is. -/
def op : PathCall → Op PathRecord
  | .moduleCaseFingerprintMatches path _ => .query path
  | .storeModuleCaseFingerprint stat path fingerprint =>
    .upsert path (pathPrefs stat) fun r =>
      { r with moduleCaseChecked := true, moduleCaseFingerprint := fingerprint }
  | .loadCachedGameInfo path _ => .query path
  | .storeCachedGameInfo stat path param info =>
    .upsert path (pathPrefs stat) (PathRecord.withGameInfo param info)
  | .prunePathState stat => .prune (PathState.expired stat)
  | .prunePathStateForRoot stat root =>
    .prune fun path r =>
      (root = [] || pathMatchesRootOrChild path root) && PathState.expired stat path r
  | .isMissingParamScanLimited path => .query path
  | .recordMissingParamFailure stat path =>
    if isUnderImageMountBase path then
      .upsert path (pathPrefs stat) fun r => r.missParam.2
    else .query path
  | .clearMissingParamEntry path =>
    .modify path fun r => { r with missingParamAttempts := 0, missingParamLimitLogged := false }
  | .isImageMountLimited path => .query path
  | .bumpImageMountAttempts stat path =>
    .upsert path (pathPrefs stat) fun r => r.attemptMount.2
  | .clearImageMountAttempts path => .modify path PathRecord.clearAttempts
  | .resetAllImageMountAttempts => .updateAll PathRecord.resetAttempts
  | .isBackportMountBlocked path => .query path
  | .noteBackportMountFailure stat path =>
    .upsert path (pathPrefs stat) fun r => { r with backportMountBlocked := true }
  | .clearBackportMountFailure path =>
    .modify path fun r => { r with backportMountBlocked := false }
  | .noteBackportPermissionsIncompleteOnce stat path =>
    .upsert path (pathPrefs stat) fun r => { r with backportPermissionsIncompleteLogged := true }
  | .clearBackportPermissionsIncomplete path =>
    .modify path fun r => { r with backportPermissionsIncompleteLogged := false }
  | .noteManualMissingSourceOnce stat path =>
    .upsert path (pathPrefs stat) fun r => { r with manualMissingSourceLogged := true }
  | .clearManualMissingSource path =>
    .modify path fun r => { r with manualMissingSourceLogged := false }

/-- The functions do what their operations say, on keys that are not empty. -/
theorem run_eq_apply (t : Table PathRecord) (call : PathCall) (hfits : call.op.Fits pathLayout) :
    call.run t = pathLayout.apply t call.op := by
  cases call with
  | prunePathStateForRoot stat root =>
    by_cases hroot : root = []
    · simp [run, op, PathState.prunePathStateForRoot, PathState.prunePathState, hroot,
        Layout.apply]
    · simp [run, op, PathState.prunePathStateForRoot, hroot, Layout.apply]
  | recordMissingParamFailure stat path =>
    by_cases hbase : isUnderImageMountBase path = true
    · simp [run, op, PathState.recordMissingParamFailure, hbase, Layout.apply,
        Layout.upsert_table]
    · simp [run, op, PathState.recordMissingParamFailure, hbase, Layout.apply]
  | bumpImageMountAttempts stat path => exact Layout.upsert_table _ _ _ _ _
  | noteBackportMountFailure stat path => exact if_neg hfits.1
  | clearBackportMountFailure path => exact if_neg hfits.1
  | noteBackportPermissionsIncompleteOnce stat path =>
    simp only [run, PathState.noteBackportPermissionsIncompleteOnce, if_neg hfits.1]
    exact Layout.upsert_table _ _ _ _ _
  | clearBackportPermissionsIncomplete path => exact if_neg hfits.1
  | noteManualMissingSourceOnce stat path =>
    simp only [run, PathState.noteManualMissingSourceOnce, if_neg hfits.1]
    exact Layout.upsert_table _ _ _ _ _
  | clearManualMissingSource path => exact if_neg hfits.1
  | _ => rfl

end PathCall

/-- `struct TitleStateEntry` without its key and its flag. -/
structure TitleRecord where
  mountRegAttempts : Nat
  registerAttempts : Nat
  duplicateNotifiedOnce : Bool
deriving DecidableEq

/-- The fields after `memset`. -/
def TitleRecord.zero : TitleRecord where
  mountRegAttempts := 0
  registerAttempts := 0
  duplicateNotifiedOnce := false

def maxRegisterAttempts : Nat := 2

def titleLayout : Layout TitleRecord where
  capacity := maxPending
  slots := stateHashSize
  buffer := maxTitleId
  zero := TitleRecord.zero
  capacity_pos := by decide
  capacity_lt := by decide

/-- Which title entry is given up first: one without attempts, then one without
mount attempts. -/
def titlePrefs : List (Text → TitleRecord → Bool) :=
  [fun _ r => r.mountRegAttempts = 0 && r.registerAttempts = 0,
   fun _ r => r.mountRegAttempts = 0]

namespace TitleRecord

/-- One more attempt to mount and register, and how many there were. -/
def attemptMount (r : TitleRecord) : Nat × TitleRecord :=
  let attempts := bump r.mountRegAttempts
  (attempts, { r with mountRegAttempts := attempts })

/-- Note the duplicate, and tell whether it is a new one. -/
def noteDuplicate (r : TitleRecord) : Bool × TitleRecord :=
  (!r.duplicateNotifiedOnce, { r with duplicateNotifiedOnce := true })

/-- The record after `reset_title_attempts`. -/
def resetAttempts (r : TitleRecord) : TitleRecord :=
  { r with registerAttempts := 0, mountRegAttempts := 0 }

end TitleRecord

namespace TitleState

/-- `get_register_attempts`. -/
def getRegisterAttempts (t : Table TitleRecord) (titleId : Text) : Nat :=
  ((titleLayout.lookup t titleId).map TitleRecord.registerAttempts).getD 0

/-- `was_register_attempted`. -/
def wasRegisterAttempted (t : Table TitleRecord) (titleId : Text) : Bool :=
  match titleLayout.lookup t titleId with
  | some r => r.registerAttempts ≥ maxRegisterAttempts
  | none => false

/-- `mark_register_attempted`. -/
def markRegisterAttempted (t : Table TitleRecord) (titleId : Text) : Table TitleRecord :=
  (titleLayout.upsert t titlePrefs titleId fun r =>
    ((), { r with registerAttempts := bump r.registerAttempts })).2

/-- `clear_register_attempts`. -/
def clearRegisterAttempts (t : Table TitleRecord) (titleId : Text) : Table TitleRecord :=
  titleLayout.modify t titleId fun r => { r with registerAttempts := 0 }

/-- `notify_duplicate_title_once`, with whether the user is notified. -/
def notifyDuplicateTitleOnce (t : Table TitleRecord) (titleId : Text) :
    Option Bool × Table TitleRecord :=
  titleLayout.upsert t titlePrefs titleId TitleRecord.noteDuplicate

/-- `clear_duplicate_title_notification`. -/
def clearDuplicateTitleNotification (t : Table TitleRecord) (titleId : Text) :
    Table TitleRecord :=
  titleLayout.modify t titleId fun r => { r with duplicateNotifiedOnce := false }

/-- `get_failed_mount_attempts`. -/
def getFailedMountAttempts (t : Table TitleRecord) (titleId : Text) : Nat :=
  ((titleLayout.lookup t titleId).map TitleRecord.mountRegAttempts).getD 0

/-- `clear_failed_mount_attempts`. -/
def clearFailedMountAttempts (t : Table TitleRecord) (titleId : Text) : Table TitleRecord :=
  titleLayout.modify t titleId fun r => { r with mountRegAttempts := 0 }

/-- `bump_failed_mount_attempts`. -/
def bumpFailedMountAttempts (t : Table TitleRecord) (titleId : Text) :
    Option Nat × Table TitleRecord :=
  titleLayout.upsert t titlePrefs titleId TitleRecord.attemptMount

/-- `reset_title_attempts`, with the counters it clears. -/
def resetTitleAttempts (t : Table TitleRecord) (titleId : Text) :
    (Nat × Nat) × Table TitleRecord :=
  if titleId = [] then ((0, 0), t)
  else match titleLayout.lookup t titleId with
    | some r => ((r.registerAttempts, r.mountRegAttempts),
        titleLayout.modify t titleId TitleRecord.resetAttempts)
    | none => ((0, 0), t)

/-- `reset_all_title_attempts`, with the number of entries it resets. -/
def resetAllTitleAttempts (t : Table TitleRecord) : Nat × Table TitleRecord :=
  ((List.range titleLayout.capacity).countP fun k =>
      (t.entries k).valid && ((t.entries k).record.registerAttempts ≠ 0 ||
        (t.entries k).record.mountRegAttempts ≠ 0),
    titleLayout.updateAll t fun r =>
      if r.registerAttempts = 0 ∧ r.mountRegAttempts = 0 then r else r.resetAttempts)

end TitleState

/-- The calls of the title state functions. -/
inductive TitleCall where
  | getRegisterAttempts (titleId : Text)
  | wasRegisterAttempted (titleId : Text)
  | markRegisterAttempted (titleId : Text)
  | clearRegisterAttempts (titleId : Text)
  | notifyDuplicateTitleOnce (titleId : Text)
  | clearDuplicateTitleNotification (titleId : Text)
  | getFailedMountAttempts (titleId : Text)
  | clearFailedMountAttempts (titleId : Text)
  | bumpFailedMountAttempts (titleId : Text)
  | resetTitleAttempts (titleId : Text)
  | resetAllTitleAttempts

namespace TitleCall

/-- The table after a call. -/
def run (t : Table TitleRecord) : TitleCall → Table TitleRecord
  | .getRegisterAttempts _ => t
  | .wasRegisterAttempted _ => t
  | .markRegisterAttempted titleId => TitleState.markRegisterAttempted t titleId
  | .clearRegisterAttempts titleId => TitleState.clearRegisterAttempts t titleId
  | .notifyDuplicateTitleOnce titleId => (TitleState.notifyDuplicateTitleOnce t titleId).2
  | .clearDuplicateTitleNotification titleId =>
    TitleState.clearDuplicateTitleNotification t titleId
  | .getFailedMountAttempts _ => t
  | .clearFailedMountAttempts titleId => TitleState.clearFailedMountAttempts t titleId
  | .bumpFailedMountAttempts titleId => (TitleState.bumpFailedMountAttempts t titleId).2
  | .resetTitleAttempts titleId => (TitleState.resetTitleAttempts t titleId).2
  | .resetAllTitleAttempts => (TitleState.resetAllTitleAttempts t).2

/-- The operation a call is. -/
def op : TitleCall → Op TitleRecord
  | .getRegisterAttempts titleId => .query titleId
  | .wasRegisterAttempted titleId => .query titleId
  | .markRegisterAttempted titleId =>
    .upsert titleId titlePrefs fun r => { r with registerAttempts := bump r.registerAttempts }
  | .clearRegisterAttempts titleId => .modify titleId fun r => { r with registerAttempts := 0 }
  | .notifyDuplicateTitleOnce titleId => .upsert titleId titlePrefs fun r => r.noteDuplicate.2
  | .clearDuplicateTitleNotification titleId =>
    .modify titleId fun r => { r with duplicateNotifiedOnce := false }
  | .getFailedMountAttempts titleId => .query titleId
  | .clearFailedMountAttempts titleId => .modify titleId fun r => { r with mountRegAttempts := 0 }
  | .bumpFailedMountAttempts titleId => .upsert titleId titlePrefs fun r => r.attemptMount.2
  | .resetTitleAttempts titleId => .modify titleId TitleRecord.resetAttempts
  | .resetAllTitleAttempts =>
    .updateAll fun r =>
      if r.registerAttempts = 0 ∧ r.mountRegAttempts = 0 then r else r.resetAttempts

/-- The functions do what their operations say, on keys that are not empty. -/
theorem run_eq_apply (t : Table TitleRecord) (call : TitleCall)
    (hfits : call.op.Fits titleLayout) : call.run t = titleLayout.apply t call.op := by
  cases call with
  | notifyDuplicateTitleOnce titleId => exact Layout.upsert_table _ _ _ _ _
  | bumpFailedMountAttempts titleId => exact Layout.upsert_table _ _ _ _ _
  | resetTitleAttempts titleId =>
    have hne : titleId ≠ [] := hfits.1
    simp only [run, op, TitleState.resetTitleAttempts, if_neg hne, Layout.apply,
      Layout.lookup, Layout.modify]
    cases titleLayout.find t titleId <;> rfl
  | _ => rfl

end TitleCall

/-- The runs of a table under calls whose keys are non-empty and fit. -/
def runs {ρ γ : Type} (L : Layout ρ) (run : Table ρ → γ → Table ρ) (op : γ → Op ρ) :
    System (Table ρ) γ :=
  (System.ofFunction L.empty run).restrict fun _ call => (op call).Fits L

/-- A table behaves like a map from keys to records in every run: the map starts
empty, each call changes it as its operation says, `find` returns the entry of
a key exactly when the map holds it, no key is in two valid entries, and getting or
creating an entry never fails. -/
structure RefinesMap {ρ γ : Type} (L : Layout ρ) (run : Table ρ → γ → Table ρ)
    (op : γ → Op ρ) : Prop where
  start : L.contents L.empty = fun _ => none
  step : ∀ t call, Reachable (runs L run op) t → (op call).Fits L →
    StateMap.Step L.capacity L.zero (L.contents t) (op call) (L.contents (run t call))
  find_iff : ∀ t, Reachable (runs L run op) t → ∀ key r,
    (∃ k, L.find t key = some k ∧ (t.entries k).valid = true ∧ (t.entries k).key = key ∧
      (t.entries k).record = r) ↔ L.contents t key = some r
  distinct : ∀ t, Reachable (runs L run op) t → ∀ j < L.capacity, ∀ k < L.capacity,
    (t.entries j).valid = true → (t.entries k).valid = true →
    (t.entries j).key = (t.entries k).key → j = k
  obtained : ∀ t, Reachable (runs L run op) t → ∀ prefs key, L.Fits key →
    ∃ k, (L.getOrCreate t prefs key).1 = some k ∧
      ((L.getOrCreate t prefs key).2.entries k).key = key

section

variable {ρ γ : Type} {L : Layout ρ} {run : Table ρ → γ → Table ρ} {op : γ → Op ρ}

/-- A table that is reached is well formed. -/
theorem wellFormed_of_reachable
    (hrun : ∀ t call, (op call).Fits L → run t call = L.apply t (op call)) {t : Table ρ}
    (ht : Reachable (runs L run op) t) : L.WellFormed t := by
  have hinit : ∀ t, (runs L run op).init t → L.WellFormed t := by
    rintro t rfl
    exact L.wellFormed_empty
  have hstep : ∀ t call t', L.WellFormed t → (runs L run op).step t call t' →
      L.WellFormed t' := by
    rintro t call t' hwell ⟨rfl, hfits⟩
    rw [hrun t call hfits]
    exact (hwell.apply hfits).1
  exact ht.invariant hinit hstep

/-- Every call of a table is one on the map. -/
theorem refinesMap (hrun : ∀ t call, (op call).Fits L → run t call = L.apply t (op call)) :
    RefinesMap L run op := by
  constructor
  · exact L.contents_empty
  · intro t call ht hfits
    rw [hrun t call hfits]
    exact ((wellFormed_of_reachable hrun ht).apply hfits).2
  · intro t ht key r
    have hwell := wellFormed_of_reachable hrun ht
    rw [hwell.find_eq, ← hwell.lookup_eq]
    unfold Layout.lookup
    rw [hwell.find_eq, Option.map_eq_some_iff]
    constructor
    · rintro ⟨k, hk, -, -, hr⟩
      exact ⟨k, hk, hr⟩
    · rintro ⟨k, hk, hr⟩
      have hhit := (Layout.firstEntry_eq_some hk).2
      rw [Bool.and_eq_true, decide_eq_true_iff] at hhit
      exact ⟨k, hk, hhit.1, hhit.2, hr⟩
  · intro t ht
    exact (wellFormed_of_reachable hrun ht).keyed.distinct
  · intro t ht prefs key hfits
    rcases (wellFormed_of_reachable hrun ht).getOrCreate prefs hfits with ⟨k, hobtained⟩
    exact ⟨k, hobtained.returned, hobtained.key_eq⟩

end

/-- Over all sequences of calls with non-empty keys that fit their buffers, the path
state and the title state behave like maps from keys to records. -/
theorem state_tables_refine_maps :
    RefinesMap pathLayout PathCall.run PathCall.op ∧
      RefinesMap titleLayout TitleCall.run TitleCall.op :=
  ⟨refinesMap PathCall.run_eq_apply, refinesMap TitleCall.run_eq_apply⟩

end ShadowMount.StateTable
