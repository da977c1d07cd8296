import ShadowMount.PathContainment
import ShadowMount.PackageSource.Paths

/-!
# Deleting from the browser

{lit}`resolve_browser_delete_source` of {lit}`sm_api_service.c`, which decides what the file browser
may delete.  A folder is deleted with everything in it, so the guard has to look both ways: at what
a path lies in, and at what lies in it.

Main results:

- Theorem {lit}`browser_delete_guard`: what is accepted.
-/

namespace ShadowMount.PackageSource

open Foundation Smb

variable {path : Text}

/-- What the system answers about a source that may be deleted. -/
structure DeleteView extends View where
  /-- What the calls of `get_scan_path` give, none for a failed one. -/
  scanPaths : List (Option Text)
  /-- The permission bits of `stat`. -/
  mode : Text → Nat
  /-- `access` for writing and searching. -/
  accessible : Text → Bool
  /-- `statvfs` finds a file system that is not read-only. -/
  writableFilesystem : Text → Bool
  /-- `sm_vfs_delete_access`; the flag is for a directory. -/
  deleteAccess : Text → Bool → Bool

/-- `LOG_DIR`. -/
def logDir : Text := "/data/shadowmount".toList

/-- The paths that belong to the system. -/
def systemPaths : List Text :=
  ["/system".toList, "/system_ex".toList, "/system_data".toList, "/user".toList,
    "/preinst".toList, "/update".toList, logDir, imageMountBase, "/mnt/ext0/user".toList,
    "/mnt/ext1/user".toList, "/mnt/ext0/ps5".toList, "/mnt/ext1/ps5".toList,
    "/mnt/ext0/system_data".toList, "/mnt/ext1/system_data".toList]

/-- `browser_path_is_system`. -/
def browserPathIsSystem (path : Text) (includeAncestors : Bool) : Bool :=
  systemPaths.any (fun system => pathMatchesRootOrChild path system ||
    (includeAncestors && pathMatchesRootOrChild system path)) || isInstalledContentPath path

/-- `strrchr` for the extension of a name: from the last dot on. -/
def extensionOf (name : Text) : Option Text :=
  if '.' ∈ name then some ('.' :: Config.afterLast '.' name) else none

/-- The name has an extension, in any letter case. -/
def hasExtension (name extension : Text) : Bool :=
  (extensionOf name).any (sameNoCase · extension)

/-- `is_supported_image_file_path`. -/
def isSupportedImageFilePath (path name : Text) : Bool :=
  [".ffpkg".toList, ".exfat".toList, ".ffpfs".toList, ".ffpfsc".toList].any (hasExtension name) ||
    (sameNoCase name "pfs_image.dat".toList &&
      pathMatchesRootOrChild path Config.pfscImageMountBase)

/-- `realpath` of `sm_vfs.c`. -/
def vfsRealpath (v : View) (path : Text) : Option Text :=
  if smbPath path then
    (parseAddress v.config path).bind fun a => if (v.lstat a.path).isSome then some a.path else none
  else v.realpath path

/-- The directory that a path is an entry of. -/
def parentPath (path : Text) : Option Text :=
  if '/' ∉ path then none
  else
    let front := (path.rdropWhile fun c => c ≠ '/').dropLast
    some (if front = [] then ['/'] else front)

/-- `browser_source_writable`. -/
def browserSourceWritable (v : DeleteView) (path : Text) (st : Stat) : Bool :=
  if maxPath ≤ path.length then false
  else
    match parentPath path with
    | none => false
    | some parent =>
      (!st.isDirectory || v.mode path &&& 0o222 ≠ 0) && (v.lstat parent).isSome &&
        v.mode parent &&& 0o222 ≠ 0 && v.accessible parent &&
        (!st.isDirectory || v.accessible path) && v.writableFilesystem parent

/-- The canonical path of a scan root, or its text when it has none. -/
def scanRoot (v : View) (scanPath : Text) : Text := (vfsRealpath v scanPath).getD scanPath

/-- The loop over the scan roots: may the source be deleted for all of them? -/
def clearOfScanRoots (v : DeleteView) (path : Text) (directory : Bool) : List (Option Text) → Bool
  | [] => true
  | none :: _ => false
  | some scanPath :: rest =>
    let scan := scanRoot v.toView scanPath
    if pathMatchesRootOrChild path scan || (directory && pathMatchesRootOrChild scan path) then
      false
    else clearOfScanRoots v path directory rest

/-- Is a source a package file? -/
def isPkgFile (path : Text) (st : Stat) : Bool :=
  st.isRegular && hasExtension (Config.getFilenameComponent path) ".pkg".toList

/-- `browser_source_deletable`. -/
def browserSourceDeletable (v : DeleteView) (path : Text) (st : Stat) : Bool :=
  let name := Config.getFilenameComponent path
  let pkg := isPkgFile path st
  let directory := st.isDirectory
  if !directory && !pkg && !(st.isRegular && isSupportedImageFilePath path name) then false
  else if smbPath path then decide ('/' ∈ path.drop 6) && v.deleteAccess path directory
  else
    match packageRoot v.toView path with
    | none => false
    | some root =>
      if path = root || browserPathIsSystem path directory then false
      else if pkg then browserSourceWritable v path st
      else if !clearOfScanRoots v path directory v.scanPaths then false
      else browserSourceWritable v path st

/-- The source types of what is deleted. -/
inductive DeleteType where
  | folder | image | pkg
deriving DecidableEq

/-- `resolve_browser_delete_source`. -/
def resolveBrowserDeleteSource (v : DeleteView) (path : Text) :
    Except Refusal (Text × DeleteType) :=
  if (path.head? ≠ some '/' && !smbPath path) || decide (maxPath ≤ path.length) then
    .error .invalid
  else
    match vfsRealpath v.toView path with
    | none => .error .failed
    | some resolved =>
      if maxPath ≤ resolved.length then .error .tooLong
      else
        match v.lstat resolved with
        | none => .error .failed
        | some st =>
          let name := Config.getFilenameComponent resolved
          if !browserSourceDeletable v resolved st then .error .forbidden
          else if st.isDirectory then .ok (resolved, .folder)
          else if !st.isRegular then .error .invalid
          else if isSupportedImageFilePath resolved name then .ok (resolved, .image)
          else if hasExtension name ".pkg".toList then .ok (resolved, .pkg)
          else .error .invalid

/-- The directories that the system keeps content directories in. -/
inductive ContentHome : Text → Prop where
  | user : ContentHome "/user/".toList
  | extended {digits : Text} : digits ≠ [] → (∀ c ∈ digits, c.isDigit = true) →
      ContentHome ("/mnt/ext".toList ++ digits ++ "/user/".toList)
  | extendedPs5 {digits : Text} : digits ≠ [] → (∀ c ∈ digits, c.isDigit = true) →
      ContentHome ("/mnt/ext".toList ++ digits ++ "/ps5/user/".toList)

/-- The path is a directory of installed packages, or lies in one. -/
def InstalledContent (path : Text) : Prop :=
  ∃ home rest, ContentHome home ∧ path = home ++ rest ∧
    (LiesIn rest "app".toList ∨ LiesIn rest "patch".toList ∨ LiesIn rest "addcont".toList)

theorem isContentDirectory_iff (rest : Text) : isContentDirectory rest = true ↔
    LiesIn rest "app".toList ∨ LiesIn rest "patch".toList ∨ LiesIn rest "addcont".toList := by
  simp only [isContentDirectory, List.any_cons, List.any_nil, Bool.or_false, Bool.or_eq_true,
    pathMatchesRootOrChild_iff]

/-- Where installed packages are. -/
theorem isInstalledContentPath_iff (path : Text) :
    isInstalledContentPath path = true ↔ InstalledContent path := by
  unfold isInstalledContentPath
  constructor
  · intro h
    split at h
    next huser =>
      obtain ⟨rest, rfl⟩ := List.isPrefixOf_iff_prefix.mp huser
      exact ⟨_, rest, .user, rfl, (isContentDirectory_iff rest).mp h⟩
    next =>
      split at h
      next hext =>
        obtain ⟨tail, rfl⟩ := List.isPrefixOf_iff_prefix.mp hext
        have hdrop : ("/mnt/ext".toList ++ tail).drop 8 = tail := rfl
        rw [hdrop] at h
        have hsplit : (cut (fun c => !Char.isDigit c) tail).1 ++
            (cut (fun c => !Char.isDigit c) tail).2 = tail := cut_fst_append_snd _ tail
        have hdigits : ∀ c ∈ (cut (fun c => !Char.isDigit c) tail).1, c.isDigit = true := by
          intro c hc
          simpa using not_of_mem_cut_fst hc
        generalize cut (fun c => !Char.isDigit c) tail = parts at h hsplit hdigits
        obtain ⟨digits, rest⟩ := parts
        dsimp only at h hsplit hdigits
        subst hsplit
        split at h
        next => cases h
        next hne =>
          split at h
          next huser =>
            obtain ⟨rest, rfl⟩ := List.isPrefixOf_iff_prefix.mp huser
            refine ⟨_, rest, .extended hne hdigits, ?_, (isContentDirectory_iff rest).mp h⟩
            simp
          next =>
            split at h
            next hps5 =>
              obtain ⟨rest, rfl⟩ := List.isPrefixOf_iff_prefix.mp hps5
              refine ⟨_, rest, .extendedPs5 hne hdigits, ?_, (isContentDirectory_iff rest).mp h⟩
              simp
            next => cases h
      next => cases h
  · have hext : ∀ digits tail : Text, digits ≠ [] → (∀ c ∈ digits, c.isDigit = true) →
        cut (fun c => !Char.isDigit c) (digits ++ '/' :: tail) = (digits, '/' :: tail) := by
      intro digits tail _ hdigits
      exact cut_append (by simpa using hdigits) (by simp)
    rintro ⟨home, rest, hhome, rfl, hrest⟩
    have hcontent := (isContentDirectory_iff rest).mpr hrest
    cases hhome with
    | user =>
      rw [if_pos (by simp)]
      exact hcontent
    | @extended digits hne hdigits =>
      have hdrop : ("/mnt/ext".toList ++ digits ++ "/user/".toList ++ rest).drop 8 =
          digits ++ '/' :: ("user/".toList ++ rest) := by
        simp
      rw [if_neg (by simp), if_pos (by simp), hdrop,
        hext digits _ hne hdigits]
      simp only [hne, if_false]
      rw [if_pos (by simp)]
      exact hcontent
    | @extendedPs5 digits hne hdigits =>
      have hdrop : ("/mnt/ext".toList ++ digits ++ "/ps5/user/".toList ++ rest).drop 8 =
          digits ++ '/' :: ("ps5/user/".toList ++ rest) := by
        simp
      rw [if_neg (by simp), if_pos (by simp), hdrop,
        hext digits _ hne hdigits]
      simp only [hne, if_false]
      rw [if_neg (by simp), if_pos (by simp)]
      exact hcontent

/-- A local path that may be deleted: it lies strictly below a package root, apart from what the
system owns and, unless it is a package file, apart from the scan roots. -/
structure LocalDeletable (v : DeleteView) (path : Text) (st : Stat) : Prop where
  root : ∃ root ∈ dataRoot :: mountRoots, packageRoot v.toView path = some root ∧
    LiesIn path root ∧ path ≠ root
  system : ∀ system ∈ systemPaths, ¬ LiesIn path system
  content : ¬ InstalledContent path
  folder : st.isDirectory = true → ∀ system ∈ systemPaths, ¬ LiesIn system path
  scanRoots : isPkgFile path st = false → ∀ scanPath, some scanPath ∈ v.scanPaths →
    ¬ LiesIn path (scanRoot v.toView scanPath) ∧
      (st.isDirectory = true → ¬ LiesIn (scanRoot v.toView scanPath) path)

/-- An address that may be deleted: it is one of the connection, which leads to something strictly
below the directory of the connection. -/
structure RemoteDeletable (v : DeleteView) (path : Text) : Prop where
  below : ∃ name rest c a base, Resolves v.config name rest c a ∧ path = a.path ∧
    baseAddress c = some base ∧ a.server = base.server ∧ a.share = base.share ∧
    ∃ inner, inner ≠ [] ∧ components '/' a.relative = components '/' base.relative ++ inner ∧
      ∀ component ∈ inner, isPlainComponent component = true

theorem packageRoot_local {v : View} {root : Text} (hlocal : smbPath path = false)
    (h : packageRoot v path = some root) : root ∈ dataRoot :: mountRoots ∧ LiesIn path root := by
  unfold packageRoot at h
  rw [if_neg (by simp [hlocal])] at h
  split at h
  next hdata =>
    cases h
    exact ⟨List.mem_cons_self .., (pathMatchesRootOrChild_iff _ _).mp hdata⟩
  next =>
    split at h
    next => cases h
    next mount hfind =>
      split at h
      next =>
        cases h
        exact ⟨List.mem_cons_of_mem _ (List.mem_of_find?_eq_some hfind),
          (pathMatchesRootOrChild_iff _ _).mp (List.find?_some hfind)⟩
      next => cases h

theorem browserPathIsSystem_eq_false {includeAncestors : Bool}
    (h : browserPathIsSystem path includeAncestors = false) :
    (∀ system ∈ systemPaths, ¬ LiesIn path system) ∧ ¬ InstalledContent path ∧
      (includeAncestors = true → ∀ system ∈ systemPaths, ¬ LiesIn system path) := by
  unfold browserPathIsSystem at h
  simp only [Bool.or_eq_false_iff, List.any_eq_false, Bool.or_eq_true, Bool.and_eq_true, not_or,
    not_and, pathMatchesRootOrChild_iff] at h
  refine ⟨fun system hmem => (h.1 system hmem).1, ?_, fun hinclude system hmem =>
    (h.1 system hmem).2 hinclude⟩
  rw [← isInstalledContentPath_iff, h.2]
  exact Bool.false_ne_true

variable {v : DeleteView}

theorem clearOfScanRoots_spec {directory : Bool} {scanPaths : List (Option Text)}
    (h : clearOfScanRoots v path directory scanPaths = true) :
    ∀ scanPath, some scanPath ∈ scanPaths → ¬ LiesIn path (scanRoot v.toView scanPath) ∧
      (directory = true → ¬ LiesIn (scanRoot v.toView scanPath) path) := by
  induction scanPaths with
  | nil =>
    intro scanPath hmem
    cases hmem
  | cons given rest ih =>
    cases given with
    | none => cases h
    | some given =>
      unfold clearOfScanRoots at h
      dsimp only at h
      split at h
      next => cases h
      next hclear =>
        simp only [Bool.or_eq_true, Bool.and_eq_true, not_or, not_and,
          pathMatchesRootOrChild_iff] at hclear
        intro scanPath hmem
        rcases List.mem_cons.mp hmem with heq | hmem
        · cases heq
          exact hclear
        · exact ih h scanPath hmem

/-- What is known of a local source that may be deleted. -/
theorem browserSourceDeletable_local {st : Stat} (hlocal : smbPath path = false)
    (h : browserSourceDeletable v path st = true) : LocalDeletable v path st := by
  unfold browserSourceDeletable at h
  dsimp only at h
  split at h
  next => cases h
  next =>
    rw [if_neg (by simp [hlocal])] at h
    split at h
    next => cases h
    next root hroot =>
      obtain ⟨hmem, hlies⟩ := packageRoot_local hlocal hroot
      split at h
      next => cases h
      next hguard =>
        simp only [Bool.or_eq_true, decide_eq_true_eq, not_or, Bool.not_eq_true] at hguard
        obtain ⟨hsystem, hcontent, hfolder⟩ := browserPathIsSystem_eq_false hguard.2
        refine ⟨⟨root, hmem, hroot, hlies, hguard.1⟩, hsystem, hcontent, hfolder, fun hpkg => ?_⟩
        rw [if_neg (by simp [hpkg])] at h
        split at h
        next => cases h
        next hclear => exact clearOfScanRoots_spec (by simpa using hclear)

/-- What is known of a remote source that may be deleted. -/
theorem browserSourceDeletable_remote {resolved : Text} {a : Resolved} {st : Stat}
    (ha : parseAddress v.config path = some a) (hpath : resolved = a.path)
    (h : browserSourceDeletable v resolved st = true) : RemoteDeletable v resolved := by
  obtain ⟨name, rest, c, hresolves, -⟩ := exists_resolves ha
  obtain ⟨base, hbase, haddress⟩ := hresolves.base
  have hsmb : smbPath resolved = true := by
    rw [smbPath, List.isPrefixOf_iff_prefix, hpath, hresolves.path]
    exact List.prefix_append _ _
  unfold browserSourceDeletable at h
  simp only [hsmb, if_true] at h
  split at h
  next => cases h
  next =>
    simp only [Bool.and_eq_true, decide_eq_true_eq] at h
    have hrest : rest ≠ [] := by
      rintro rfl
      have hdrop : resolved.drop 6 = name := by
        rw [hpath, hresolves.path]
        simp [join, scheme]
      rw [hdrop] at h
      exact hresolves.named.2.1 h.1
    have hplain := (safeComponents_iff.mp hresolves.safe).2.2
    rw [segments_of_getLast hresolves.bare] at hplain
    refine ⟨name, rest, c, a, base, hresolves, hpath, hbase, ?_, ?_, components '/' rest, ?_, ?_,
      hplain⟩
    · rw [haddress]
    · rw [haddress]
    · simpa using hrest
    · rw [haddress]
      exact components_join '/' base.relative rest

/-- What may be deleted: a local path that lies strictly below a package root, is no system path and
no installed content and lies in none, is a folder only when it contains no system path, and, unless
it is a package file, neither lies in a scan root nor contains one; or an address strictly below the
directory of its connection. -/
theorem browser_delete_guard {v : DeleteView} (hcanonical : v.Canonical) {path resolved : Text}
    {type : DeleteType} (h : resolveBrowserDeleteSource v path = .ok (resolved, type)) :
    ∃ st, v.lstat resolved = some st ∧
      (smbPath path = false → smbPath resolved = false ∧ v.realpath path = some resolved ∧
        LocalDeletable v resolved st) ∧
      (smbPath path = true → smbPath resolved = true ∧ RemoteDeletable v resolved) := by
  unfold resolveBrowserDeleteSource at h
  split at h
  next => cases h
  next =>
    split at h
    next => cases h
    next canonical hreal =>
      split at h
      next => cases h
      next =>
        split at h
        next => cases h
        next st hst =>
          have hdeletable : browserSourceDeletable v canonical st = true ∧
              canonical = resolved := by
            dsimp only at h
            split at h
            next => cases h
            next hdel =>
              simp only [Bool.not_eq_true', Bool.not_eq_false] at hdel
              refine ⟨hdel, ?_⟩
              repeat' split at h
              all_goals cases h
              all_goals rfl
          obtain ⟨hdeletable, rfl⟩ := hdeletable
          refine ⟨st, hst, fun hlocal => ?_, fun hremote => ?_⟩
          · unfold vfsRealpath at hreal
            rw [if_neg (by simp [hlocal])] at hreal
            have hplain : smbPath canonical = false := by
              obtain ⟨rest, rfl⟩ := List.head?_eq_some_iff.mp (hcanonical _ _ hreal).1
              rfl
            exact ⟨hplain, hreal, browserSourceDeletable_local hplain hdeletable⟩
          · unfold vfsRealpath at hreal
            rw [if_pos hremote] at hreal
            obtain ⟨a, ha, heq⟩ := Option.bind_eq_some_iff.mp hreal
            split at heq
            next =>
              cases heq
              refine ⟨?_, browserSourceDeletable_remote ha rfl hdeletable⟩
              obtain ⟨name, rest, c, hresolves, -⟩ := exists_resolves ha
              rw [smbPath, List.isPrefixOf_iff_prefix, hresolves.path]
              exact List.prefix_append _ _
            next => cases heq

/-- A console with the default scan paths, on which every absolute path is a canonical directory. -/
def folderView : DeleteView where
  config := twoNasState
  realpath := fun path => if path.head? = some '/' then some path else none
  lstat := fun _ => some ⟨true, false, 1, 1, 0, 0, 0, 0⟩
  mounted := fun _ => true
  scanPaths := ["/data/homebrew".toList, "/mnt/shadowmnt".toList].map some
  mode := fun _ => 0o777
  accessible := fun _ => true
  writableFilesystem := fun _ => true
  deleteAccess := fun _ _ => true

theorem folderView_canonical : folderView.Canonical := by
  intro path resolved h
  simp only [folderView] at h ⊢
  split at h
  next hslash =>
    cases h
    exact ⟨hslash, if_pos hslash⟩
  next => cases h

theorem browser_delete_guard_folder :
    resolveBrowserDeleteSource folderView "/data/homebrew2".toList =
      .ok ("/data/homebrew2".toList, .folder) ∧
    ¬ LiesIn "/data/homebrew2".toList logDir := by
  have hok : resolveBrowserDeleteSource folderView "/data/homebrew2".toList =
      .ok ("/data/homebrew2".toList, .folder) := by
    decide +kernel
  obtain ⟨st, -, hlocal, -⟩ := browser_delete_guard folderView_canonical hok
  exact ⟨hok, (hlocal (by decide +kernel)).2.2.system logDir (by decide +kernel)⟩

example : resolveBrowserDeleteSource folderView "/data".toList = .error .forbidden := by
  decide +kernel

end ShadowMount.PackageSource
