import ShadowMount.Smb.Within

/-!
# Paths of package sources

The paths that the package functions of {lit}`sm_api_service.c` accept: a canonical path below one
of the package roots, or an address below a connection.

What the system answers about paths at one moment is a {lit}`View`.  {lit}`realpath` and
{lit}`lstat` are those of {lit}`sm_vfs.c` for local paths.
-/

namespace ShadowMount.PackageSource

open Foundation Smb

variable {path resolved : Text}

/-- What the system answers about paths. -/
structure View where
  config : Config.RuntimeState
  realpath : Text → Option Text
  lstat : Text → Option Stat
  /-- A file system with capacity is mounted on the directory. -/
  mounted : Text → Bool

/-- `realpath` gives canonical paths: each is its own. -/
def View.Canonical (v : View) : Prop := ∀ path resolved, v.realpath path = some resolved →
  resolved.head? = some '/' ∧ v.realpath resolved = some resolved

/-- The errors of the functions here. -/
inductive Refusal where
  /-- `EINVAL`. -/
  | invalid
  /-- `ENAMETOOLONG`. -/
  | tooLong
  /-- `EPERM`. -/
  | forbidden
  /-- The error of a call. -/
  | failed
deriving DecidableEq

/-- `sm_smb_path`. -/
def smbPath (path : Text) : Bool := scheme.isPrefixOf path

/-- The removable package roots. -/
def mountRoots : List Text :=
  ["/mnt/usb0".toList, "/mnt/usb1".toList, "/mnt/usb2".toList, "/mnt/usb3".toList,
    "/mnt/usb4".toList, "/mnt/usb5".toList, "/mnt/usb6".toList, "/mnt/usb7".toList,
    "/mnt/ext0".toList, "/mnt/ext1".toList]

def dataRoot : Text := "/data".toList

/-- `package_root`. -/
def packageRoot (v : View) (path : Text) : Option Text :=
  if smbPath path then
    (parseAddress v.config path).map fun a => scheme ++ (cut (· = '/') (a.path.drop 6)).1
  else if pathMatchesRootOrChild path dataRoot then some dataRoot
  else
    match mountRoots.find? (pathMatchesRootOrChild path) with
    | none => none
    | some root => if v.mounted root then some root else none

/-- The directories of installed content below a user directory. -/
def isContentDirectory (rest : Text) : Bool :=
  ["app".toList, "patch".toList, "addcont".toList].any (pathMatchesRootOrChild rest)

/-- `sm_pkg_is_installed_content_path`. -/
def isInstalledContentPath (path : Text) : Bool :=
  if "/user/".toList.isPrefixOf path then isContentDirectory (path.drop 6)
  else if "/mnt/ext".toList.isPrefixOf path then
    let (digits, rest) := cut (fun c => !c.isDigit) (path.drop 8)
    if digits = [] then false
    else if "/user/".toList.isPrefixOf rest then isContentDirectory (rest.drop 6)
    else if "/ps5/user/".toList.isPrefixOf rest then isContentDirectory (rest.drop 10)
    else false
  else false

/-- The canonical path of a request. -/
def canonicalPath (v : View) (path : Text) : Except Refusal Text :=
  if smbPath path then
    match parseAddress v.config path with
    | none => .error .failed
    | some a => .ok a.path
  else
    match v.realpath path with
    | none => .error .failed
    | some resolved => if maxPath ≤ resolved.length then .error .tooLong else .ok resolved

/-- `resolve_package_path`. -/
def resolvePackagePath (v : View) (path : Text) (directory : Bool) : Except Refusal Text := do
  if (path.head? ≠ some '/' && !smbPath path) || decide (maxPath ≤ path.length) then
    throw .invalid
  let resolved ← canonicalPath v path
  if (packageRoot v resolved).isNone || isInstalledContentPath resolved then
    throw .forbidden
  match v.lstat resolved with
  | none => throw .failed
  | some st =>
    if (if directory then !st.isDirectory else !st.isRegular) then throw .invalid
    else pure resolved

variable {v : View}

/-- A canonical path fits and is what it was. -/
theorem canonicalPath_self (hcanonical : v.Canonical) (h : canonicalPath v path = .ok resolved) :
    resolved.length < maxPath ∧ (resolved.head? = some '/' ∨ smbPath resolved = true) ∧
      (smbPath resolved = smbPath path) ∧ canonicalPath v resolved = .ok resolved := by
  unfold canonicalPath at h
  split at h
  next hsmb =>
    split at h
    next => cases h
    next a ha =>
      cases h
      obtain ⟨name, rest, c, hresolves, -⟩ := exists_resolves ha
      have hscheme : smbPath a.path = true := by
        rw [smbPath, List.isPrefixOf_iff_prefix, hresolves.path]
        exact List.prefix_append _ _
      refine ⟨hresolves.pathShort, .inr hscheme, by rw [hscheme, hsmb], ?_⟩
      unfold canonicalPath
      rw [if_pos hscheme, parseAddress_path hresolves]
  next hlocal =>
    split at h
    next => cases h
    next canonical hreal =>
      split at h
      next => cases h
      next hshort =>
        cases h
        obtain ⟨hslash, hself⟩ := hcanonical _ _ hreal
        have hplain : smbPath resolved = false := by
          obtain ⟨rest, rfl⟩ := List.head?_eq_some_iff.mp hslash
          rfl
        refine ⟨Nat.lt_of_not_le hshort, .inl hslash, ?_, ?_⟩
        · rw [hplain]
          simpa using hlocal
        · unfold canonicalPath
          rw [if_neg (by simp [hplain]), hself]
          simp [hshort]

/-- What is known of a path that was resolved. -/
theorem resolvePackagePath_ok {directory : Bool}
    (h : resolvePackagePath v path directory = .ok resolved) :
    ((path.head? = some '/' ∨ smbPath path = true) ∧ path.length < maxPath) ∧
      canonicalPath v path = .ok resolved ∧ (packageRoot v resolved).isSome ∧
      isInstalledContentPath resolved = false ∧
      ∃ st, v.lstat resolved = some st ∧
        (if directory then st.isDirectory else st.isRegular) = true := by
  unfold resolvePackagePath at h
  simp only [bind, Except.bind, throw, throwThe, MonadExceptOf.throw, pure, Except.pure] at h
  split at h
  next => cases h
  next hguard =>
    have hpath : (path.head? = some '/' ∨ smbPath path = true) ∧ path.length < maxPath := by
      simpa [imp_iff_not_or, not_or] using hguard
    cases hcanonical : canonicalPath v path with
    | error e =>
      rw [hcanonical] at h
      cases h
    | ok canonical =>
      rw [hcanonical] at h
      dsimp only at h
      split at h
      next => cases h
      next hroot =>
        simp only [Bool.or_eq_true, not_or, Bool.not_eq_true] at hroot
        split at h
        next => cases h
        next st hst =>
          have hkind : (if directory then st.isDirectory else st.isRegular) = true ∧
              canonical = resolved := by
            cases directory with
            | true => cases hdir : st.isDirectory <;> simp_all
            | false => cases hreg : st.isRegular <;> simp_all
          obtain ⟨hkind, rfl⟩ := hkind
          refine ⟨hpath, rfl, ?_, hroot.2, st, hst, hkind⟩
          simpa [Option.isSome_iff_ne_none] using hroot.1

/-- A path that was resolved is resolved to itself. -/
theorem resolvePackagePath_again (hcanonical : v.Canonical) {again : Text} {directory : Bool}
    (h : resolvePackagePath v path directory = .ok resolved)
    (h' : resolvePackagePath v resolved directory = .ok again) : again = resolved := by
  obtain ⟨-, hpath, -⟩ := resolvePackagePath_ok h
  obtain ⟨-, hpath', -⟩ := resolvePackagePath_ok h'
  have hself := (canonicalPath_self hcanonical hpath).2.2.2
  rw [hself] at hpath'
  cases hpath'
  rfl

end ShadowMount.PackageSource
