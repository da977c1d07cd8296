import ShadowMount.Types

/-!
# Paths and file status

The path predicates of {lit}`sm_path_utils.c`, and what the functions of the
program learn about a path from {lit}`stat`.  The file system itself is never
modelled as a state here: every step of a component carries the answers it gets,
so that statements about all steps cover every history of the file system.
-/

namespace ShadowMount

/-- The fields of `struct stat` that the modelled functions read. -/
structure Stat where
  isDirectory : Bool
  isRegular : Bool
  inode : Nat
  size : Int
  mtimeSec : Int
  mtimeNsec : Int
  ctimeSec : Int
  ctimeNsec : Int
deriving DecidableEq

/-- The outcome of `stat`: the status, or the error that the callers tell
apart. -/
inductive StatOutcome where
  | found (st : Stat)
  | missing
  | notDirectory
  | failed
deriving DecidableEq

/-- The answers of `stat` at one moment. -/
abbrev StatView := Text → StatOutcome

/-- `path_exists`. -/
def pathExists (stat : StatView) (path : Text) : Bool :=
  path ≠ [] && match stat path with
    | .found _ => true
    | _ => false

def imageMountBase : Text := "/mnt/shadowmnt".toList

/-- `is_under_image_mount_base`. -/
def isUnderImageMountBase (path : Text) : Bool :=
  imageMountBase.isPrefixOf path && (path.drop imageMountBase.length).head? = some '/'

/-- `path_matches_root_or_child`. -/
def pathMatchesRootOrChild (path root : Text) : Bool :=
  if root = [] then false
  else if !root.isPrefixOf path then false
  else if root = ['/'] then true
  else
    let rest := path.drop root.length
    rest = [] || rest.head? = some '/'

end ShadowMount
