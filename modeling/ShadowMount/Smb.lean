import ShadowMount.CString

/-!
# SMB connections

The record of a connection and its validation in {lit}`sm_smb.c`.  A connection
is named by the user, and its name becomes a section name of the configuration
file.
-/

namespace ShadowMount.Smb

open Foundation

/-- `sm_smb_connection_t`. -/
structure Connection where
  name : Text
  path : Text
  username : Text
  password : Text
  active : Bool
  readOnly : Bool
deriving DecidableEq

/-- `sm_smb_address_t`. -/
structure Address where
  server : Text
  share : Text
  relative : Text
  domain : Text
  user : Text
  password : Text
  readOnly : Bool
deriving DecidableEq

/-- A component of a path that is neither empty nor a dot entry. -/
def isPlainComponent (component : Text) : Bool :=
  component ≠ [] && component ≠ ".".toList && component ≠ "..".toList

/-- `safe_components`: only the last component may be empty. -/
def safeComponents (path : Text) : Bool :=
  path.all (fun c => !isControl c && c ≠ '\\') &&
    (path.splitOn '/').dropLast.all isPlainComponent &&
    match (path.splitOn '/').getLast? with
    | some last => last = [] || isPlainComponent last
    | none => true

/-- Strip one trailing slash. -/
def dropTrailingSlash (path : Text) : Text :=
  if path.getLast? = some '/' then path.dropLast else path

/-- `base_address`; none for any of its errors. -/
def baseAddress (c : Connection) : Option Address :=
  if !("smb://".toList.isPrefixOf c.path) || !safeComponents (c.path.drop 6) then none
  else
    let (server, share) := cut (· = '/') (c.path.drop 6)
    match share with
    | [] => none
    | _ :: share =>
      if server = [] || share = [] then none
      else if 256 ≤ server.length then none
      else if server.any (fun ch => isSpace ch || ch = '@' || ch = '?' || ch = '#') then none
      else
        let (share, relative) := cut (· = '/') share
        if share = [] || decide (256 ≤ share.length) then none
        else
          let relative := relative.drop 1
          if maxPath ≤ relative.length then none
          else
            let (domain, user) := cut (· = '\\') c.username
            match user with
            | [] => some {
                server := fold server
                share := share
                relative := dropTrailingSlash relative
                domain := []
                user := strlcpy 256 c.username
                password := strlcpy 512 c.password
                readOnly := c.readOnly }
            | _ :: user =>
              if domain = [] || decide (256 ≤ domain.length) || user = [] then none
              else some {
                server := fold server
                share := share
                relative := dropTrailingSlash relative
                domain := domain
                user := strlcpy 256 user
                password := strlcpy 512 c.password
                readOnly := c.readOnly }

/-- The test of `sm_smb_validate` on the name. -/
def validateName (name : Text) : Bool :=
  decide (name.length < 64) && name ≠ [] && name ≠ ".".toList && name ≠ "..".toList &&
    (name.head?.all fun c => !isSpace c) && (name.getLast?.all fun c => !isSpace c) &&
    name.all fun c => !isControl c && c ∉ "/\\:@?#%".toList

/-- `sm_smb_validate` finds nothing wrong. -/
def validate (c : Connection) : Bool :=
  decide (c.path.length < maxPath) && decide (c.username.length < 256) &&
    decide (c.password.length < 512) && validateName c.name &&
    c.username.all (fun ch => !isControl ch) && c.password.all (fun ch => !isControl ch) &&
    (baseAddress c).isSome

end ShadowMount.Smb
