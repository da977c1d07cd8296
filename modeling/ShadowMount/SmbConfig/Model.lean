import ShadowMount.Config.Runtime

/-!
# Stored SMB connections

The part of {lit}`sm_config_mount.c` that keeps the named SMB connections: they are sections
of the main configuration file, and the program holds a copy of them in memory.  An update
reads both files, edits the main document, validates the whole of it, writes the file and then
publishes the connections that were read from the edited document.

Every step may fail.  Of a write it matters only whether it failed before the new file was in
place or when its directory was synchronised afterwards.
-/

namespace ShadowMount.SmbConfig

open Foundation Ini Config

/-- The two files, if they exist, and the configuration in memory. -/
structure Store where
  config : Option Text
  profiles : Option Text
  runtime : RuntimeState

/-- How `sm_ini_write` can fail on a document that it can emit. -/
inductive WriteFault where
  /-- Up to the renaming of the temporary file. -/
  | early
  /-- In `sync_parent`. -/
  | sync
deriving DecidableEq

/-- What goes wrong during an update. -/
structure Faults where
  readConfig : Bool
  readProfiles : Bool
  write : Option WriteFault
deriving DecidableEq

/-- `sm_ini_read` on a file that may be absent. -/
def readFile (fault : Bool) (file : Option Text) : Option Document :=
  if fault then none
  else match file with
    | none => some []
    | some bytes => read false bytes

/-- `read_documents`. -/
def readDocuments (f : Faults) (s : Store) : Option (Document × Document) :=
  match readFile f.readConfig s.config with
  | none => none
  | some main =>
    if !version main then none
    else match readFile f.readProfiles s.profiles with
      | none => none
      | some profiles =>
        if profiles = [] || version profiles then some (main, profiles) else none

/-- `sm_ini_write`: the file after the call and whether it succeeded. -/
def iniWrite (fault : Option WriteFault) (d : Document) (file : Option Text) :
    Option Text × Bool :=
  match write d, fault with
  | none, _ => (file, false)
  | some bytes, none => (some bytes, true)
  | some _, some .early => (file, false)
  | some bytes, some .sync => (some bytes, false)

/-- The part of `save_document` that publishes the modified domain. -/
def publish (individual smb : Bool) (parsed s : RuntimeState) : RuntimeState :=
  let s := if individual then
      { s with
        fakelibRules := parsed.fakelibRules
        globalFakelibExcludeTitleIds := parsed.globalFakelibExcludeTitleIds
        imageModeRules := parsed.imageModeRules }
    else s
  if smb then { s with smb := parsed.smb } else s

/-- `save_document`. -/
def saveDocument (f : Faults) (main profiles : Document) (individual smb : Bool) (s : Store) :
    Store × Bool :=
  let (edited, ok) := set (if individual then profiles else main) "config".toList
    "version".toList (some "2".toList)
  if !ok then (s, false)
  else
    let main := if individual then main else edited
    let profiles := if individual then edited else profiles
    match parseRuntimeConfigState main profiles with
    | none => (s, false)
    | some parsed =>
      let (file, written) := iniWrite f.write edited (if individual then s.profiles else s.config)
      let s := if individual then { s with profiles := file } else { s with config := file }
      if written then ({ s with runtime := publish individual smb parsed s.runtime }, true)
      else (s, false)

/-- The section of a connection. -/
def smbSection (name : Text) : Text := "smb:".toList ++ name

/-- `sm_config_smb_get`. -/
def configSmbGet (s : RuntimeState) (name : Text) : Option Smb.Connection :=
  s.smb.find? fun c => sameNoCase name c.name

/-- The errors of an update. -/
inductive UpdateError where
  /-- The request is not a valid one. -/
  | invalid
  /-- `ENOENT`. -/
  | missing
  /-- `EEXIST`. -/
  | exists
  | failed
deriving DecidableEq

/-- A flag as the update writes it. -/
def flagText (flag : Bool) : Text := if flag then "on".toList else "off".toList

/-- The settings of a connection, in the order in which they are stored. -/
def connectionFields (c : Smb.Connection) : List (Text × Text) :=
  [("path".toList, c.path), ("username".toList, c.username), ("password".toList, c.password),
    ("active".toList, flagText c.active), ("read_only".toList, flagText c.readOnly)]

/-- The chain of `sm_ini_set` calls of `sm_config_smb_update`. -/
def setFields (sect : Text) : List (Text × Text) → Document → Option Document
  | [], d => some d
  | (key, value) :: rest, d =>
    match set d sect key (some value) with
    | (d, true) => setFields sect rest d
    | (_, false) => none

/-- Does the request name a stored connection? -/
def hasPrevious (previous : Option Text) : Bool := previous.getD [] ≠ []

/-- Is the stored connection to be renamed?  The name is compared with the one of the request,
not with the one that is stored. -/
def renames (previous : Option Text) (c : Smb.Connection) : Bool :=
  hasPrevious previous && previous ≠ some c.name

/-- The removal or the renaming of `sm_config_smb_update`. -/
def moveConnection (previous : Option Text) (connection : Option Smb.Connection)
    (main : Document) : Option Document :=
  if !hasPrevious previous then some main
  else match connection with
    | none => some (removeSection main (smbSection (previous.getD [])))
    | some c =>
      if renames previous c then
        match renameSection main (smbSection (previous.getD [])) (smbSection c.name) with
        | (d, true) => some d
        | (_, false) => none
      else some main

/-- The edit of `sm_config_smb_update` on the main document. -/
def editConnection (previous : Option Text) (connection : Option Smb.Connection)
    (main : Document) : Except UpdateError Document :=
  let old := smbSection (previous.getD [])
  if hasPrevious previous && (get main old "path".toList).isNone then .error .missing
  else if connection.any fun c =>
      (previous.all fun name => !sameNoCase name c.name) &&
        (get main (smbSection c.name) "path".toList).isSome then .error .exists
  else match moveConnection previous connection main with
    | none => .error .failed
    | some main =>
      match connection with
      | none => .ok main
      | some c =>
        match setFields (smbSection c.name) (connectionFields c) main with
        | none => .error .failed
        | some main => .ok main

/-- The tests of `sm_config_smb_update` before it reads the files. -/
def validRequest (previous : Option Text) (connection : Option Smb.Connection) : Bool :=
  (match connection with
    | some c => Smb.validate c
    | none => hasPrevious previous) &&
    previous.all fun name => decide (name.length < 64)

/-- `sm_config_smb_update`: the store after the call, and its error. -/
def configSmbUpdate (f : Faults) (previous : Option Text) (connection : Option Smb.Connection)
    (s : Store) : Store × Option UpdateError :=
  if !validRequest previous connection then (s, some .invalid)
  else match readDocuments f s with
    | none => (s, some .failed)
    | some (main, profiles) =>
      match editConnection previous connection main with
      | .error e => (s, some e)
      | .ok main =>
        match saveDocument f main profiles false true s with
        | (s, true) => (s, none)
        | (s, false) => (s, some .failed)

end ShadowMount.SmbConfig
