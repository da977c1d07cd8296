import ShadowMount.Config.Values
import ShadowMount.Ini.Model
import ShadowMount.Paths

/-!
# Configuration - the runtime state and its loader

The loader of {lit}`sm_config_mount.c`: the two documents are flattened into one
list of settings under their names of the first format, and every setting is then
applied to the runtime state in turn.  Scalar settings are one family, indexed by
{lit}`ScalarKey`; scan paths and the per-image and per-game rules are tables.

Log messages are left out.  A table of the source whose valid entries always form
an initial segment is a list here, bounded as the source bounds it.
-/

namespace ShadowMount.Config

open Foundation Ini

/-- The scalar fields of `runtime_config_t`. -/
inductive ScalarKey where
  | debug | quietMode | librarySyncNotification | language
  | apiEnabled | apiBindAddress | apiPort
  | scanDepth | scanInterval | stabilityWait
  | mountReadOnly | forceMount | persistentImageMounts | exfatBackend | ufsBackend
  | nestedPfsIndexCache
  | appInstallAll | autoRemoveMissingGames | autoRemoveGamesWithDlc | autoRemoveMissingDelay
  | backportFakelib | fakelibDefaultMode | globalFakelib | globalFakelibPath
  | globalFakelibPriority
  | updateEmulators | emulatorsPath | autoUpdateAmpr | amprUpdateUrl
  | fanTargetTemperature
  | lvdExfatSectorSize | lvdUfsSectorSize | lvdPfsSectorSize | mdExfatSectorSize
  | mdUfsSectorSize
deriving DecidableEq

/-- The value of a scalar field. -/
inductive ScalarValue where
  | bool (b : Bool)
  | number (n : Nat)
  | text (t : Text)
  | mode (m : FakelibMode)
  | language (id : Option Nat)
  | backend (b : AttachBackend)
deriving DecidableEq

/-- `init_runtime_config_defaults`, for the scalar fields. -/
def scalarDefault : ScalarKey → ScalarValue
  | .debug => .bool true
  | .quietMode => .bool false
  | .librarySyncNotification => .bool true
  | .language => .language none
  | .apiEnabled => .bool true
  | .apiBindAddress => .text "0.0.0.0".toList
  | .apiPort => .number 10101
  | .scanDepth => .number 1
  | .scanInterval => .number 15000000
  | .stabilityWait => .number 10
  | .mountReadOnly => .bool true
  | .forceMount => .bool false
  | .persistentImageMounts => .bool false
  | .exfatBackend => .backend .lvd
  | .ufsBackend => .backend .lvd
  | .nestedPfsIndexCache => .bool false
  | .appInstallAll => .bool false
  | .autoRemoveMissingGames => .bool false
  | .autoRemoveGamesWithDlc => .bool false
  | .autoRemoveMissingDelay => .number 300
  | .backportFakelib => .bool true
  | .fakelibDefaultMode => .mode .full
  | .globalFakelib => .bool true
  | .globalFakelibPath => .text "/data/shadowmount/fakelib".toList
  | .globalFakelibPriority => .bool true
  | .updateEmulators => .bool true
  | .emulatorsPath => .text "/data/shadowmount/emus".toList
  | .autoUpdateAmpr => .bool false
  | .amprUpdateUrl => .text
      "https://github.com/drakmor/ampr_emu/releases/latest/download/libSceAmpr.sprx".toList
  | .fanTargetTemperature => .number 0
  | .lvdExfatSectorSize => .number 512
  | .lvdUfsSectorSize => .number 4096
  | .lvdPfsSectorSize => .number 4096
  | .mdExfatSectorSize => .number 512
  | .mdUfsSectorSize => .number 4096

/-- The value a scalar setting is given by a text, if the text is valid for it. -/
def parseScalar (key : ScalarKey) (value : Text) : Option ScalarValue :=
  match key with
  | .debug | .quietMode | .librarySyncNotification | .apiEnabled | .mountReadOnly | .forceMount
  | .persistentImageMounts | .nestedPfsIndexCache | .appInstallAll | .autoRemoveMissingGames
  | .autoRemoveGamesWithDlc | .backportFakelib | .globalFakelib | .updateEmulators
  | .autoUpdateAmpr => (parseBoolIni value).map .bool
  | .language => (parseLanguageId value).map .language
  | .apiBindAddress =>
    if value.length < maxApiBindAddress ∧ isIpv4Address value then some (.text value) else none
  | .apiPort => (parseBounded 1 65535 value).map .number
  | .scanDepth => (parseBounded 1 2 value).map .number
  | .scanInterval => (parseBounded 1 3600 value).map fun n => .number (n * 1000000)
  | .stabilityWait => (parseBounded 0 3600 value).map .number
  | .autoRemoveMissingDelay => (parseBounded 1 86400 value).map .number
  | .exfatBackend | .ufsBackend => (parseBackendIni value).map .backend
  | .fakelibDefaultMode =>
    match parseFakelibMode value with
    | some .default | none => none
    | some mode => some (.mode mode)
  | .globalFakelibPath | .emulatorsPath => (normalizeAbsolutePathValue value).map .text
  | .globalFakelibPriority =>
    if sameNoCase value "game".toList then some (.bool true)
    else if sameNoCase value "global".toList then some (.bool false)
    else none
  | .amprUpdateUrl => (normalizeHttpUrlValue value).map .text
  | .fanTargetTemperature =>
    if sameNoCase value "system".toList || sameNoCase value "auto".toList then some (.number 0)
    else (parseBounded 50 91 value).map .number
  | .lvdExfatSectorSize | .lvdUfsSectorSize | .lvdPfsSectorSize | .mdExfatSectorSize
  | .mdUfsSectorSize => (parseSectorSize value).map .number

/-- What a flat setting is about. -/
inductive Setting where
  | scalar (key : ScalarKey)
  | scanpath
  | imageMode (readOnly : Bool)
  | imageSector
  | fakelibExclude
  | fakelibMode
  | globalFakelibExclude
deriving DecidableEq

/-- The names that `parse_runtime_config_state` compares a key with. -/
def settingNames : List (String × Setting) :=
  [ ("debug", .scalar .debug), ("quiet_mode", .scalar .quietMode),
    ("library_sync_notification", .scalar .librarySyncNotification),
    ("language", .scalar .language), ("lang", .scalar .language), ("locale", .scalar .language),
    ("api_enabled", .scalar .apiEnabled),
    ("api_bind_address", .scalar .apiBindAddress), ("api_bind_adress", .scalar .apiBindAddress),
    ("api_port", .scalar .apiPort),
    ("mount_read_only", .scalar .mountReadOnly), ("read_only", .scalar .mountReadOnly),
    ("force_mount", .scalar .forceMount),
    ("persistent_image_mounts", .scalar .persistentImageMounts),
    ("app_install_all", .scalar .appInstallAll),
    ("auto_remove_missing_games", .scalar .autoRemoveMissingGames),
    ("auto_remove_games_with_dlc", .scalar .autoRemoveGamesWithDlc),
    ("image_ro", .imageMode true), ("image_rw", .imageMode false), ("image_sector", .imageSector),
    ("scan_depth", .scalar .scanDepth), ("backport_fakelib", .scalar .backportFakelib),
    ("fakelib_default_mode", .scalar .fakelibDefaultMode),
    ("fakelib_exclude", .fakelibExclude), ("fakelib_mode", .fakelibMode),
    ("global_fakelib", .scalar .globalFakelib),
    ("global_fakelib_enabled", .scalar .globalFakelib),
    ("global_fakelib_path", .scalar .globalFakelibPath),
    ("global_fakelib_priority", .scalar .globalFakelibPriority),
    ("global_fakelib_exclude", .globalFakelibExclude),
    ("global_fakelib_exclude_title", .globalFakelibExclude),
    ("update_emulators", .scalar .updateEmulators), ("emulators_path", .scalar .emulatorsPath),
    ("auto_update_ampr", .scalar .autoUpdateAmpr), ("ampr_update_url", .scalar .amprUpdateUrl),
    ("fan_target_temperature", .scalar .fanTargetTemperature),
    ("scan_interval_seconds", .scalar .scanInterval), ("scan_interval_sec", .scalar .scanInterval),
    ("stability_wait_seconds", .scalar .stabilityWait),
    ("stability_wait_sec", .scalar .stabilityWait),
    ("auto_remove_missing_delay_seconds", .scalar .autoRemoveMissingDelay),
    ("auto_remove_missing_delay_sec", .scalar .autoRemoveMissingDelay),
    ("exfat_backend", .scalar .exfatBackend), ("ufs_backend", .scalar .ufsBackend),
    ("nested_pfs_index_cache", .scalar .nestedPfsIndexCache),
    ("legacy_gddr5_cache", .scalar .nestedPfsIndexCache),
    ("scanpath", .scanpath),
    ("lvd_exfat_sector_size", .scalar .lvdExfatSectorSize),
    ("lvd_ufs_sector_size", .scalar .lvdUfsSectorSize),
    ("lvd_pfs_sector_size", .scalar .lvdPfsSectorSize),
    ("md_exfat_sector_size", .scalar .mdExfatSectorSize),
    ("md_ufs_sector_size", .scalar .mdUfsSectorSize) ]

def findSetting (key : Text) : Option Setting :=
  (settingNames.find? fun entry => sameNoCase key entry.1.toList).map (·.2)

/-- `image_mode_rule_t`; a missing part stands for its unset flag. -/
structure ImageModeRule where
  filename : Text
  mountReadOnly : Option Bool
  sectorSize : Option Nat
deriving DecidableEq

/-- `sm_fakelib_rule_t`. -/
structure FakelibRule where
  titleId : Text
  mode : FakelibMode
deriving DecidableEq

def maxImageModeRules : Nat := 128
def maxFakelibExcludeRules : Nat := 128
def maxScanPaths : Nat := 256

/-- The common part of `set_image_mode_rule` and `set_image_sector_rule`:
change the first rule of the image, or add one. -/
def updateImageRule (name : Text) (change : ImageModeRule → ImageModeRule) :
    List ImageModeRule → Nat → Option (List ImageModeRule)
  | [], used => if used < maxImageModeRules then some [change ⟨name, none, none⟩] else none
  | rule :: rules, used =>
    if sameNoCase rule.filename name then some (change rule :: rules)
    else (updateImageRule name change rules (used + 1)).map (rule :: ·)

/-- `set_image_mode_rule`. -/
def setImageModeRule (rules : List ImageModeRule) (path : Text) (readOnly : Bool) :
    Option (List ImageModeRule) :=
  match normalizeImageFilenameValue path with
  | none => none
  | some name =>
    updateImageRule name (fun rule => { rule with mountReadOnly := some readOnly }) rules 0

/-- `parse_image_sector_rule_value`: the text is split at its last colon. -/
def parseImageSectorRuleValue (value : Text) : Option (Text × Nat) :=
  if maxPath ≤ value.length then none
  else if ':' ∉ value then none
  else
    let sector := afterLast ':' value
    let filename := value.take (value.length - sector.length - 1)
    match normalizeImageFilenameValue (trimAscii filename), parseSectorSize (trimAscii sector) with
    | some name, some size => some (name, size)
    | _, _ => none

/-- `set_image_sector_rule`. -/
def setImageSectorRule (rules : List ImageModeRule) (value : Text) : Option (List ImageModeRule) :=
  match parseImageSectorRuleValue value with
  | none => none
  | some (name, size) =>
    updateImageRule name (fun rule => { rule with sectorSize := some size }) rules 0

/-- A supported title id. -/
def parseSupportedTitle (value : Text) : Option Text :=
  match normalizeTitleIdValue value with
  | some title => if isSupportedGameTitleId title then some title else none
  | none => none

/-- `parse_title_fakelib_rule` for `fakelib_mode`: the text is split at its
first colon. -/
def parseTitleFakelibRule (value : Text) : Option (Text × FakelibMode) :=
  match cut (· = ':') value with
  | (_, []) => none
  | (rawTitle, _ :: mode) =>
    if maxTitleId ≤ rawTitle.length then none
    else match parseSupportedTitle rawTitle, parseFakelibMode mode with
      | some title, some mode => some (title, mode)
      | _, _ => none

/-- `set_title_fakelib_rule`; the default mode removes the rule. -/
def setTitleFakelibRule (title : Text) (mode : FakelibMode) :
    List FakelibRule → Nat → Option (List FakelibRule)
  | [], used =>
    if mode = .default then some []
    else if used < maxFakelibExcludeRules then some [⟨title, mode⟩]
    else none
  | rule :: rules, used =>
    if rule.titleId = title then
      some (if mode = .default then rules else { rule with mode := mode } :: rules)
    else (setTitleFakelibRule title mode rules (used + 1)).map (rule :: ·)

/-- `add_global_fakelib_exclude_rule`. -/
def addGlobalFakelibExcludeRule (titles : List Text) (value : Text) : Option (List Text) :=
  match normalizeTitleIdValue value with
  | none => none
  | some title =>
    if title ∈ titles then some titles
    else if titles.length < maxFakelibExcludeRules then some (titles ++ [title])
    else none

/-- `add_runtime_scan_path`. -/
def addRuntimeScanPath (paths : List Text) (path : Text) : Option (List Text) :=
  let path := trim isSpace path
  if path = [] || decide (maxPath ≤ path.length) then none
  else if stripTrailingSlashes path ∈ paths then some paths
  else if paths.length < maxScanPaths then some (paths ++ [stripTrailingSlashes path])
  else none

/-- `runtime_config_state_t`. -/
structure RuntimeState where
  scalar : ScalarKey → ScalarValue
  scanPaths : List Text
  customScanPathCount : Nat
  imageModeRules : List ImageModeRule
  fakelibRules : List FakelibRule
  globalFakelibExcludeTitleIds : List Text
  smb : List Smb.Connection

/-- `k_default_scan_paths`. -/
def defaultScanPaths : List String :=
  [ "/data/homebrew", "/data/etaHEN/games", "/mnt/ext0/homebrew", "/mnt/ext0/etaHEN/games",
    "/mnt/ext1/homebrew", "/mnt/ext1/etaHEN/games", "/mnt/usb0/homebrew", "/mnt/usb1/homebrew",
    "/mnt/usb2/homebrew", "/mnt/usb3/homebrew", "/mnt/usb4/homebrew", "/mnt/usb5/homebrew",
    "/mnt/usb6/homebrew", "/mnt/usb7/homebrew", "/mnt/usb0/etaHEN/games",
    "/mnt/usb1/etaHEN/games", "/mnt/usb2/etaHEN/games", "/mnt/usb3/etaHEN/games",
    "/mnt/usb4/etaHEN/games", "/mnt/usb5/etaHEN/games", "/mnt/usb6/etaHEN/games",
    "/mnt/usb7/etaHEN/games", "/mnt/usb0", "/mnt/usb1", "/mnt/usb2", "/mnt/usb3", "/mnt/usb4",
    "/mnt/usb5", "/mnt/usb6", "/mnt/usb7", "/mnt/ext0", "/mnt/ext1" ]

def pfscImageMountBase : Text := "/mnt/shadowmnt/pfsc".toList

/-- Add a path and ignore a failure. -/
def tryScanPath (paths : List Text) (path : Text) : List Text :=
  (addRuntimeScanPath paths path).getD paths

/-- `add_runtime_managed_scan_paths`. -/
def addRuntimeManagedScanPaths (paths : List Text) : List Text :=
  tryScanPath (tryScanPath paths pfscImageMountBase) imageMountBase

/-- `init_runtime_scan_paths_defaults`. -/
def initRuntimeScanPathsDefaults : List Text :=
  addRuntimeManagedScanPaths
    (defaultScanPaths.foldl (fun paths path => tryScanPath paths path.toList) [])

/-- `init_runtime_config_defaults`. -/
def initRuntimeConfigDefaults : RuntimeState where
  scalar := scalarDefault
  scanPaths := initRuntimeScanPathsDefaults
  customScanPathCount := 0
  imageModeRules := []
  fakelibRules := []
  globalFakelibExcludeTitleIds := []
  smb := []

/-- The state and the local variables of the loop of
`parse_runtime_config_state`. -/
structure Loading where
  state : RuntimeState
  hasCustomScanpaths : Bool
  invalid : Bool

/-- The result of a table update, or an invalid setting. -/
def Loading.store {α : Type} (ld : Loading) (result : Option α)
    (put : RuntimeState → α → RuntimeState) : Loading :=
  match result with
  | some value => { ld with state := put ld.state value }
  | none => { ld with invalid := true }

/-- One turn of the loop of `parse_runtime_config_state`. -/
def applySetting (ld : Loading) (key value : Text) : Loading :=
  match findSetting key with
  | none => ld
  | some (.scalar k) => ld.store (parseScalar k value) fun s v =>
    { s with scalar := fun k' => if k' = k then v else s.scalar k' }
  | some (.imageMode readOnly) =>
    ld.store (setImageModeRule ld.state.imageModeRules value readOnly) fun s rules =>
      { s with imageModeRules := rules }
  | some .imageSector =>
    ld.store (setImageSectorRule ld.state.imageModeRules value) fun s rules =>
      { s with imageModeRules := rules }
  | some .fakelibExclude =>
    ld.store ((parseSupportedTitle value).bind fun title =>
      setTitleFakelibRule title .disabled ld.state.fakelibRules 0) fun s rules =>
      { s with fakelibRules := rules }
  | some .fakelibMode =>
    ld.store ((parseTitleFakelibRule value).bind fun rule =>
      setTitleFakelibRule rule.1 rule.2 ld.state.fakelibRules 0) fun s rules =>
      { s with fakelibRules := rules }
  | some .globalFakelibExclude =>
    ld.store (addGlobalFakelibExcludeRule ld.state.globalFakelibExcludeTitleIds value)
      fun s titles => { s with globalFakelibExcludeTitleIds := titles }
  | some .scanpath =>
    -- the first custom path replaces the defaults
    let paths := if ld.hasCustomScanpaths then ld.state.scanPaths else []
    match addRuntimeScanPath paths value with
    | some paths =>
      { ld with state := { ld.state with scanPaths := paths }, hasCustomScanpaths := true }
    | none =>
      { state := { ld.state with scanPaths := paths }
        hasCustomScanpaths := true
        invalid := true }

/-- The loop over the flat settings. -/
def applySettings (ld : Loading) (settings : List (Text × Text)) : Loading :=
  settings.foldl (fun ld setting => applySetting ld setting.1 setting.2) ld

/-- What a line of a document becomes. -/
inductive Flattened where
  | skip
  | setting (key value : Text)
  | error
deriving DecidableEq

/-- A name starts with a tag, in any case. -/
def hasTag (tag : String) (sect : Text) : Bool :=
  sameNoCase (sect.take tag.toList.length) tag.toList

/-- The key table entry of a line of the main document. -/
def findConfigKey (sect key : Text) : Option ConfigKey :=
  configKeys.find? fun k => sameNoCase sect k.sect && sameNoCase key k.key

/-- One turn of the first loop of `flatten_documents`; `rest` are the lines
behind it, so that the line is in force when none of them has its key. -/
def flattenMainLine (l : Line) (rest : Document) : Flattened :=
  match l.content with
  | .entry key value =>
    if sameNoCase l.sect "config".toList || hasTag "smb:" l.sect then .skip
    else match findConfigKey l.sect key with
      | none => .skip
      | some mapping =>
        if mapping.legacy ≠ "scanpath".toList ∧ (get rest l.sect key).isSome then .skip
        else .setting mapping.legacy value
  | _ => .skip

/-- Size of the buffer of a flattened rule, its terminator included. -/
def maxFlatValue : Nat := maxPath + 64

/-- A game section's line. -/
def flattenGameLine (sect key value : Text) : Flattened :=
  match parseSupportedTitle (sect.drop 5) with
  | none => .error
  | some title =>
    if sameNoCase key "fakelib".toList then
      .setting "fakelib_mode".toList (strlcpy maxFlatValue (title ++ ':' :: value))
    else if sameNoCase key "ignore_global_fakelib".toList then
      if sameNoCase value "default".toList then .skip
      else match parseBoolIni value with
        | none => .error
        | some false => .skip
        | some true => .setting "global_fakelib_exclude".toList title
    else .skip

/-- An image section's line. -/
def flattenImageLine (sect key value : Text) : Flattened :=
  if '/' ∈ sect.drop 6 then .error
  else match normalizeImageFilenameValue (sect.drop 6) with
    | none => .error
    | some filename =>
      if sameNoCase value "default".toList then .skip
      else if sameNoCase key "mount_mode".toList then
        if sameNoCase value "ro".toList then .setting "image_ro".toList filename
        else if sameNoCase value "rw".toList then .setting "image_rw".toList filename
        else .error
      else if sameNoCase key "sector_size".toList then
        .setting "image_sector".toList (strlcpy maxFlatValue (filename ++ ':' :: value))
      else .skip

/-- One turn of the second loop of `flatten_documents`. -/
def flattenProfileLine (l : Line) (rest : Document) : Flattened :=
  match l.content with
  | .entry key value =>
    if sameNoCase l.sect "config".toList then .skip
    else if (get rest l.sect key).isSome then .skip
    else if hasTag "game:" l.sect then flattenGameLine l.sect key value
    else if hasTag "image:" l.sect then flattenImageLine l.sect key value
    else .skip
  | _ => .skip

/-- A loop of `flatten_documents`: the settings are appended to the flat
document. -/
def flattenLines (flattenLine : Line → Document → Flattened) :
    Document → Document → Option Document
  | [], flat => some flat
  | l :: rest, flat =>
    match flattenLine l rest with
    | .skip => flattenLines flattenLine rest flat
    | .error => none
    | .setting key value =>
      match append flat "runtime".toList key value with
      | (flat, true) => flattenLines flattenLine rest flat
      | (_, false) => none

/-- `flatten_documents`. -/
def flattenDocuments (main profiles : Document) : Option Document :=
  match flattenLines flattenMainLine main [] with
  | none => none
  | some flat => flattenLines flattenProfileLine profiles flat

/-- The connection of one section header. -/
def readSmbConnection (d : Document) (sect : Text) : Option Smb.Connection :=
  match get d sect "path".toList with
  | none => none
  | some path =>
    let field (key : String) := (get d sect key.toList).getD []
    let flag (key : String) (absent : Bool) :=
      match get d sect key.toList with
      | none => some absent
      | some value => parseBoolIni value
    match flag "active" true, flag "read_only" false with
    | some active, some readOnly =>
      let c : Smb.Connection :=
        ⟨sect.drop 4, path, field "username", field "password", active, readOnly⟩
      if Smb.validate c then some c else none
    | _, _ => none

/-- `SM_SMB_CONNECTIONS_MAX`. -/
def smbConnectionsMax : Nat := 16

/-- The loop of `read_smb_connections` over the headers. -/
def readSmbLines (d : Document) : Document → List Smb.Connection → Option (List Smb.Connection)
  | [], items => some items
  | l :: rest, items =>
    if l.content ≠ .header || !hasTag "smb:" l.sect then readSmbLines d rest items
    else if items.any (fun c => sameNoCase c.name (l.sect.drop 4)) then readSmbLines d rest items
    else if smbConnectionsMax ≤ items.length then none
    else match readSmbConnection d l.sect with
      | none => none
      | some c => readSmbLines d rest (items ++ [c])

/-- `read_smb_connections`. -/
def readSmbConnections (d : Document) : Option (List Smb.Connection) :=
  readSmbLines d d []

/-- The settings of a flat document, in order. -/
def flatSettings (flat : Document) : List (Text × Text) :=
  flat.filterMap fun l => match l.content with
    | .entry key value => some (key, value)
    | _ => none

/-- The end of `parse_runtime_config_state`. -/
def finishScanPaths (ld : Loading) : RuntimeState :=
  if ld.hasCustomScanpaths && ld.state.scanPaths = [] then
    { ld.state with scanPaths := addRuntimeManagedScanPaths initRuntimeScanPathsDefaults }
  else
    { ld.state with
      customScanPathCount :=
        if ld.hasCustomScanpaths then ld.state.scanPaths.length else ld.state.customScanPathCount
      scanPaths := addRuntimeManagedScanPaths ld.state.scanPaths }

/-- `parse_runtime_config_state`. -/
def parseRuntimeConfigState (main profiles : Document) : Option RuntimeState :=
  match flattenDocuments main profiles, readSmbConnections main with
  | some flat, some smb =>
    let ld := applySettings ⟨{ initRuntimeConfigDefaults with smb := smb }, false, false⟩
      (flatSettings flat)
    if ld.invalid then none else some (finishScanPaths ld)
  | _, _ => none

/-- `get_image_mode_override`. -/
def getImageModeOverride (s : RuntimeState) (filename : Text) : Option Bool :=
  match normalizeImageFilenameValue filename with
  | none => none
  | some name => s.imageModeRules.findSome? fun rule =>
    if sameNoCase rule.filename name then rule.mountReadOnly else none

/-- `get_image_sector_size_override`. -/
def getImageSectorSizeOverride (s : RuntimeState) (filename : Text) : Option Nat :=
  match normalizeImageFilenameValue filename with
  | none => none
  | some name => s.imageModeRules.findSome? fun rule =>
    if sameNoCase rule.filename name then rule.sectorSize else none

/-- `sm_config_title_fakelib_override`. -/
def titleFakelibOverride (s : RuntimeState) (title : Text) : FakelibMode :=
  match s.fakelibRules.find? fun rule => sameNoCase rule.titleId title with
  | some rule => rule.mode
  | none => .default

/-- `is_global_fakelib_excluded_for_title`. -/
def isGlobalFakelibExcludedForTitle (s : RuntimeState) (titleId : Text) : Bool :=
  match normalizeTitleIdValue titleId with
  | none => false
  | some title => s.globalFakelibExcludeTitleIds.any fun id => sameNoCase id title

end ShadowMount.Config
