import ShadowMount.CString
import ShadowMount.Pkg.Sfo

/-!
# Package metadata

{lit}`parse_package` of {lit}`sm_pkg.c`: the header of a package, its table of entries, and the
two kinds of parameter files it may hold.  Offsets, counts and sizes are numbers of the untrusted
file.  The file, the memory and the JSON library are what the environment answers.
-/

namespace ShadowMount.Pkg

open Foundation

/-- A parsed JSON value, as far as the parser looks at it. -/
inductive Json where
  | string (text : Text)
  | object (fields : List (Text × Json))
  | other

/-- What the parser gets from outside. -/
structure Environment where
  /-- The bytes of a range of the file, or a failure. -/
  read : (offset size : Nat) → Option { bytes : Bytes // bytes.length = size }
  /-- Whether memory of a size is there. -/
  alloc : Nat → Bool
  /-- The value that `json_tokener_parse_ex` finds, if it succeeds. -/
  json : Bytes → Option Json

/-- The fields of `struct stat` that are kept. -/
structure SourceStat where
  size : UInt64
  device : Nat
  inode : Nat
  ctime : Nat
  mtime : Int
  mtimeNs : Nat
  ctimeNs : Nat

/-- `read_at` into a destination with the given room. -/
def readAt (env : Environment) (fileSize offset size room : Nat) : Checked (Option Bytes) :=
  if fileSize < offset + size then .error .bounds
  else if room < size then .error .overrun
  else .ok ((env.read offset size).map Subtype.val)

/-- `copy_string`. -/
def copyString (size : Nat) (value : Text) : Text :=
  strlcpy size (cut (· = '\x00') value).1

/-- `isalnum`. -/
def isAlnum (c : Char) : Bool :=
  ('0' ≤ c && c ≤ '9') || ('A' ≤ c && c ≤ 'Z') || ('a' ≤ c && c ≤ 'z')

/-- `package_content_id_valid`. -/
def packageContentIdValid (contentId : Text) : Bool :=
  contentId ≠ [] && decide (contentId.length ≤ Field.contentId.size - 1) &&
    contentId.all fun c => isAlnum c || c = '-' || c = '_'

/-- `content_title_id`; none when it is false. -/
def contentTitleId (contentId : Text) : Option Text :=
  match (cut (· = '-') contentId).2 with
  | [] => none
  | _ :: dash =>
    let (title, rest) := cut (· = '_') dash
    if rest = [] || title.length ≠ 9 || !title.all isAlnum then none else some title

/-- `pkg_filename`. -/
def pkgFilename (path : Text) : Text := (path.splitOn '/').getLastD []

/-- `json_object_object_get_ex`. -/
def Json.get (key : Text) : Json → Option Json
  | .object fields => (fields.find? fun field => field.1 = key).map Prod.snd
  | _ => none

/-- The text of a string, as `json_object_get_string` hands it out. -/
def Json.getString (value : Json) (key : String) : Option Text :=
  match value.get key.toList with
  | some (.string text) => some text
  | _ => none

def Json.isObject : Json → Bool
  | .object _ => true
  | _ => false

/-- `parse_json_sdk`. -/
def parseJsonSdk (text : Text) : Nat :=
  match (cut (· = '\x00') text).1 with
  | '0' :: x :: digits =>
    if x ≠ 'x' && x ≠ 'X' then 0
    else if digits.length ≠ 8 && digits.length ≠ 16 then 0
    else match hexValue (digits.map fun c => UInt8.ofNat c.toNat) 0 with
      | none => 0
      | some value => if digits.length = 16 then value / 2 ^ 32 else value
  | _ => 0

/-- The parameters of one language: the default one, or else the first object. -/
def localizedParams (localized : Json) : Option Json :=
  let preferred := (localized.getString "defaultLanguage").bind fun language =>
    localized.get (cut (· = '\x00') language).1
  match preferred with
  | some (.object fields) => some (.object fields)
  | _ => match localized with
    | .object fields => (fields.find? fun field =>
      field.1 ≠ "defaultLanguage".toList && field.2.isObject).map Prod.snd
    | _ => none

/-- Copy a string that is there. -/
def putText (info : Info) (field : Field) (value : Option Text) : Info :=
  match value with
  | some text => info.setText (copyString field.size text) field
  | none => info

/-- The SDK version. -/
def applySdk (root : Json) (info : Info) : Info :=
  match root.getString "sdkVersion" with
  | some text => { info with sdkVersion := parseJsonSdk text }
  | none => info

/-- The content id, which must fit. -/
def applyContentId (root : Json) (info : Info) : Info × Bool :=
  match root.getString "contentId" with
  | some text =>
    if Field.contentId.size ≤ text.length || '\x00' ∈ text then (info, false)
    else (putText info .contentId (some text), true)
  | none => (info, true)

/-- The title id and the version. -/
def applyVersion (root : Json) (info : Info) : Info :=
  let info := putText info .titleId (root.getString "titleId")
  let info := putText info .appVer (root.getString "contentVersion")
  if info.appVer = [] then putText info .appVer (root.getString "masterVersion") else info

/-- The title in the language that is picked. -/
def titleName (root : Json) : Option Text :=
  match root.get "localizedParameters".toList with
  | some (.object fields) =>
    (localizedParams (.object fields)).bind fun params => params.getString "titleName"
  | _ => none

/-- The texts that a JSON value puts into the record. -/
def applyJson (root : Json) (info : Info) : Info × Bool :=
  let (info, ok) := applyContentId root (applySdk root info)
  (putText (applyVersion root info) .titleName (titleName root), ok)

/-- `parse_param_json`. -/
def parseParamJson (env : Environment) (data : Bytes) (info : Info) : Info × Bool :=
  let data := data.rdropWhile (· = 0)
  if data = [] then (info, false)
  else match env.json data with
    | some (.object fields) => applyJson (.object fields) info
    | _ => (info, false)

/-- `be32`. -/
def readBe32 (data : Bytes) (start : Nat) : Checked Nat := do
  let bytes ← readRange data start 4
  return ofLittleEndian bytes.reverse

/-- `le64`. -/
def readU64 (data : Bytes) (start : Nat) : Checked Nat := do
  return ofLittleEndian (← readRange data start 8)

/-- `PKG_HEADER_SIZE`, `PKG_ENTRY_SIZE`, `PKG_MAX_ENTRIES`, `PKG_PARAM_MAX`
and `SM_PKG_ICON_MAX`. -/
def headerSize : Nat := 0xA0
def entrySize : Nat := 0x20
def maxEntries : Nat := 1024
def paramMax : Nat := 1024 * 1024
def iconMax : Nat := 4 * 1024 * 1024

/-- The range of an entry, if it lies behind the base. -/
def entryRange (fileSize base offset length : Nat) : Checked (Option Nat) := do
  let room ← sub fileSize base
  if room < offset then pure none
  else do
    let rest ← sub room offset
    if rest < length then pure none
    else do
      let start ← add 64 base offset
      pure (some start)

/-- The icon entry. -/
def readIconEntry (fileSize base offset length : Nat) (info : Info) : Checked Info :=
  if length < 8 ∨ iconMax < length then pure info
  else do
    let range ← entryRange fileSize base offset length
    match range with
    | none => pure info
    | some start => pure { info with iconOffset := start, iconSize := length }

/-- An entry with a parameter file. -/
def readParamEntry (env : Environment) (fileSize base id offset length : Nat) (info : Info) :
    Checked (Info × Bool) :=
  if length = 0 ∨ paramMax < length then pure (info, true)
  else do
    let range ← entryRange fileSize base offset length
    match range with
    | none => pure (info, true)
    | some start =>
      if !env.alloc length then pure (info, false)
      else do
        let data ← readAt env fileSize start length length
        match data with
        | none => pure (info, false)
        | some data =>
          if id = 0x1000 then parseSfo data info else pure (parseParamJson env data info)

/-- What the loop of `read_pkg_sfo` does with an entry. -/
def readPkgEntry (env : Environment) (fileSize base : Nat) (entries : Bytes) (slot : Nat)
    (info : Info) : Checked (Info × Bool) := do
  let entry ← mul 64 slot entrySize
  let id ← readBe32 entries entry
  let offset ← readBe32 entries (entry + 0x10)
  let length ← readBe32 entries (entry + 0x14)
  if id = 0x1200 then do
    let info ← readIconEntry fileSize base offset length info
    pure (info, true)
  else if id ≠ 0x1000 ∧ id ≠ 0x2000 then pure (info, true)
  else readParamEntry env fileSize base id offset length info

/-- The entries in memory at a turn of the loop: every 32 turns the next ones are read. -/
def readBatch (env : Environment) (fileSize base table count i : Nat) (entries : Bytes) :
    Checked (Option Bytes) :=
  if i % 32 = 0 then do
    let left ← sub count i
    let size ← mul 64 (min left 32) entrySize
    let directory ← add 64 base table
    let skipped ← mul 64 i entrySize
    let offset ← add 64 directory skipped
    let batch ← readAt env fileSize offset size (32 * entrySize)
    pure (batch.map fun bytes => bytes ++ entries.drop size)
  else pure (some entries)

/-- The loop of `read_pkg_sfo`. -/
def readPkgEntries (env : Environment) (fileSize base table count : Nat) :
    List Nat → Bytes → Info → Checked (Info × Bool)
  | [], _, info => pure (info, true)
  | i :: rest, entries, info => do
    let batch ← readBatch env fileSize base table count i entries
    match batch with
    | none => pure (info, false)
    | some entries => do
      let result ← readPkgEntry env fileSize base entries (i % 32) info
      if result.2 then readPkgEntries env fileSize base table count rest entries result.1
      else pure result

/-- `read_pkg_sfo`. -/
def readPkgSfo (env : Environment) (fileSize base : Nat) (header : Bytes) (info : Info) :
    Checked (Info × Bool) := do
  let count ← readBe32 header 0x10
  let table ← readBe32 header 0x18
  let room ← sub fileSize base
  if count = 0 ∨ maxEntries < count ∨ room < table then pure (info, false)
  else do
    let rest ← sub room table
    if rest / entrySize < count then pure (info, false)
    else do
      let entries := List.replicate (32 * entrySize) 0
      readPkgEntries env fileSize base table count (List.range count) entries info

/-- `PKG_MAGIC_CNT`, `PKG_MAGIC_FIH` and `PKG_MAGIC_LIH`. -/
def magicCnt : Nat := 0x7F434E54
def magicFih : Nat := 0x7F464948
def magicLih : Nat := 0x7F4C4948

/-- `sm_pkg_kind_is_installable`. -/
def kindIsInstallable : StorageJob.PkgKind → Bool
  | .base | .patch | .dlc => true
  | .unknown => false

/-- The version of an outer header, and the place of the base in it. -/
def outerVersion (magic : Nat) : Nat := if magic = magicLih then 1 else 3
def basePlace (magic : Nat) : Nat := if magic = magicLih then 0x30 else 0x58

/-- The header of the container and its base; none when the package is refused. -/
def readContainer (env : Environment) (fileSize magic : Nat) (header : Bytes) :
    Checked (Option (Nat × Bytes)) :=
  if magic = magicFih ∨ magic = magicLih then do
    let version ← readU16 header 6
    let base ← readU64 header (basePlace magic)
    if version ≠ outerVersion magic ∨ base < headerSize ∨ fileSize < base then
      pure none
    else do
      let room ← sub fileSize base
      if room < headerSize then pure none
      else do
        let inner ← readAt env fileSize base headerSize headerSize
        match inner with
        | none => pure none
        | some inner => do
          let innerMagic ← readBe32 inner 0
          pure (if innerMagic = magicCnt then some (base, inner) else none)
  else pure (if magic = magicCnt then some (0, header) else none)

/-- The record before the table is read. -/
def initialInfo (path : Text) (st : SourceStat) (outerType outerFlags : Nat) : Info where
  path := copyString maxPath path
  titleId := []
  titleName := []
  contentId := []
  appVer := []
  sourceSize := st.size.toNat
  contentType := 0
  contentFlags := 0
  pkgKind := .unknown
  category := []
  sourceDevice := st.device
  sourceInode := st.inode
  sourceCtime := st.ctime
  sourceMtime := st.mtime
  sourceMtimeNs := st.mtimeNs
  sourceCtimeNs := st.ctimeNs
  iconOffset := 0
  iconSize := 0
  sdkVersion := 0
  outerContentType := outerType
  outerContentFlags := outerFlags
  classificationConfident := false

/-- `PKG_PATCH_FLAG_MASK`. -/
def patchFlagMask : UInt32 := 0x40100000

/-- Is the category one of these, letter case aside? -/
def categoryIn (category : Text) (names : List String) : Bool :=
  names.any fun name => sameNoCase category name.toList

/-- The kind that the category of the parameter file tells. -/
def sfoKind (category : Text) : StorageJob.PkgKind :=
  if categoryIn category ["gd", "gde", "gdc", "gdp"] then .base
  else if categoryIn category ["gp", "gpd", "ps5dp"] then .patch
  else if categoryIn category ["ac", "ps5ac", "dlc"] then .dlc
  else .unknown

/-- The category of the record, or the given one if it has none. -/
def defaultCategory (name : String) (info : Info) : Info :=
  if info.category = [] then { info with category := copyString Field.category.size name.toList }
  else info

/-- The classification at the end of `parse_package`. -/
def classify (magic containerType contentType contentFlags : Nat) (info : Info) : Info :=
  let info := { info with
    contentType := UInt32.ofNat contentType
    contentFlags := UInt32.ofNat contentFlags }
  let delta := magic = magicLih || containerType % 256 = 0x1E || containerType / 2 ^ 24 = 0x41
  let patchCategory := categoryIn info.category ["gp", "gpd", "ps5dp"]
  let info := { info with
    classificationConfident := contentType ∈ [0x1A, 0x1B, 0x1C, 0x20, 0x21, 0x26] || delta }
  let info :=
    if contentType ∈ [0x1B, 0x1C, 0x21] then
      defaultCategory "ac" { info with pkgKind := .dlc }
    else if delta || patchCategory ||
        (!info.isMediaRemaster && info.contentFlags &&& patchFlagMask ≠ 0) then
      defaultCategory "gp" { info with pkgKind := .patch }
    else defaultCategory "gd" { info with pkgKind := .base }
  if info.category ≠ [] && sfoKind info.category ≠ .unknown &&
      sfoKind info.category ≠ info.pkgKind then
    { info with classificationConfident := false }
  else info

/-- What `parse_package` does with the record after the table. -/
def finishPackage (path : Text) (magic containerType contentType contentFlags : Nat)
    (info : Info) : Info × Bool :=
  if !packageContentIdValid info.contentId then (info, false)
  else
    let info := if info.titleId = [] then
        { info with titleId := (contentTitleId info.contentId).getD [] }
      else info
    if info.titleId = [] || !isSupportedGameTitleId info.titleId then (info, false)
    else
      let info := classify magic containerType contentType contentFlags info
      if !kindIsInstallable info.pkgKind || !info.classificationConfident then (info, false)
      else
        let info := if info.titleName = [] then
            { info with titleName := copyString Field.titleName.size (pkgFilename path) }
          else info
        (info, true)

/-- `parse_package`, from the container on. -/
def parseContainer (env : Environment) (path : Text) (fileSize magic base : Nat)
    (header : Bytes) (info : Info) : Checked (Info × Bool) := do
  let field ← readRange header 0x40 36
  let content := untilZero field
  if content = [] ∨ Field.contentId.size ≤ content.length then pure (info, false)
  else do
    let copied ← copyOut Field.contentId.size content
    let info := info.setText (toText copied) .contentId
    if !packageContentIdValid info.contentId then pure (info, false)
    else do
      let result ← readPkgSfo env fileSize base header info
      if !result.2 then pure result
      else do
        let contentType ← readBe32 header 0x74
        let contentFlags ← readBe32 header 0x78
        let containerType ← readBe32 header 4
        pure (finishPackage path magic containerType contentType contentFlags result.1)

/-- `parse_package`. -/
def parsePackage (env : Environment) (path : Text) (st : SourceStat) (info : Info) :
    Checked (Info × Bool) :=
  if st.size.toNat < headerSize then pure (info, false)
  else do
    let header ← readAt env st.size.toNat 0 headerSize headerSize
    match header with
    | none => pure (info, false)
    | some header => do
      let magic ← readBe32 header 0
      let outerType ← readBe32 header 0x74
      let outerFlags ← readBe32 header 0x78
      let container ← readContainer env st.size.toNat magic header
      match container with
      | none => pure (info, false)
      | some (base, inner) =>
        parseContainer env path st.size.toNat magic base inner
          (initialInfo path st outerType outerFlags)

end ShadowMount.Pkg
