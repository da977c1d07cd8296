import ShadowMount.Paths
import Mathlib.Data.Fin.Tuple.Basic
import Mathlib.Logic.Function.Basic

/-!
# Image index - the operations of {lit}`sm_image_index.c`

The index remembers, for each backing image, the fingerprint its last scan began
with, whether that scan was completed, and the titles found in it.  It is kept in
two fixed tables guarded by one mutex and persisted in one file, so every public
operation is one atomic step.

The sizes of the two tables are parameters; the source fixes them to
{lit}`MAX_IMAGE_MOUNTS` and {lit}`MAX_IMAGE_TITLES`.  The repair of
{lit}`mount.lnk` files inside {lit}`sm_image_index_record_game` writes no index
state and is left out.
-/

namespace ShadowMount.ImageIndex

variable {m t : Nat}

/-- `image_index_entry_t`. -/
structure Entry where
  path : Text
  size : Int
  mtimeSec : Int
  mtimeNsec : Int
  complete : Bool
  valid : Bool
deriving DecidableEq

def Entry.zero : Entry where
  path := []
  size := 0
  mtimeSec := 0
  mtimeNsec := 0
  complete := false
  valid := false

/-- `image_index_title_t`. -/
structure Title where
  imageIndex : Nat
  valid : Bool
  titleId : Text
deriving DecidableEq

def Title.zero : Title where
  imageIndex := 0
  valid := false
  titleId := []

/-- `image_index_file_stamp_t`; an absent file has the zero stamp. -/
structure FileStamp where
  inode : Nat
  size : Int
  mtimeSec : Int
  ctimeSec : Int
  mtimeNsec : Int
  ctimeNsec : Int
  present : Bool
deriving DecidableEq

def FileStamp.zero : FileStamp where
  inode := 0
  size := 0
  mtimeSec := 0
  ctimeSec := 0
  mtimeNsec := 0
  ctimeNsec := 0
  present := false

/-- `image_index_context_t`: the stamps of the two configuration files. -/
structure Context where
  config : FileStamp
  profiles : FileStamp
deriving DecidableEq

/-- The index file.  `headerAccepted` stands for the comparison of the magic,
the version, the capacities and the build time with those of this build, and
`complete` for a file long enough to hold both tables. -/
structure SavedIndex (m t : Nat) where
  headerAccepted : Bool
  context : Context
  complete : Bool
  entries : Fin m → Entry
  titles : Fin t → Title

/-- The variables of the index and its file. -/
structure Index (m t : Nat) where
  entries : Fin m → Entry
  titles : Fin t → Title
  loaded : Bool
  dirty : Bool
  contextValid : Bool
  context : Context
  saved : Option (SavedIndex m t)

/-- The index at program start, over any index file. -/
def Index.initial (saved : Option (SavedIndex m t)) : Index m t where
  entries := fun _ => Entry.zero
  titles := fun _ => Title.zero
  loaded := false
  dirty := false
  contextValid := false
  context := ⟨FileStamp.zero, FileStamp.zero⟩
  saved := saved

/-- What an operation observes outside the index: file status, the stamps'
sources, the outermost backing image of a mounted path, and whether writing the
index file succeeds. -/
structure World where
  stat : StatView
  configStat : StatOutcome
  profilesStat : StatOutcome
  outermostImage : Text → Option Text
  saveSucceeds : Bool

/-- `read_file_stamp`: an absent file is a valid answer. -/
def readFileStamp : StatOutcome → Option FileStamp
  | .found st => some {
      inode := st.inode
      size := st.size
      mtimeSec := st.mtimeSec
      ctimeSec := st.ctimeSec
      mtimeNsec := st.mtimeNsec
      ctimeNsec := st.ctimeNsec
      present := true }
  | .missing => some FileStamp.zero
  | .notDirectory | .failed => none

def readIndexContext (w : World) : Option Context :=
  match readFileStamp w.configStat, readFileStamp w.profilesStat with
  | some config, some profiles => some ⟨config, profiles⟩
  | _, _ => none

/-- `clear_index`. -/
def clearIndex (x : Index m t) : Index m t :=
  { x with entries := fun _ => Entry.zero, titles := fun _ => Title.zero, dirty := false }

/-- `discard_index`: the tables and the file go. -/
def discardIndex (x : Index m t) : Index m t :=
  { clearIndex x with saved := none }

/-- `refresh_index_context`. -/
def refreshIndexContext (w : World) (x : Index m t) : Index m t × Bool :=
  match readIndexContext w with
  | none => ({ discardIndex x with contextValid := false }, false)
  | some context =>
    if x.contextValid ∧ x.context.config = context.config ∧
        x.context.profiles = context.profiles then (x, true)
    else ({ discardIndex x with context := context, contextValid := true }, true)

/-- `loaded_index_is_valid`. -/
def loadedIndexIsValid (f : SavedIndex m t) : Bool :=
  decide ((∀ i, (f.entries i).valid → (f.entries i).path ≠ [] ∧
      (f.entries i).path.length < maxPath) ∧
    ∀ i, (f.titles i).valid →
      (∃ h : (f.titles i).imageIndex < m, (f.entries ⟨_, h⟩).valid = true) ∧
        (f.titles i).titleId ≠ [] ∧ (f.titles i).titleId.length < maxTitleId)

/-- `load_index`: the file is read once, by the first operation. -/
def loadIndex (w : World) (x : Index m t) : Index m t :=
  if x.loaded then x
  else
    let context := readIndexContext w
    let x := { x with
      loaded := true
      contextValid := context.isSome
      context := context.getD x.context }
    match x.saved with
    | none => x
    | some f =>
      if f.headerAccepted && context = some f.context && f.complete &&
          loadedIndexIsValid f then
        { x with entries := f.entries, titles := f.titles }
      else discardIndex x

/-- `save_index`. -/
def saveIndex (w : World) (x : Index m t) : Index m t :=
  if !x.dirty then x
  else if w.saveSucceeds then
    { x with
      dirty := false
      saved := some ⟨true, x.context, true, x.entries, x.titles⟩ }
  else x

def findEntry (x : Index m t) (path : Text) : Option (Fin m) :=
  Fin.find? fun i => (x.entries i).valid && (x.entries i).path = path

/-- The 16-bit index a title record stores. -/
def storedIndex (i : Fin m) : Nat :=
  i.val % 2 ^ 16

def clearEntryTitles (x : Index m t) (i : Fin m) : Index m t :=
  { x with titles := fun j =>
      if (x.titles j).valid && (x.titles j).imageIndex = storedIndex i then Title.zero
      else x.titles j }

def clearEntry (x : Index m t) (i : Fin m) : Index m t :=
  let x := clearEntryTitles x i
  { x with entries := Function.update x.entries i Entry.zero, dirty := true }

def reserveEntry (x : Index m t) (path : Text) : Index m t × Option (Fin m) :=
  match findEntry x path with
  | some i => (x, some i)
  | none =>
    match Fin.find? fun i => !(x.entries i).valid with
    | none => (x, none)
    | some i =>
      let e := { x.entries i with valid := true, path := strlcpy maxPath path }
      ({ x with entries := Function.update x.entries i e }, some i)

/-- `begin_scan_locked`. -/
def beginScanLocked (x : Index m t) (path : Text) (st : Stat) : Index m t :=
  match reserveEntry x path with
  | (x, none) => x
  | (x, some i) =>
    let x := clearEntryTitles x i
    { x with
      entries := Function.update x.entries i
        { x.entries i with
          size := st.size
          mtimeSec := st.mtimeSec
          mtimeNsec := st.mtimeNsec
          complete := false
          valid := true }
      dirty := true }

/-- `sm_image_index_begin_scan`. -/
def beginScan (w : World) (x : Index m t) (path : Text) (st : Stat) : Index m t :=
  beginScanLocked (loadIndex w x) path st

/-- Store the title of an image unless it is stored already; false when the
title table is full. -/
def recordTitle (x : Index m t) (i : Fin m) (titleId : Text) : Index m t × Bool :=
  let known := Fin.find? fun j => (x.titles j).valid &&
    (x.titles j).imageIndex = storedIndex i && (x.titles j).titleId = titleId
  match known with
  | some _ => (x, true)
  | none =>
    match Fin.find? fun j => !(x.titles j).valid with
    | none => (x, false)
    | some j =>
      ({ x with
          titles := Function.update x.titles j
            ⟨storedIndex i, true, strlcpy maxTitleId titleId⟩
          dirty := true }, true)

/-- `sm_image_index_record_game`. -/
def recordGame (w : World) (x : Index m t) (gamePath titleId : Text) : Index m t × Bool :=
  let x := loadIndex w x
  match w.outermostImage gamePath with
  | none => (x, true)
  | some imagePath =>
    match findEntry x imagePath with
    | some i => recordTitle x i titleId
    | none =>
      match w.stat imagePath with
      | .found st =>
        let x := beginScanLocked x imagePath st
        match findEntry x imagePath with
        | none => (x, false)
        | some i => recordTitle x i titleId
      | _ => (x, false)

/-- `sm_image_index_complete_scan`. -/
def completeScan (w : World) (x : Index m t) (path : Text) : Index m t :=
  let x := loadIndex w x
  match findEntry x path with
  | none => x
  | some i =>
    if (x.entries i).complete then x
    else
      { x with
        entries := Function.update x.entries i { x.entries i with complete := true }
        dirty := true }

/-- `sm_image_index_flush`. -/
def flush (w : World) (x : Index m t) : Index m t :=
  match refreshIndexContext w (loadIndex w x) with
  | (x, true) => saveIndex w x
  | (x, false) => x

/-- The loop of `sm_image_index_prune`: entries whose image is gone are
cleared. -/
def pruneMissing (w : World) (x : Index m t) : Index m t :=
  (List.finRange m).foldl (fun x i =>
    if (x.entries i).valid && w.stat (x.entries i).path = .missing then clearEntry x i
    else x) x

/-- `sm_image_index_prune`. -/
def prune (w : World) (x : Index m t) : Index m t :=
  match refreshIndexContext w (loadIndex w x) with
  | (x, true) => saveIndex w (pruneMissing w x)
  | (x, false) => pruneMissing w x

/-- The backing image of a title record. -/
def Index.imageOf (x : Index m t) (r : Title) : Entry :=
  if h : r.imageIndex < m then x.entries ⟨r.imageIndex, h⟩ else Entry.zero

/-- `sm_image_index_has_source_for_title`, after the index is loaded: the
first record of the title decides. -/
def hasSourceForTitle (stat : StatView) (x : Index m t) (titleId : Text) : Bool :=
  if titleId = [] then false
  else
    match Fin.find? fun j => (x.titles j).valid && (x.titles j).titleId = titleId with
    | none => false
    | some j =>
      let e := x.imageOf (x.titles j)
      e.valid && pathExists stat e.path

end ShadowMount.ImageIndex
