import ShadowMount.Foundation.Words
import ShadowMount.Pkg.Package

/-!
# Executable headers

The two readers of signed executables: {lit}`read_executable_sdk` of {lit}`sm_pkg.c` finds the SDK
version in the process parameter, {lit}`read_executable_filename` of {lit}`sm_self.c` the original
name of a module in its dynamic table.  Both get an ELF file or a SELF container around one, whose
counts, offsets and sizes are numbers of the untrusted file.
-/

namespace ShadowMount.Executable

open Foundation
open Pkg (Environment readAt readU64)

/-- `executable_range`. -/
def executableRange (offset size limit : Nat) : Bool :=
  decide (offset ≤ limit) && decide (size ≤ limit - offset)

/-- The size of the buffer for the headers. -/
def headerRoom : Nat := 8192

/-- The place of a program header. -/
def executablePhdr (table index : Nat) : Checked Nat := do
  let skipped ← mul 64 index 56
  add 64 table skipped

/-- The place of an entry in the segment table of a container. -/
def segmentPlace (index : Nat) : Checked Nat := do
  let skipped ← mul 64 index 32
  add 64 32 skipped

/-- The place of the ELF header behind so many segments. -/
def elfPlace (segments : Nat) : Checked Nat := do
  let table ← mul 64 segments 32
  add 64 32 table

/-- The end of the program headers in the file. -/
def tableEnd (elf phoff count : Nat) : Checked Nat := do
  let start ← add 64 elf phoff
  let size ← mul 64 count 56
  add 64 start size

/-- An entry of the segment table. -/
structure Segment where
  flags : Nat
  physical : Nat
  stored : Nat
  unpacked : Nat
deriving DecidableEq

def readSegment (header : Bytes) (index : Nat) : Checked Segment := do
  let place ← segmentPlace index
  let flags ← readU64 header place
  let physical ← readU64 header (place + 8)
  let stored ← readU64 header (place + 16)
  let unpacked ← readU64 header (place + 24)
  pure { flags, physical, stored, unpacked }

/-- `flags & 0xA`: the segment is encrypted or compressed. -/
def Segment.packed (segment : Segment) : Bool :=
  segment.flags.testBit 1 || segment.flags.testBit 3

/-- The first bytes of an ELF header that both readers ask for: magic, class, order, version. -/
def elfIdent : Bytes := [0x7f, 0x45, 0x4c, 0x46, 2, 1, 1]

/-- Where the ELF file lies: the segments of the container around it, its place and its end. -/
structure Container where
  segments : Nat
  elf : Nat
  limit : Nat
deriving DecidableEq

/-- The container that `read_executable_sdk` finds. -/
def sdkContainer (header : Bytes) (size : Nat) (self : Bool) : Checked Container :=
  if self then do
    let segments ← Foundation.readU16 header 24
    let elf ← elfPlace segments
    let limit ← readU64 header 16
    pure { segments, elf, limit }
  else pure { segments := 0, elf := 0, limit := size }

/-- The loop that looks for the process parameter; none when there is no one or a second one. -/
def findParam (header : Bytes) (table : Nat) : List Nat → Option Nat → Checked (Option Nat)
  | [], param => pure param
  | i :: rest, param => do
    let entry ← executablePhdr table i
    let kind ← Foundation.readU32 header entry
    if kind ≠ 0x61000001 then findParam header table rest param
    else if param.isSome then pure none
    else findParam header table rest (some entry)

/-- A file range that is looked for: the process parameter. -/
structure Wanted where
  offset : Nat
  size : Nat
deriving DecidableEq

/-- The loop over the segments; none when the reader gives up, and else the parameter if it was
read. -/
def mapSegments (arith : Arithmetic) (env : Environment) (size : Nat) (header : Bytes)
    (c : Container) (phoff count index start : Nat) (wanted : Wanted) :
    List Nat → Option Bytes → Checked (Option (Option Bytes))
  | [], mapped => pure (some mapped)
  | j :: rest, mapped => do
    let segment ← readSegment header j
    if segment.flags / 2 ^ 20 ≠ index ∨ !segment.flags.testBit 11 then
      mapSegments arith env size header c phoff count index start wanted rest mapped
    else do
      let last ← tableEnd c.elf phoff count
      let inside ← sub wanted.offset start
      if mapped.isSome ∨ segment.packed ∨ segment.stored ≠ segment.unpacked ∨
          segment.physical < last ∨ !executableRange segment.physical segment.stored c.limit ∨
          !executableRange inside wanted.size segment.stored then
        pure none
      else do
        let offset ← arith.addSub 64 segment.physical wanted.offset start
        let proc ← readAt env size offset 24 24
        match proc with
        | none => pure none
        | some proc =>
          mapSegments arith env size header c phoff count index start wanted rest (some proc)

/-- The loop over the program headers. -/
def mapHeaders (arith : Arithmetic) (env : Environment) (size : Nat) (header : Bytes)
    (c : Container) (phoff count table : Nat) (wanted : Wanted) :
    List Nat → Option Bytes → Checked (Option (Option Bytes))
  | [], mapped => pure (some mapped)
  | i :: rest, mapped => do
    let load ← executablePhdr table i
    let kind ← Foundation.readU32 header load
    let start ← readU64 header (load + 8)
    let bytes ← readU64 header (load + 32)
    if kind ≠ 1 ∨ wanted.offset < start then
      mapHeaders arith env size header c phoff count table wanted rest mapped
    else do
      let inside ← sub wanted.offset start
      if !executableRange inside wanted.size bytes then
        mapHeaders arith env size header c phoff count table wanted rest mapped
      else do
        let next ← mapSegments arith env size header c phoff count i start wanted
          (List.range c.segments) mapped
        match next with
        | none => pure none
        | some mapped =>
          mapHeaders arith env size header c phoff count table wanted rest mapped

/-- The version in the process parameter. -/
def paramSdk (proc : Bytes) (paramSize : Nat) : Checked Nat := do
  let magic ← Foundation.readU32 proc 8
  let own ← readU64 proc 0
  if magic ≠ 0x4942524F ∨ own < 24 ∨ paramSize < own then pure 0
  else do
    let version ← Foundation.readU32 proc 12
    if version = 0 then pure 0
    else do
      let sdk ← Foundation.readU32 proc (if version = 1 then 16 else 20)
      let major := sdk / 2 ^ 24
      pure (if major ≠ 0 ∧ major / 16 ≤ 9 ∧ major % 16 ≤ 9 then sdk else 0)

/-- `read_executable_sdk` with the program headers found. -/
def readParamSdk (arith : Arithmetic) (env : Environment) (size : Nat) (header : Bytes)
    (self : Bool) (c : Container) (phoff count : Nat) : Checked Nat := do
  let table ← add 64 c.elf phoff
  let param ← findParam header table (List.range count) none
  match param with
  | none => pure 0
  | some param => do
    let offset ← readU64 header (param + 8)
    let paramSize ← readU64 header (param + 32)
    if paramSize < 24 then pure 0
    else if self then do
      let mapped ← mapHeaders arith env size header c phoff count table ⟨offset, paramSize⟩
        (List.range count) none
      match mapped with
      | some (some proc) => paramSdk proc paramSize
      | _ => pure 0
    else if !executableRange offset paramSize size then pure 0
    else do
      let proc ← readAt env size offset 24 24
      match proc with
      | none => pure 0
      | some proc => paramSdk proc paramSize

/-- `read_executable_sdk` with the ELF header found. -/
def readElfSdk (arith : Arithmetic) (env : Environment) (size : Nat) (header : Bytes)
    (self : Bool) (c : Container) : Checked Nat := do
  let ident ← readRange header c.elf 7
  let machine ← Foundation.readU16 header (c.elf + 18)
  if ident ≠ elfIdent ∨ machine ≠ 62 then pure 0
  else do
    let phoff ← readU64 header (c.elf + 32)
    let count ← Foundation.readU16 header (c.elf + 56)
    let entry ← Foundation.readU16 header (c.elf + 54)
    let tableSize ← mul 64 count 56
    let room ← sub header.length c.elf
    let space ← sub c.limit c.elf
    if entry ≠ 56 ∨ count = 0 ∨ 64 < count ∨ phoff < 64 ∨
        !executableRange phoff tableSize room ∨ !executableRange phoff tableSize space then
      pure 0
    else readParamSdk arith env size header self c phoff count

/-- `read_executable_sdk`. -/
def readExecutableSdk (arith : Arithmetic) (env : Environment) (size : Nat) : Checked Nat :=
  let length := min size headerRoom
  if length < 64 then pure 0
  else do
    let header ← readAt env size 0 length headerRoom
    match header with
    | none => pure 0
    | some header => do
      let magic ← Foundation.readU32 header 0
      let self : Bool := magic = 0xEEF51454
      let c ← sdkContainer header size self
      if (self ∧ (c.segments = 0 ∨ 64 < c.segments ∨ size < c.limit)) ∨
          !executableRange c.elf 64 length ∨ !executableRange c.elf 64 c.limit then pure 0
      else readElfSdk arith env size header self c

/-- `executable_reader_t`; the header is the bytes that were read of it. -/
structure Reader where
  header : Bytes
  size : Nat
  elf : Nat
  phoff : Nat
  segments : Nat
  phnum : Nat
deriving DecidableEq

/-- The loop of `read_executable_bytes` over the segments of a program header; none when it
goes on with the next one. -/
def readInSegments (arith : Arithmetic) (env : Environment) (fileSize : Nat) (r : Reader)
    (index start offset size room : Nat) : List Nat → Checked (Option (Option Bytes))
  | [] => pure none
  | j :: rest => do
    let segment ← readSegment r.header j
    let last ← tableEnd r.elf r.phoff r.phnum
    let inside ← sub offset start
    if segment.flags / 2 ^ 20 % 2 ^ 16 ≠ index ∨ !segment.flags.testBit 11 ∨ segment.packed ∨
        segment.stored ≠ segment.unpacked ∨ segment.physical < last ∨
        !executableRange segment.physical segment.stored r.size ∨
        !executableRange inside size segment.stored then
      readInSegments arith env fileSize r index start offset size room rest
    else do
      let place ← arith.addSub 64 segment.physical offset start
      let bytes ← readAt env fileSize place size room
      pure (some bytes)

/-- The loop of `read_executable_bytes` over the program headers. -/
def readInHeaders (arith : Arithmetic) (env : Environment) (fileSize : Nat) (r : Reader)
    (table offset size room : Nat) : List Nat → Checked (Option Bytes)
  | [] => pure none
  | i :: rest => do
    let ph ← executablePhdr table i
    let start ← readU64 r.header (ph + 8)
    let bytes ← readU64 r.header (ph + 32)
    if offset < start then readInHeaders arith env fileSize r table offset size room rest
    else do
      let inside ← sub offset start
      if !executableRange inside size bytes then
        readInHeaders arith env fileSize r table offset size room rest
      else do
        let found ← readInSegments arith env fileSize r i start offset size room
          (List.range r.segments)
        match found with
        | some result => pure result
        | none => readInHeaders arith env fileSize r table offset size room rest

/-- `read_executable_bytes` into a destination with the given room. -/
def readExecutableBytes (arith : Arithmetic) (env : Environment) (fileSize : Nat) (r : Reader)
    (offset size room : Nat) : Checked (Option Bytes) :=
  if r.segments = 0 then
    if executableRange offset size r.size then readAt env fileSize offset size room
    else pure none
  else do
    let table ← add 64 r.elf r.phoff
    readInHeaders arith env fileSize r table offset size room (List.range r.phnum)

/-- `UINT64_MAX`, which stands for a value that is not there. -/
def absent : Nat := 2 ^ 64 - 1

/-- The values of the dynamic table. -/
structure Tags where
  name : Nat
  strtab : Nat
  strsz : Nat
  sceStrtab : Nat
  sceStrsz : Nat
deriving DecidableEq

def Tags.initial : Tags where
  name := absent
  strtab := absent
  strsz := 0
  sceStrtab := absent
  sceStrsz := 0

def Tags.set (tags : Tags) (tag value : Nat) : Tags :=
  if tag = 0x61000009 ∨ tag = 0x61000041 then { tags with name := value }
  else if tag = 5 then { tags with strtab := value }
  else if tag = 10 then { tags with strsz := value }
  else if tag = 0x61000035 then { tags with sceStrtab := value }
  else if tag = 0x61000037 then { tags with sceStrsz := value }
  else tags

/-- The loop over the entries of a chunk, and whether the last one was reached. -/
def readTags (entries : Bytes) : List Nat → Tags → Checked (Tags × Bool)
  | [], tags => pure (tags, false)
  | i :: rest, tags => do
    let tag ← readU64 entries (i * 16)
    let value ← readU64 entries (i * 16 + 8)
    if tag = 0 then pure (tags, true) else readTags entries rest (tags.set tag value)

/-- The loop over the dynamic table, 512 bytes at a turn. -/
def readDynamic (arith : Arithmetic) (env : Environment) (fileSize : Nat) (r : Reader)
    (dynOffset dynSize : Nat) : List Nat → Tags → Checked (Option (Tags × Bool))
  | [], tags => pure (some (tags, false))
  | turn :: rest, tags => do
    let offset ← mul 64 turn 512
    let left ← sub dynSize offset
    let bytes := min left 512
    let place ← add 64 dynOffset offset
    let chunk ← readExecutableBytes arith env fileSize r place bytes 512
    match chunk with
    | none => pure none
    | some chunk => do
      let result ← readTags chunk (List.range ((bytes + 15) / 16)) tags
      if result.2 then pure (some result)
      else readDynamic arith env fileSize r dynOffset dynSize rest result.1

/-- The program headers of the dynamic table and of the libraries; of several, the last. -/
def findDynamic (header : Bytes) (table : Nat) :
    List Nat → Option Nat × Option Nat → Checked (Option Nat × Option Nat)
  | [], found => pure found
  | i :: rest, (dynamic, dynlib) => do
    let ph ← executablePhdr table i
    let kind ← Foundation.readU32 header ph
    findDynamic header table rest
      (if kind = 2 then some ph else dynamic, if kind = 0x61000000 then some ph else dynlib)

/-- The offset of the name, if its string table is in a loaded segment. -/
def loadedString (arith : Arithmetic) (header : Bytes) (table : Nat) (tags : Tags) :
    List Nat → Checked (Option Nat)
  | [] => pure none
  | i :: rest => do
    let ph ← executablePhdr table i
    let base ← readU64 header (ph + 16)
    let size ← readU64 header (ph + 32)
    let fileOffset ← readU64 header (ph + 8)
    let kind ← Foundation.readU32 header ph
    if kind ≠ 1 ∨ tags.strtab < base then loadedString arith header table tags rest
    else do
      let inside ← sub tags.strtab base
      if !executableRange inside tags.strsz size then loadedString arith header table tags rest
      else do
        let room ← sub absent inside
        let room ← sub room tags.name
        if room < fileOffset then loadedString arith header table tags rest
        else do
          let strings ← arith.addSub 64 fileOffset tags.strtab base
          let place ← add 64 strings tags.name
          pure (some place)

/-- The offset of the name, if its string table is that of the libraries. -/
def libraryString (header : Bytes) (dynlib : Nat) (tags : Tags) : Checked (Option Nat) := do
  let base ← readU64 header (dynlib + 8)
  let size ← readU64 header (dynlib + 32)
  if !executableRange tags.sceStrtab tags.sceStrsz size then pure none
  else do
    let room ← sub absent tags.sceStrtab
    let room ← sub room tags.name
    if room < base then pure none
    else do
      let strings ← add 64 base tags.sceStrtab
      let place ← add 64 strings tags.name
      pure (some place)

/-- The offset of the name and the size of its string table. -/
def findString (arith : Arithmetic) (r : Reader) (table : Nat) (dynlib : Option Nat)
    (tags : Tags) : Checked (Option (Nat × Nat)) :=
  if tags.strtab ≠ absent ∧ tags.strsz ≠ 0 ∧ tags.name < tags.strsz then do
    let place ← loadedString arith r.header table tags (List.range r.phnum)
    pure (place.map fun place => (place, tags.strsz))
  else match dynlib with
    | some dynlib =>
      if tags.sceStrtab ≠ absent ∧ tags.name < tags.sceStrsz then do
        let place ← libraryString r.header dynlib tags
        pure (place.map fun place => (place, tags.sceStrsz))
      else pure none
    | none => pure none

/-- The name itself, which must be terminated and not empty. -/
def readName (arith : Arithmetic) (env : Environment) (fileSize : Nat) (r : Reader)
    (place strsz name : Nat) : Checked (Option Text) := do
  let left ← sub strsz name
  let bytes := min left maxPath
  let content ← readExecutableBytes arith env fileSize r place bytes maxPath
  match content with
  | none => pure none
  | some content => do
    let first ← readRange content 0 1
    pure (if 0 ∈ content ∧ first ≠ [0] then some (Pkg.toText (Pkg.untilZero content)) else none)

/-- `read_executable_filename` with the dynamic table found. -/
def readDynamicName (arith : Arithmetic) (env : Environment) (fileSize : Nat) (r : Reader)
    (table dynamic : Nat) (dynlib : Option Nat) : Checked (Option Text) := do
  let dynSize ← readU64 r.header (dynamic + 32)
  let dynOffset ← readU64 r.header (dynamic + 8)
  if 65536 < dynSize ∨ dynSize % 16 ≠ 0 ∨ absent - dynSize < dynOffset then pure none
  else do
    let result ← readDynamic arith env fileSize r dynOffset dynSize
      (List.range ((dynSize + 511) / 512)) Tags.initial
    match result with
    | none => pure none
    | some (tags, terminated) =>
      if !terminated ∨ tags.name = absent then pure none
      else do
        let place ← findString arith r table dynlib tags
        match place with
        | none => pure none
        | some (place, strsz) => readName arith env fileSize r place strsz tags.name

/-- `read_executable_filename` with the container found. -/
def readElfFilename (arith : Arithmetic) (env : Environment) (fileSize : Nat) (header : Bytes)
    (c : Container) : Checked (Option Text) := do
  let ident ← readRange header c.elf 7
  let kind ← Foundation.readU16 header (c.elf + 16)
  let machine ← Foundation.readU16 header (c.elf + 18)
  let entry ← Foundation.readU16 header (c.elf + 54)
  if ident ≠ elfIdent ∨ (kind ≠ 3 ∧ kind ≠ 0xfe18) ∨ machine ≠ 62 ∨ entry ≠ 56 then pure none
  else do
    let phoff ← readU64 header (c.elf + 32)
    let phnum ← Foundation.readU16 header (c.elf + 56)
    let tableSize ← mul 64 phnum 56
    let room ← sub header.length c.elf
    let space ← sub c.limit c.elf
    if phnum = 0 ∨ 64 < phnum ∨ phoff < 64 ∨ !executableRange phoff tableSize room ∨
        !executableRange phoff tableSize space then pure none
    else do
      let r : Reader := ⟨header, c.limit, c.elf, phoff, c.segments, phnum⟩
      let table ← add 64 c.elf phoff
      let found ← findDynamic header table (List.range phnum) (none, none)
      match found.1 with
      | none => pure none
      | some dynamic => readDynamicName arith env fileSize r table dynamic found.2

/-- The container that `read_executable_filename` finds; none when it is refused.  A file may
be longer than its container says. -/
def filenameContainer (header : Bytes) (size : Nat) : Checked (Option Container) := do
  let magic ← Foundation.readU32 header 0
  if magic = 0xEEF51454 ∨ magic = 0x1D3D154F then do
    let segments ← Foundation.readU16 header 24
    let elf ← elfPlace segments
    let limit ← readU64 header 16
    if segments = 0 ∨ 64 < segments then pure none
    else pure (some { segments, elf, limit := min limit size })
  else pure (some { segments := 0, elf := 0, limit := size })

/-- `read_executable_filename`. -/
def readExecutableFilename (arith : Arithmetic) (env : Environment) (size : Nat) :
    Checked (Option Text) :=
  let length := min size headerRoom
  if length < 64 then pure none
  else do
    let header ← readAt env size 0 length headerRoom
    match header with
    | none => pure none
    | some header => do
      let container ← filenameContainer header size
      match container with
      | none => pure none
      | some c =>
        if !executableRange c.elf 64 length ∨ !executableRange c.elf 64 c.limit then pure none
        else readElfFilename arith env size header c

end ShadowMount.Executable
