import ShadowMount.Foundation.Checked
import ShadowMount.Foundation.Scan
import ShadowMount.StorageJob.Model

/-!
# The two readers of {lit}`param.sfo`

A system file object is a table of entries, each with the offset of its key in a key area and
the offset of its value in a value area.  The scanner reads it with {lit}`parse_game_sfo` of
{lit}`sm_gameinfo.c`, the package parser with {lit}`parse_sfo` of {lit}`sm_pkg.c`; both get the
bytes of an untrusted file.
-/

namespace ShadowMount.Pkg

open Foundation

/-- `sm_pkg_info_t`. -/
structure Info extends StorageJob.PkgInfo where
  category : Text
  sourceDevice : Nat
  sourceInode : Nat
  sourceCtime : Nat
  sourceMtime : Int
  sourceMtimeNs : Nat
  sourceCtimeNs : Nat
  iconOffset : Nat
  iconSize : Nat
  sdkVersion : Nat
  outerContentType : Nat
  outerContentFlags : Nat
  classificationConfident : Bool
deriving DecidableEq

/-- A zeroed `sm_pkg_info_t`, as `memset` leaves it. -/
def zeroInfo : Info where
  path := []
  titleId := []
  titleName := []
  contentId := []
  appVer := []
  sourceSize := 0
  contentType := 0
  contentFlags := 0
  pkgKind := .unknown
  category := []
  sourceDevice := 0
  sourceInode := 0
  sourceCtime := 0
  sourceMtime := 0
  sourceMtimeNs := 0
  sourceCtimeNs := 0
  iconOffset := 0
  iconSize := 0
  sdkVersion := 0
  outerContentType := 0
  outerContentFlags := 0
  classificationConfident := false

/-- The texts of the record that are read from the tables. -/
inductive Field where
  | titleName | titleId | category | appVer | contentId
deriving DecidableEq

/-- The size of the destination. -/
def Field.size : Field → Nat
  | .titleName => 256
  | .titleId => maxTitleId
  | .category => 16
  | .appVer => 32
  | .contentId => 128

def Info.text (info : Info) : Field → Text
  | .titleName => info.titleName
  | .titleId => info.titleId
  | .category => info.category
  | .appVer => info.appVer
  | .contentId => info.contentId

def Info.setText (info : Info) (text : Text) : Field → Info
  | .titleName => { info with titleName := text }
  | .titleId => { info with titleId := text }
  | .category => { info with category := text }
  | .appVer => { info with appVer := text }
  | .contentId => { info with contentId := text }

/-- The destinations of `parse_game_sfo`. -/
structure GameText where
  id : Text
  name : Text
deriving DecidableEq

/-- Bytes as a text. -/
def toText (bytes : Bytes) : Text := bytes.map fun b => Char.ofNat b.toNat

/-- The bytes of a literal. -/
def ascii (s : String) : Bytes := s.toList.map fun c => UInt8.ofNat c.toNat

/-- A literal with its terminator. -/
def keyBytes (s : String) : Bytes := ascii s ++ [0]

/-- The bytes before the first zero byte. -/
def untilZero (bytes : Bytes) : Bytes := (cut (· = 0) bytes).1

/-- The comparison of a key of the given room with a literal. -/
def matchesKey (data : Bytes) (position room : Nat) (key : Bytes) : Checked Bool :=
  if room < key.length then pure false
  else do
    let bytes ← readRange data position key.length
    pure (decide (bytes = key))

/-- The field that an entry of `parse_game_sfo` goes to. -/
def gameField (data : Bytes) (position room : Nat) : Checked (Option Field) := do
  let isId ← matchesKey data position room (keyBytes "TITLE_ID")
  if isId then pure (some .titleId)
  else do
    let isName ← matchesKey data position room (keyBytes "TITLE")
    pure (if isName then some .titleName else none)

/-- The value of an entry of `parse_game_sfo`, and whether the table is still acceptable. -/
def storeGameField (data : Bytes) (field : Field) (flags position length : Nat)
    (out : GameText) : Checked (GameText × Bool) := do
  let text ← readRange data position (min length field.size)
  if (0 ∉ text ∧ (flags = 2 ∨ field.size ≤ length)) ∨ length = 0 then
    pure (out, decide (field ≠ .titleId))
  else do
    let bytes ← readRange data position (if 0 ∈ text then (untilZero text).length else length)
    let copied ← copyOut field.size bytes
    pure (if field = .titleId then { out with id := toText copied }
      else { out with name := toText copied }, true)

/-- One turn of the loop of `parse_game_sfo`. -/
def parseGameSfoEntry (data : Bytes) (keys values i : Nat) (out : GameText) :
    Checked (GameText × Bool) := do
  let offset ← mul 64 i 16
  let entry ← add 64 20 offset
  let key ← readU16 data entry
  let kind ← readRange data (entry + 2) 2
  let length ← readU32 data (entry + 4)
  let capacity ← readU32 data (entry + 8)
  let value ← readU32 data (entry + 12)
  let keyRoom ← sub values keys
  let valueRoom ← sub data.length values
  if keyRoom ≤ key ∨ valueRoom < value ∨ capacity < length then pure (out, false)
  else do
    let rest ← sub valueRoom value
    if rest < capacity then pure (out, false)
    else if kind ≠ [4, 0] ∧ kind ≠ [4, 2] then pure (out, true)
    else do
      let position ← add 64 keys key
      let room ← sub keyRoom key
      let field ← gameField data position room
      match field with
      | none => pure (out, true)
      | some field => do
        let position ← add 64 values value
        storeGameField data field (if kind = [4, 2] then 2 else 0) position length out

/-- The loop over the entries. -/
def parseGameSfoEntries (data : Bytes) (keys values : Nat) :
    List Nat → GameText → Checked (GameText × Bool)
  | [], out => pure (out, true)
  | i :: rest, out => do
    let result ← parseGameSfoEntry data keys values i out
    if result.2 then parseGameSfoEntries data keys values rest result.1 else pure result

/-- `parse_game_sfo`. -/
def parseGameSfo (data : Bytes) (out : GameText) : Checked (GameText × Bool) :=
  if data.length < 20 then pure (out, false)
  else do
    let magic ← readRange data 0 4
    if magic ≠ 0 :: ascii "PSF" then pure (out, false)
    else do
      let keys ← readU32 data 8
      let values ← readU32 data 12
      let count ← readU32 data 16
      let room ← sub data.length 20
      if room / 16 < count then pure (out, false)
      else do
        let offset ← mul 64 count 16
        let table ← add 64 20 offset
        if keys < table ∨ values ≤ keys ∨ data.length ≤ values then pure (out, false)
        else do
          let result ← parseGameSfoEntries data keys values (List.range count) out
          pure (result.1, result.2 && isSupportedGameTitleId result.1.id)

/-- `isxdigit`, and the value of the digit. -/
def hexDigit (b : UInt8) : Option Nat :=
  let c := b.toNat
  if 48 ≤ c ∧ c ≤ 57 then some (c - 48)
  else if 65 ≤ c ∧ c ≤ 70 then some (c - 55)
  else if 97 ≤ c ∧ c ≤ 102 then some (c - 87)
  else none

/-- The number that hexadecimal digits spell. -/
def hexValue : Bytes → Nat → Option Nat
  | [], value => some value
  | b :: rest, value => (hexDigit b).bind fun digit => hexValue rest (value * 16 + digit)

/-- A comma or a blank. -/
def isBreak (b : UInt8) : Bool := b = 44 || b = 32

/-- A byte that is read only if the loop has to. -/
def readByteIf (wanted : Bool) (data : Bytes) (start : Nat) : Checked Bytes :=
  if wanted then readRange data start 1 else pure []

/-- One turn of the loop of `read_pubtool_sdk`; none when the loop goes on. -/
def readPubtoolSdkAt (data : Bytes) (text size i : Nat) : Checked (Option Nat) := do
  let before ← readByteIf (i ≠ 0) data (text + i - 1)
  if !before.all isBreak then pure none
  else do
    let tag ← readRange data (text + i) 8
    if tag ≠ ascii "sdk_ver=" then pure none
    else do
      let digits ← readRange data (text + i + 8) 8
      match hexValue digits 0 with
      | none => pure (some 0)
      | some value => do
        let after ← readByteIf (i + 16 < size) data (text + i + 16)
        pure (some (if after.all (fun b => b = 0 || isBreak b) then value else 0))

/-- The loop of `read_pubtool_sdk`. -/
def readPubtoolSdkFrom (data : Bytes) (text size : Nat) : List Nat → Checked Nat
  | [] => pure 0
  | i :: rest => do
    let found ← readPubtoolSdkAt data text size i
    match found with
    | some value => pure value
    | none => readPubtoolSdkFrom data text size rest

/-- `read_pubtool_sdk` on a part of the buffer. -/
def readPubtoolSdk (data : Bytes) (text size : Nat) : Checked Nat :=
  readPubtoolSdkFrom data text size (List.range (size - 15))

/-- The field that a key of `parse_sfo` names. -/
def sfoField (key : Bytes) : Option Field :=
  if key = ascii "TITLE" then some .titleName
  else if key = ascii "TITLE_ID" then some .titleId
  else if key = ascii "CATEGORY" then some .category
  else if key = ascii "APP_VER" then some .appVer
  else if key = ascii "CONTENT_ID" then some .contentId
  else none

/-- The value of an entry of `parse_sfo`. -/
def storeSfoField (data key : Bytes) (format position length : Nat) (info : Info) :
    Checked Info :=
  if format ≠ 0x0004 ∧ format ≠ 0x0204 then pure info
  else if key = ascii "PUBTOOLINFO" then do
    let sdk ← readPubtoolSdk data position length
    pure { info with sdkVersion := sdk }
  else
    match sfoField key with
    | none => pure info
    | some field => do
      let bytes ← readRange data position length
      if field.size ≤ (untilZero bytes).length then pure info
      else do
        let copied ← copyOut field.size (untilZero bytes)
        pure (info.setText (toText copied) field)

/-- One turn of the loop of `parse_sfo`. -/
def parseSfoEntry (data : Bytes) (keyOffset valueOffset i : Nat) (info : Info) :
    Checked Info := do
  let offset ← mul 64 i 16
  let entry ← add 64 20 offset
  let keyRel ← readU16 data entry
  let format ← readU16 data (entry + 2)
  let length ← readU32 data (entry + 4)
  let valueRel ← readU32 data (entry + 12)
  let keyPos ← add 64 keyOffset keyRel
  let valuePos ← add 64 valueOffset valueRel
  if data.length ≤ keyPos ∨ data.length < valuePos then pure info
  else do
    let room ← sub data.length valuePos
    if room < length then pure info
    else do
      let keyRoom ← sub data.length keyPos
      let area ← readRange data keyPos keyRoom
      if 0 ∉ area then pure info
      else storeSfoField data (untilZero area) format valuePos length info

/-- The loop over the entries. -/
def parseSfoEntries (data : Bytes) (keyOffset valueOffset : Nat) :
    List Nat → Info → Checked Info
  | [], info => pure info
  | i :: rest, info => do
    let info ← parseSfoEntry data keyOffset valueOffset i info
    parseSfoEntries data keyOffset valueOffset rest info

/-- `parse_sfo`. -/
def parseSfo (data : Bytes) (info : Info) : Checked (Info × Bool) :=
  if data.length < 20 then pure (info, false)
  else do
    let magic ← readRange data 0 4
    if magic ≠ 0 :: ascii "PSF" then pure (info, false)
    else do
      let keyOffset ← readU32 data 8
      let valueOffset ← readU32 data 12
      let count ← readU32 data 16
      let room ← sub data.length 20
      if room / 16 < count ∨ data.length ≤ keyOffset ∨ data.length ≤ valueOffset then
        pure (info, false)
      else do
        let info ← parseSfoEntries data keyOffset valueOffset (List.range count) info
        pure (info, true)

end ShadowMount.Pkg
