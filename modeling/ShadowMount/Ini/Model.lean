import ShadowMount.CString

/-!
# Ini documents - the codec of {lit}`sm_config_file.c`

A document is the list of the lines of a file.  A line that was read keeps its
original text until it is edited; an edited or added line has none and is
rebuilt by the writer.  The reader has a mode for files of the first format,
which knows no quoting and ignores malformed lines.

Allocation failures are left out; the other failures of the source are kept.
-/

namespace ShadowMount.Ini

open Foundation

/-- `INI_MAX_BYTES`. -/
def maxBytes : Nat := 1024 * 1024

/-- `INI_MAX_LINES`. -/
def maxLines : Nat := 8192

/-- `INI_LINE_MAX`: the reader's line buffer, its terminator included. -/
def lineMax : Nat := maxPath * 2 + 2048

/-- Size of the reader's buffer for a section name, its terminator included. -/
def maxSection : Nat := maxPath + 32

/-- What a line is: a section header, an entry with its key and value, or neither
(blank, a comment, or an entry that was retired). -/
inductive Content where
  | header
  | entry (key value : Text)
  | other
deriving DecidableEq

/-- `sm_ini_line_t`. -/
structure Line where
  raw : Option Text
  sect : Text
  content : Content
  comment : Option Text
deriving DecidableEq

abbrev Document := List Line

/-- The text after a bracket lets that bracket close a section header. -/
def closesHeader (tail : Text) : Bool :=
  match tail.dropWhile isSpace with
  | [] => true
  | c :: _ => isCommentStart c

/-- Split what follows the opening bracket at the first bracket that closes the
header. -/
def splitHeader : Text → Option (Text × Text)
  | [] => none
  | c :: rest =>
    if c = ']' && closesHeader rest then some ([], rest)
    else (splitHeader rest).map fun split => (c :: split.1, split.2)

/-- A comment, if there is one. -/
def optional (comment : Text) : Option Text :=
  if comment = [] then none else some comment

/-- Undo the escapes of a quoted value: the value and what follows its closing
quote. -/
def decodeQuoted : Text → Option (Text × Text)
  | [] => none
  | '"' :: tail => some ([], tail)
  | '\\' :: c :: rest =>
    if c = '\\' || c = '"' then
      (decodeQuoted rest).map fun decoded => (c :: decoded.1, decoded.2)
    else none
  | c :: rest =>
    if c.toNat < 32 then none
    else (decodeQuoted rest).map fun decoded => (c :: decoded.1, decoded.2)

/-- A value without quotes ends where a comment starts. -/
def plainValue (s : Text) : Text × Option Text :=
  (trim isSpace (cut isCommentStart s).1, optional (cut isCommentStart s).2)

/-- `decode_value`: the value and its comment. -/
def decodeValue (s : Text) : Option (Text × Option Text) :=
  match s with
  | '"' :: rest =>
    match decodeQuoted rest with
    | none => none
    | some (value, tail) =>
      match trim isSpace tail with
      | [] => some (value, none)
      | c :: comment => if isCommentStart c then some (value, some (c :: comment)) else none
  | _ => some (plainValue s)

/-- One line as the reader's loop sees it, with the section in force after it.  A
malformed line is told apart by whether a key was already stored for it. -/
inductive Parsed where
  | line (content : Content) (sect : Text) (comment : Option Text)
  | malformed (sect : Text) (hasKey : Bool)
deriving DecidableEq

/-- The header branch of `sm_ini_read`, after the opening bracket. -/
def parseHeader (sect rest : Text) : Parsed :=
  match splitHeader rest with
  | none => .malformed sect false
  | some (name, tail) =>
    let name := trim isSpace name
    if name = [] || decide (maxSection ≤ name.length) then
      .malformed (strlcpy maxSection name) false
    else .line .header name (optional (trim isSpace tail))

/-- The entry branch of `sm_ini_read`. -/
def parseEntry (legacy : Bool) (sect s : Text) : Parsed :=
  match (cut (· = '=') s).2 with
  | [] => .malformed sect false
  | _ :: value =>
    let key := trim isSpace (cut (· = '=') s).1
    let value := trim isSpace value
    match if legacy then some (plainValue value) else decodeValue value with
    | some (value, comment) =>
      if key = [] then .malformed sect true
      else .line (.entry key value) sect comment
    | none => .malformed sect true

/-- The body of the loop of `sm_ini_read`. -/
def parseLine (legacy : Bool) (sect raw : Text) : Parsed :=
  match trim isSpace raw with
  | [] => .line .other sect none
  | c :: rest =>
    if c = '[' then parseHeader sect rest
    else if isCommentStart c then .line .other sect none
    else parseEntry legacy sect (c :: rest)

/-- The loop of `sm_ini_read`.  Only files of the first format may have
malformed lines; those are dropped. -/
def readLines (legacy : Bool) : Text → List Text → Option Document
  | _, [] => some []
  | sect, raw :: rest =>
    match parseLine legacy sect raw with
    | .line content sect comment =>
      (readLines legacy sect rest).map (⟨some raw, sect, content, comment⟩ :: ·)
    | .malformed sect hasKey =>
      if legacy && !hasKey then readLines legacy sect rest else none

/-- `sm_ini_read` on the bytes of a file. -/
def read (legacy : Bool) (bytes : Text) : Option Document :=
  let raws := splitTerminated '\n' bytes
  if decide (maxBytes < bytes.length) || decide ('\x00' ∈ bytes) ||
      raws.any (fun raw => decide (lineMax ≤ raw.length)) then none
  else match readLines legacy [] raws with
    | none => none
    | some d => if d.length ≤ maxLines then some d else none

/-- The value of a line that is an entry of the section with the key. -/
def Line.valueFor (sect key : Text) (l : Line) : Option Text :=
  match l.content with
  | .entry k value => if sameNoCase sect l.sect && sameNoCase key k then some value else none
  | _ => none

/-- `sm_ini_get`: the last entry wins. -/
def get (d : Document) (sect key : Text) : Option Text :=
  d.reverse.findSome? (Line.valueFor sect key)

/-- `sm_ini_version`. -/
def version (d : Document) : Bool :=
  get d "config".toList "version".toList = some "2".toList

/-- `valid_text`. -/
def validText (s : Text) : Bool := s.all fun c => !isControl c

/-- `insert_line`. -/
def insertLine (d : Document) (place : Nat) (l : Line) : Option Document :=
  if maxLines ≤ d.length then none else some (d.take place ++ l :: d.drop place)

/-- The place after the last line of a section. -/
def sectionEnd (sect : Text) : Document → Option Nat
  | [] => none
  | l :: d =>
    match sectionEnd sect d with
    | some place => some (place + 1)
    | none => if sameNoCase l.sect sect then some 1 else none

/-- The test at the start of `sm_ini_append` and `sm_ini_set`. -/
def editable (sect key : Text) (value : Option Text) : Bool :=
  sect ≠ [] && key ≠ [] && validText sect && validText key && '=' ∉ key &&
    match value with
    | some value => validText value
    | none => true

/-- `sm_ini_append`: the document after the call and whether it succeeded. -/
def append (d : Document) (sect key value : Text) : Document × Bool :=
  if !editable sect key (some value) then (d, false)
  else
    let line : Line := ⟨none, sect, .entry key value, none⟩
    match sectionEnd sect d with
    | some place =>
      match insertLine d place line with
      | some d => (d, true)
      | none => (d, false)
    | none =>
      match insertLine d d.length ⟨none, sect, .header, none⟩ with
      | none => (d, false)
      | some d =>
        match insertLine d d.length line with
        | some d => (d, true)
        | none => (d, false)

/-- One turn of the loop of `sm_ini_set`: the line after it, and whether the
value has been stored. -/
def setLine (sect key : Text) (value : Option Text) (stored : Bool) (l : Line) :
    Line × Bool :=
  match l.content with
  | .entry k _ =>
    if !sameNoCase sect l.sect || !sameNoCase key k then (l, stored)
    else match value, stored with
      | some value, false => ({ l with raw := none, content := .entry k value }, true)
      | _, _ => ({ l with raw := l.comment, content := .other, comment := none }, stored)
  | _ => (l, stored)

/-- The loop of `sm_ini_set`. -/
def setLines (sect key : Text) (value : Option Text) : Bool → Document → Document × Bool
  | stored, [] => ([], stored)
  | stored, l :: d =>
    let turn := setLine sect key value stored l
    let rest := setLines sect key value turn.2 d
    (turn.1 :: rest.1, rest.2)

/-- `sm_ini_set`; without a value the key is removed. -/
def set (d : Document) (sect key : Text) (value : Option Text) : Document × Bool :=
  if !editable sect key value then (d, false)
  else
    let edited := setLines sect key value false d
    match value with
    | none => (edited.1, true)
    | some value => if edited.2 then (edited.1, true) else append edited.1 sect key value

/-- One turn of the loop of `sm_ini_rename_section`. -/
def renameLine (old name : Text) (l : Line) : Line :=
  if !sameNoCase l.sect old then l
  else if l.content = .header then { l with sect := name, raw := none }
  else { l with sect := name }

/-- `sm_ini_rename_section`. -/
def renameSection (d : Document) (old name : Text) : Document × Bool :=
  if name = [] || !validText name then (d, false) else (d.map (renameLine old name), true)

/-- `sm_ini_remove_section`. -/
def removeSection (d : Document) (sect : Text) : Document :=
  d.filter fun l => !sameNoCase sect l.sect

/-- The values that `write_value` quotes. -/
def needsQuotes (value : Text) : Bool :=
  match value with
  | [] => true
  | c :: rest =>
    isSpace c || isSpace ((c :: rest).getLast (by simp)) ||
      value.any fun c => isCommentStart c || c = '"' || c = '\\'

/-- The characters of a quoted value, with their escapes. -/
def escape (value : Text) : Text :=
  value.flatMap fun c => if c = '"' || c = '\\' then ['\\', c] else [c]

/-- `write_value` on a value that `valid_text` accepts. -/
def encodeValue (value : Text) : Text :=
  if needsQuotes value then '"' :: escape value ++ ['"'] else value

/-- A comment behind a rebuilt line. -/
def commentText : Option Text → Text
  | none => []
  | some comment => ' ' :: comment

/-- The text one turn of the loop of `sm_ini_write` emits. -/
def lineText (l : Line) : Option Text :=
  match l.raw, l.content with
  | some raw, _ => some (if raw.getLast? = some '\n' then raw else raw ++ ['\n'])
  | none, .header => some ('\n' :: '[' :: l.sect ++ ']' :: commentText l.comment ++ ['\n'])
  | none, .entry key value =>
    if validText value then
      some (key ++ ' ' :: '=' :: ' ' :: encodeValue value ++ commentText l.comment ++ ['\n'])
    else none
  | none, .other => some []

/-- The bytes `sm_ini_write` publishes, if it gets that far. -/
def write (d : Document) : Option Text :=
  match d.mapM lineText with
  | none => none
  | some texts => if texts.flatten.length ≤ maxBytes then some texts.flatten else none

/-- One editing call. -/
inductive Edit where
  | set (sect key : Text) (value : Option Text)
  | append (sect key value : Text)
  | rename (old name : Text)
  | remove (sect : Text)
deriving DecidableEq

/-- The document after a call, whether or not the call succeeds. -/
def edit (d : Document) : Edit → Document
  | .set sect key value => (set d sect key value).1
  | .append sect key value => (append d sect key value).1
  | .rename old name => (renameSection d old name).1
  | .remove sect => removeSection d sect

end ShadowMount.Ini
