import ShadowMount.CString
import ShadowMount.Foundation.Chunks

/-!
# The manual list

The list of manual sources of {lit}`sm_manual.c`: a file with one path a line, comments and
blank lines among them.  A visitor reads the paths, and an update adds a path or removes it by
writing the lines to a temporary file that then takes the place of the list.

Both read lines into a buffer with {lit}`fgets`; a line that does not fit is left alone.  The
bytes of the file may be any, zero bytes among them.
-/

namespace ShadowMount.Manual

open Foundation

/-- The bytes of a buffer before its first zero byte. -/
def cText (bytes : Text) : Text := (cut (· = '\x00') bytes).1

/-- Strip slashes from the end, but not the first character. -/
def stripSlashes (line : Text) : Text :=
  line.take 1 ++ (line.drop 1).rdropWhile (· = '/')

/-- `trim_manual_line`. -/
def trimManualLine (line : Text) : Text := stripSlashes (trim isSpace line)

/-- `sm_manual_normalize_path`; none when it is false.  The path ends at its first zero
byte. -/
def normalizePath (path : Text) : Option Text :=
  let path := cText path
  if maxPath ≤ path.length then none
  else if '\r' ∈ path || '\n' ∈ path then none
  else
    let out := trimManualLine path
    if out.head? = some '/' && 2 ≤ out.length then some out else none

/-- The size of a line buffer. -/
def lineSize : Nat := maxPath + 64

/-- What one turn of a reading loop takes from the file: the buffer, and the rest of a line that
did not fit. -/
structure Piece where
  line : Text
  rest : Text
deriving DecidableEq

def Piece.bytes (p : Piece) : Text := p.line ++ p.rest

/-- The test for a line that did not fit. -/
def truncated (line : Text) : Bool :=
  '\n' ∉ cText line && (cText line).length = lineSize - 1

/-- One turn: `fgets`, and `drain_manual_file_line` or
`copy_manual_file_line_remainder`. -/
def readPiece (content : Text) : Piece × Text :=
  let (line, after) := chunk '\n' (lineSize - 1) content
  if truncated line then
    let (rest, after) := chunk '\n' after.length after
    (⟨line, rest⟩, after)
  else (⟨line, []⟩, after)

/-- The turns that a file takes. -/
def pieces (content : Text) : List Piece := allTurns readPiece content

/-- The path that `sm_manual_for_each_path` visits for a line. -/
def visitOf (p : Piece) : Option Text :=
  let line := trimManualLine (cText p.line)
  if line = [] || line.head? = some '#' then none
  else if truncated p.line || decide (maxPath ≤ line.length) then none
  else some line

/-- The loop of `sm_manual_for_each_path`. -/
def visitPieces {σ : Type} (visit : σ → Text → σ × Bool) : σ → List Piece → σ × Bool
  | s, [] => (s, true)
  | s, p :: rest =>
    match visitOf p with
    | none => visitPieces visit s rest
    | some path =>
      match visit s path with
      | (s, true) => visitPieces visit s rest
      | (s, false) => (s, false)

/-- `sm_manual_for_each_path` on a file that can be read: the context of the visitor after
the call, and the result. -/
def forEachPath {σ : Type} (visit : σ → Text → σ × Bool) (s : σ) (file : Option Text) : σ × Bool :=
  match file with
  | none => (s, false)
  | some content => visitPieces visit s (pieces content)

/-- The paths of a list. -/
def visited (content : Text) : List Text := (pieces content).filterMap visitOf

/-- How the search for the final newline ends. -/
inductive Probe where
  /-- The last byte is read. -/
  | read
  /-- A positioning call fails. -/
  | lost
  /-- The last byte cannot be read. -/
  | unread
deriving DecidableEq

/-- What goes wrong during an update: opening the list, opening the temporary file, any of the
calls that read lines, write them and close the temporary file, and renaming it. -/
structure Faults where
  openList : Bool
  probe : Probe
  create : Bool
  copy : Bool
  rename : Bool
deriving DecidableEq

/-- Does the line hold the path? -/
def holds (path : Text) (p : Piece) : Bool :=
  let line := trimManualLine (cText p.line)
  !truncated p.line && line ≠ [] && line.head? ≠ some '#' && line = path

/-- What an update writes for a line that it keeps. -/
def written (p : Piece) : Text := cText p.line ++ p.rest

/-- `needs_separator`. -/
def needsSeparator (probe : Probe) (content : Text) : Bool :=
  match probe with
  | .read => content ≠ [] && content.getLast? ≠ some '\n'
  | .lost => false
  | .unread => content ≠ []

/-- What `update_manual_list` writes to the temporary file. -/
def updatedList (probe : Probe) (add : Bool) (path content : Text) : Text :=
  let found := (pieces content).any (holds path)
  let kept := if add then pieces content else (pieces content).filter fun p => !holds path p
  let separator := if needsSeparator probe content then ['\n'] else []
  kept.flatMap written ++ if add && !found then separator ++ path ++ ['\n'] else []

/-- The list is as it should be already: the opposite of `changed`. -/
def settled (add found : Bool) : Bool := if add then found else !found

/-- The file after a call, its result, and `changed_out`. -/
structure Update where
  file : Option Text
  ok : Bool
  changed : Bool
deriving DecidableEq

/-- `update_manual_list`. -/
def updateManualList (f : Faults) (add : Bool) (path : Text) (file : Option Text) : Update :=
  match normalizePath path with
  | none => ⟨file, false, false⟩
  | some path =>
    if f.openList then ⟨file, false, false⟩
    else if f.create then ⟨file, false, false⟩
    else if f.copy then ⟨file, false, false⟩
    else
      let content := file.getD []
      let found := (pieces content).any (holds path)
      if settled add found then ⟨file, true, false⟩
      else if f.rename then ⟨file, false, false⟩
      else ⟨some (updatedList f.probe add path content), true, true⟩

/-- `sm_manual_add_path`. -/
def addPath (f : Faults) (path : Text) (file : Option Text) : Update :=
  updateManualList f true path file

/-- `sm_manual_remove_path`. -/
def removePath (f : Faults) (path : Text) (file : Option Text) : Update :=
  updateManualList f false path file

end ShadowMount.Manual
