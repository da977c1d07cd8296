import ShadowMount.Manual.Model

/-!
# The status of manual entries

The second file of {lit}`sm_manual.c`: one line for each title that was installed from a manual
source, with its status, title id, path and title name between tabs.  Installing a title reads the
file, records the title and writes the file again; the reconciliation with the titles of the
system marks the deleted ones and takes their paths off the manual list.

The files can be read whenever they exist; writing them may fail.
-/

namespace ShadowMount.Manual

open Foundation

/-- `manual_status_t`. -/
inductive Status where
  | unknown | installed | deleted
deriving DecidableEq

/-- `manual_status_entry_t`, without the mark that only the reconciliation uses. -/
structure Entry where
  path : Text
  titleId : Text
  titleName : Text
  status : Status
deriving DecidableEq

/-- `MANUAL_STATUS_CAPACITY`. -/
def statusCapacity : Nat := 1024

/-- The size of the line buffer. -/
def statusLineSize : Nat := maxPath + maxTitleName + maxTitleId + 64

/-- `manual_status_name`. -/
def manualStatusName : Status → Text
  | .installed => "installed".toList
  | .deleted => "deleted".toList
  | .unknown => "unknown".toList

/-- `parse_manual_status_name`. -/
def parseManualStatusName (name : Text) : Status :=
  if sameNoCase name "installed".toList then .installed
  else if sameNoCase name "deleted".toList then .deleted
  else .unknown

/-- `strtok` with one delimiter: the token, and what follows its delimiter. -/
def strtok (delimiter : Char) (line : Text) : Option (Text × Text) :=
  match line.dropWhile (· = delimiter) with
  | [] => none
  | start =>
    let (token, rest) := cut (· = delimiter) start
    some (token, rest.drop 1)

/-- The end of `parse_manual_status_line`, on the trimmed fields. -/
def makeEntry (status : Status) (titleId path titleName : Text) : Option Entry :=
  if status = .unknown || titleId = [] || path = [] then none
  else some {
    path := strlcpy maxPath path
    titleId := strlcpy maxTitleId titleId
    titleName := strlcpy maxTitleName titleName
    status := status }

/-- `parse_manual_status_line`. -/
def parseManualStatusLine (line : Text) : Option Entry :=
  match strtok '\t' line with
  | none => none
  | some (status, line) =>
    match strtok '\t' line with
    | none => none
    | some (titleId, line) =>
      match strtok '\t' line with
      | none => none
      | some (path, line) =>
        let titleName := ((strtok '\n' line).map Prod.fst).getD []
        makeEntry (parseManualStatusName (trimManualLine status)) (trimManualLine titleId)
          (trimManualLine path) (trimManualLine titleName)

/-- The loop of `load_manual_status` on the lines, after it has found some entries. -/
def loadLines : List Text → Nat → List Entry
  | [], _ => []
  | line :: rest, count =>
    if statusCapacity ≤ count then []
    else match parseManualStatusLine (cText line) with
      | none => loadLines rest count
      | some entry => entry :: loadLines rest (count + 1)

/-- `load_manual_status`. -/
def loadManualStatus (file : Option Text) : List Entry :=
  match file with
  | none => []
  | some content => loadLines (allTurns (chunk '\n' (statusLineSize - 1)) content) 0

/-- The line of an entry, if it is written. -/
def statusLine (entry : Entry) : Text :=
  if entry.status = .unknown || entry.path = [] || entry.titleId = [] then []
  else manualStatusName entry.status ++ '\t' :: (entry.titleId ++ '\t' :: (entry.path ++
    '\t' :: (entry.titleName ++ ['\n'])))

/-- What `write_manual_status` writes. -/
def writeManualStatus (entries : List Entry) : Text := entries.flatMap statusLine

/-- `find_manual_status_entry`. -/
def findManualStatusEntry (entries : List Entry) (path titleId : Text) : Option Nat :=
  entries.findIdx? fun e => (path ≠ [] && e.path = path) || (titleId ≠ [] && e.titleId = titleId)

/-- The entry after the title was recorded in it. -/
def noteEntry (entry : Entry) (path titleId titleName : Text) : Entry where
  path := strlcpy maxPath path
  titleId := strlcpy maxTitleId titleId
  titleName := if titleName = [] then entry.titleName else strlcpy maxTitleName titleName
  status := .installed

/-- The entry that `memset` leaves behind. -/
def Entry.zero : Entry := ⟨[], [], [], .unknown⟩

/-- Is the title recorded already? -/
def isNoted (entry : Entry) (path titleId titleName : Text) : Bool :=
  entry.status = .installed && entry.path = path && entry.titleId = titleId &&
    (titleName = [] || entry.titleName = titleName)

/-- The entries that `sm_manual_note_installed` writes, if it writes any. -/
def noteEntries (entries : List Entry) (path titleId titleName : Text) : Option (List Entry) :=
  match findManualStatusEntry entries path titleId with
  | some i =>
    let entry := entries.getD i .zero
    if isNoted entry path titleId titleName then none
    else some (entries.set i (noteEntry entry path titleId titleName))
  | none =>
    if statusCapacity ≤ entries.length then none
    else some (entries ++ [noteEntry .zero path titleId titleName])

/-- The two files. -/
structure Files where
  list : Option Text
  status : Option Text
deriving DecidableEq

/-- `sm_manual_note_installed`: the files, and the entries if they were written.  An absent
title name is an empty one. -/
def noteInstalled (writeFails : Bool) (path titleId titleName : Text) (files : Files) :
    Files × Option (List Entry) :=
  let path := cText path
  let titleId := cText titleId
  if path = [] || titleId = [] then (files, none)
  else match noteEntries (loadManualStatus files.status) path titleId (cText titleName) with
    | none => (files, none)
    | some entries =>
      if writeFails then (files, none)
      else ({ files with status := some (writeManualStatus entries) }, some entries)

/-- What the loop of `sm_manual_reconcile_deleted_titles` does with an entry, and whether it
marks it for removal from the list. -/
def reconcileEntry (titles : List Text) (entry : Entry) : Entry × Bool :=
  if entry.status ≠ .installed || entry.titleId = [] || entry.titleId ∈ titles then (entry, false)
  else ({ entry with status := .deleted }, true)

/-- `rewrite_manual_list_without_deleted_entries`, with the paths of the marked entries. -/
def rewriteManualList (f : Faults) (removed : List Text) (list : Option Text) :
    Option Text × Bool :=
  match list with
  | none => (none, !f.openList)
  | some content =>
    let marked (p : Piece) : Bool := removed.any fun path => holds path p
    if f.openList || f.create || f.copy then (list, false)
    else if !(pieces content).any marked then (list, true)
    else if f.rename then (list, false)
    else (some (((pieces content).filter fun p => !marked p).flatMap written), true)

/-- `sm_manual_reconcile_deleted_titles` on the titles of the system, if they are known: the
files, and the entries if they were written. -/
def reconcileDeletedTitles (f : Faults) (writeFails : Bool) (titles : Option (List Text))
    (files : Files) : Files × Option (List Entry) :=
  match titles with
  | none => (files, none)
  | some titles =>
    let marked := (loadManualStatus files.status).map (reconcileEntry titles)
    if !marked.any Prod.snd then (files, none)
    else
      let removed := (marked.filter Prod.snd).map fun e => e.1.path
      match rewriteManualList f removed files.list with
      | (list, false) => ({ files with list := list }, none)
      | (list, true) =>
        let entries := marked.map Prod.fst
        if writeFails then ({ files with list := list }, none)
        else (⟨list, some (writeManualStatus entries)⟩, some entries)

/-- The calls that write the status file. -/
inductive StatusCall where
  | note (path titleId titleName : Text)
  | reconcile (f : Faults) (titles : Option (List Text))

/-- One call. -/
def StatusCall.step (call : StatusCall) (writeFails : Bool) (files : Files) :
    Files × Option (List Entry) :=
  match call with
  | .note path titleId titleName => noteInstalled writeFails path titleId titleName files
  | .reconcile f titles => reconcileDeletedTitles f writeFails titles files

/-- A run: the files, and the entries that were written last. -/
def runStatus : List (StatusCall × Bool) → Files → List Entry → Files × List Entry
  | [], files, last => (files, last)
  | (call, writeFails) :: rest, files, last =>
    let result := call.step writeFails files
    runStatus rest result.1 (result.2.getD last)

end ShadowMount.Manual
