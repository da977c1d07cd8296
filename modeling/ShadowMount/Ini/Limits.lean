import ShadowMount.Ini.Document

/-!
# Ini documents - the limits of the reader and the writer

The reader bounds the number of physical lines, their length, the length of a
section name and the size of a file.  The writer checks the size only, and the
number of lines is checked when a line is inserted, where a header counts once
although it is written with a blank line before it.  A document can therefore be
published that the reader refuses.

Main results:

- Theorem {lit}`published_accepted_iff`: of every document in use, exactly when
  the published file is accepted.
- Theorem {lit}`published_file_refused`: a document whose published file is
  refused.
-/

namespace ShadowMount.Ini

open Foundation

variable {comment : Option Text} {d : Document}

/-- The number of physical lines a line is written as; a rebuilt header has a
blank line before it. -/
def physicalCount (l : Line) : Nat :=
  match l.raw, l.content with
  | some _, _ => 1
  | none, .header => 2
  | none, .entry _ _ => 1
  | none, .other => 0

/-- The length of a value as it is written. -/
def encodedLength (value : Text) : Nat :=
  if needsQuotes value then value.length + value.countP (fun c => c = '"' || c = '\\') + 2
  else value.length

def commentLength : Option Text → Nat
  | none => 0
  | some comment => comment.length + 1

/-- The length of the longest physical line a line is written as, its line break
included. -/
def physicalLength (l : Line) : Nat :=
  match l.raw, l.content with
  | some raw, _ => if raw.getLast? = some '\n' then raw.length else raw.length + 1
  | none, .header => l.sect.length + 2 + commentLength l.comment + 1
  | none, .entry key value =>
    key.length + 3 + encodedLength value + commentLength l.comment + 1
  | none, .other => 0

/-- The header of the section gives the reader a name that fits its buffer. -/
def NameReadable (name : Text) : Prop :=
  trim isSpace (readName name) ≠ [] ∧ (trim isSpace (readName name)).length < maxSection

/-- A text that starts with a bracket is a section header. -/
def HeaderReadable (rest : Text) : Prop :=
  ∃ name tail, splitHeader rest = some (name, tail) ∧ trim isSpace name ≠ [] ∧
    (trim isSpace name).length < maxSection

/-- The key of a rebuilt entry is not blank, and if it starts with a bracket then
the whole line is a section header. -/
def KeyReadable (key value : Text) (comment : Option Text) : Prop :=
  match key.dropWhile isSpace with
  | [] => False
  | c :: rest => c = '[' →
      HeaderReadable (rest ++ ' ' :: '=' :: ' ' :: (encodeValue value ++ commentText comment))

/-- What a line must fulfil for the reader to accept what it is written as. -/
def LineReadable (l : Line) : Prop :=
  physicalLength l < lineMax ∧
    (l.raw = none → match l.content with
      | .header => NameReadable l.sect
      | .entry key value => KeyReadable key value l.comment
      | .other => True)

/-- The reader accepts the line, whatever section is in force. -/
def Accepted (raw : Text) : Prop :=
  ∀ sect, ∃ content sect' comment, parseLine false sect raw = .line content sect' comment

theorem accepted_of_parseLine {sect raw sect' : Text} {content : Content}
    (h : parseLine false sect raw = .line content sect' comment) : Accepted raw :=
  fun other => ⟨content, _, comment, (parseLine_resect h other).1⟩

/-- The reader accepts the lines exactly when it accepts each, and it then stores
one line for each. -/
theorem readLines_isSome_iff (sect : Text) (raws : List Text) :
    (∃ d, readLines false sect raws = some d) ↔ ∀ raw ∈ raws, Accepted raw := by
  induction raws generalizing sect with
  | nil => exact ⟨nofun, fun _ => ⟨[], rfl⟩⟩
  | cons raw raws ih =>
    constructor
    · rintro ⟨d, hread⟩
      obtain ⟨content, sect', comment, rest, hparsed, hrest, -⟩ := readLines_cons_eq_some hread
      intro raw' hraw'
      rcases List.mem_cons.mp hraw' with rfl | hin
      · exact accepted_of_parseLine hparsed
      · exact (ih sect').mp ⟨rest, hrest⟩ raw' hin
    · intro haccepted
      obtain ⟨content, sect', comment, hparsed⟩ := haccepted raw List.mem_cons_self sect
      obtain ⟨rest, hrest⟩ := (ih sect').mpr
        (fun raw' hraw' => haccepted raw' (List.mem_cons_of_mem _ hraw'))
      refine ⟨⟨some raw, sect', content, comment⟩ :: rest, ?_⟩
      unfold readLines
      rw [hparsed]
      simp only [hrest]
      rfl

theorem length_of_readLines {sect : Text} {raws : List Text}
    (h : readLines false sect raws = some d) : d.length = raws.length := by
  induction raws generalizing sect d with
  | nil =>
    cases h
    rfl
  | cons raw raws ih =>
    obtain ⟨content, sect', comment, rest, -, hrest, rfl⟩ := readLines_cons_eq_some h
    simp [ih hrest]

/-- When a file is accepted. -/
theorem read_isSome_iff (bytes : Text) :
    (∃ d, read false bytes = some d) ↔
      bytes.length ≤ maxBytes ∧ '\x00' ∉ bytes ∧
        (splitTerminated '\n' bytes).length ≤ maxLines ∧
        ∀ raw ∈ splitTerminated '\n' bytes, raw.length < lineMax ∧ Accepted raw := by
  unfold read
  simp only
  split
  · rename_i hlimits
    simp only [Bool.or_eq_true, decide_eq_true_eq, List.any_eq_true] at hlimits
    refine ⟨fun hsome => (by obtain ⟨d, hd⟩ := hsome; cases hd), ?_⟩
    rintro ⟨hsize, hzero, -, hlines⟩
    rcases hlimits with (hsize' | hzero') | ⟨raw, hraw, hlong⟩
    · omega
    · exact absurd hzero' hzero
    · have hshort := (hlines raw hraw).1
      omega
  · rename_i hlimits
    simp only [Bool.or_eq_true, decide_eq_true_eq, List.any_eq_true, not_or, not_lt, not_exists,
      not_and, not_le] at hlimits
    obtain ⟨⟨hsize, hzero⟩, hshort⟩ := hlimits
    have haccepted := readLines_isSome_iff [] (splitTerminated '\n' bytes)
    split
    · rename_i hread
      refine ⟨fun hsome => (by obtain ⟨d, hd⟩ := hsome; cases hd), ?_⟩
      rintro ⟨-, -, -, hlines⟩
      obtain ⟨d, hd⟩ := haccepted.mpr (fun raw hraw => (hlines raw hraw).2)
      rw [hread] at hd
      cases hd
    · rename_i d hread
      have hlength := length_of_readLines hread
      have hall := haccepted.mp ⟨d, hread⟩
      split
      · rename_i hcount
        refine ⟨fun _ => ⟨hsize, hzero, by omega, fun raw hraw => ⟨hshort raw hraw, hall raw hraw⟩⟩,
          fun _ => ⟨d, rfl⟩⟩
      · rename_i hcount
        refine ⟨fun hsome => (by obtain ⟨d, hd⟩ := hsome; cases hd), ?_⟩
        rintro ⟨-, -, hcount', -⟩
        omega

theorem length_escape (value : Text) :
    (escape value).length = value.length + value.countP (fun c => c = '"' || c = '\\') := by
  induction value with
  | nil => rfl
  | cons c value ih =>
    unfold escape at ih ⊢
    rw [List.flatMap_cons, List.length_append, ih, List.countP_cons]
    by_cases hescaped : (decide (c = '"') || decide (c = '\\')) = true
    · rw [if_pos hescaped, if_pos hescaped]
      simp only [List.length_cons, List.length_nil]
      omega
    · rw [if_neg hescaped, if_neg hescaped]
      simp only [List.length_cons, List.length_nil]
      omega

theorem length_encodeValue (value : Text) :
    (encodeValue value).length = encodedLength value := by
  unfold encodeValue encodedLength
  split
  · simp only [List.length_append, List.length_cons, List.length_nil, length_escape]
  · rfl

theorem length_commentText (comment : Option Text) :
    (commentText comment).length = commentLength comment := by
  cases comment <;> rfl

theorem length_physical (l : Line) : (physical l).length = physicalCount l := by
  obtain ⟨raw, sect, content, comment⟩ := l
  cases raw with
  | some raw => rfl
  | none => cases content <;> rfl

theorem physical_fits_iff (l : Line) :
    (∀ text ∈ physical l, text.length < lineMax) ↔ physicalLength l < lineMax := by
  have hbuffer : lineMax = 4096 := rfl
  obtain ⟨raw, sect, content, comment⟩ := l
  cases raw with
  | some raw =>
    simp only [physical, physicalLength, List.mem_singleton, forall_eq]
    split <;> simp
  | none =>
    cases content with
    | header =>
      simp only [physical, physicalLength, List.mem_cons, List.not_mem_nil, or_false,
        forall_eq_or_imp, forall_eq, List.length_append, List.length_cons, List.length_nil,
        length_commentText]
      omega
    | entry key value =>
      simp only [physical, physicalLength, List.mem_singleton, forall_eq, List.length_append,
        List.length_cons, List.length_nil, length_commentText, length_encodeValue]
      omega
    | other => simp [physical, physicalLength, hbuffer]

theorem accepted_header_iff (name : Text) (hcomment : WellCommented comment) :
    Accepted ('[' :: name ++ ']' :: commentText comment ++ ['\n']) ↔ NameReadable name := by
  obtain ⟨tail, hparsed⟩ := parseLine_headerLine name hcomment []
  constructor
  · intro haccepted
    obtain ⟨content, sect', comment', hline⟩ := haccepted []
    rw [hparsed] at hline
    split at hline
    · cases hline
    · rename_i hname
      rw [not_or, not_le] at hname
      exact hname
  · rintro ⟨hne, hshort⟩
    rw [if_neg (by rw [not_or, not_le]; exact ⟨hne, hshort⟩)] at hparsed
    exact accepted_of_parseLine hparsed

theorem parseHeader_line_iff (sect rest : Text) :
    (∃ content sect' comment, parseHeader sect rest = .line content sect' comment) ↔
      HeaderReadable rest := by
  unfold parseHeader HeaderReadable
  cases hsplit : splitHeader rest with
  | none => simp
  | some split =>
    obtain ⟨name, tail⟩ := split
    simp only [Option.some.injEq, Prod.mk.injEq]
    constructor
    · rintro ⟨content, sect', comment, hline⟩
      split at hline
      · cases hline
      · rename_i hname
        simp only [Bool.or_eq_true, decide_eq_true_eq, not_or, not_le] at hname
        exact ⟨name, tail, ⟨rfl, rfl⟩, hname.1, hname.2⟩
    · rintro ⟨name', tail', ⟨rfl, rfl⟩, hne, hshort⟩
      refine ⟨.header, _, _, if_neg ?_⟩
      simp only [Bool.or_eq_true, decide_eq_true_eq, not_or, not_le]
      exact ⟨hne, hshort⟩

theorem accepted_entry_iff {key value : Text} (hkey : '=' ∉ key) (hvalue : validText value = true)
    (hcomment : WellCommented comment) :
    Accepted (key ++ ' ' :: '=' :: ' ' :: encodeValue value ++ commentText comment ++ ['\n']) ↔
      KeyReadable key value comment := by
  have hparsed := parseLine_entryLine hkey hvalue hcomment
  unfold Accepted KeyReadable
  simp only [hparsed]
  cases key.dropWhile isSpace with
  | nil => simp
  | cons c rest =>
    simp only
    split
    · rename_i hbracket
      simp only [parseHeader_line_iff, hbracket, forall_const]
    · rename_i hbracket
      simp only [hbracket, false_imp_iff, iff_true]
      intro sect
      split
      · exact ⟨_, _, _, rfl⟩
      · exact ⟨_, _, _, rfl⟩

theorem accepted_raw {raw : Text} {l : Line} (h : ReadsAs raw l) :
    Accepted (if raw.getLast? = some '\n' then raw else raw ++ ['\n']) := by
  obtain ⟨comment, hread⟩ := h
  split
  · exact accepted_of_parseLine (hread [])
  · have hsame : parseLine false [] (raw ++ ['\n']) = parseLine false [] raw := by
      unfold parseLine
      rw [trim_append_right (by simp [isSpace])]
    exact accepted_of_parseLine (hsame.trans (hread []))

/-- When the lines written for one line are accepted. -/
theorem physical_accepted_iff {names keys : Text → Prop} {l : Line} (h : LineOk names keys l) :
    (∀ text ∈ physical l, text.length < lineMax ∧ Accepted text) ↔ LineReadable l := by
  have hsplit : (∀ text ∈ physical l, text.length < lineMax ∧ Accepted text) ↔
      physicalLength l < lineMax ∧ ∀ text ∈ physical l, Accepted text := by
    rw [← physical_fits_iff]
    exact ⟨fun hall => ⟨fun text ht => (hall text ht).1, fun text ht => (hall text ht).2⟩,
      fun hall text ht => ⟨hall.1 text ht, hall.2 text ht⟩⟩
  rw [hsplit]
  refine and_congr_right (fun _ => ?_)
  obtain ⟨raw, sect, content, comment⟩ := l
  cases raw with
  | some raw =>
    simp only [physical, List.mem_singleton, forall_eq, reduceCtorEq, false_imp_iff, iff_true]
    exact accepted_raw (h.raw raw rfl).2
  | none =>
    simp only [forall_const]
    cases content with
    | header =>
      have hblank : Accepted ['\n'] := fun sect => ⟨.other, sect, none, rfl⟩
      simp only [physical, List.mem_cons, List.not_mem_nil, or_false, forall_eq_or_imp,
        forall_eq, hblank, true_and]
      exact accepted_header_iff sect h.comment
    | entry key value =>
      obtain ⟨-, -, -, heq, hvalue⟩ := h.entry rfl key value rfl
      simp only [physical, List.mem_singleton, forall_eq]
      exact accepted_entry_iff heq hvalue h.comment
    | other => simp [physical]

/-- The published file of a document with well-formed lines is accepted exactly
when its lines are readable and not too many. -/
theorem accepted_iff_of_lineOk {names keys : Text → Prop} (hd : DocumentOk names keys d)
    {bytes : Text} (h : write d = some bytes) :
    (∃ d', read false bytes = some d') ↔
      (d.map physicalCount).sum ≤ maxLines ∧ ∀ l ∈ d, LineReadable l := by
  obtain ⟨hsplit, hsize, hzero⟩ := splitTerminated_write hd h
  have hcount : (d.flatMap physical).length = (d.map physicalCount).sum := by
    rw [List.length_flatMap]
    exact congrArg List.sum (List.map_congr_left (fun l _ => length_physical l))
  rw [read_isSome_iff, hsplit, hcount]
  simp only [hsize, hzero, not_false_eq_true, true_and, List.mem_flatMap]
  refine and_congr_right (fun _ => ?_)
  constructor
  · intro hall l hl
    exact (physical_accepted_iff (hd l hl)).mp (fun text ht => hall text ⟨l, hl, ht⟩)
  · rintro hall text ⟨l, hl, ht⟩
    exact (physical_accepted_iff (hd l hl)).mpr (hall l hl) text ht

/-- Documents under every sequence of editing calls, from an accepted file or from
nothing. -/
def editSystem : System Document Edit where
  init d := d = [] ∨ ∃ bytes, read false bytes = some d
  step d e d' := d' = edit d e

theorem lineOk_of_reachable_any (h : Reachable editSystem d) :
    DocumentOk (fun _ => True) (fun _ => True) d := by
  refine h.invariant ?_ ?_
  · rintro d (rfl | ⟨bytes, hread⟩)
    · exact nofun
    · exact lineOk_of_read hread
  · rintro d e d' hd rfl
    refine lineOk_edit (fun _ _ _ _ => trivial) hd ?_
    cases e <;> simp [Edit.Allowed]

/-- Of every document in use, the published file is accepted exactly when it has
no more physical lines than the reader takes and each line is readable. -/
theorem published_accepted_iff {d : Document} (hreach : Reachable editSystem d) {bytes : Text}
    (hwrite : write d = some bytes) :
    (∃ d', read false bytes = some d') ↔
      (d.map physicalCount).sum ≤ maxLines ∧ ∀ l ∈ d, LineReadable l :=
  accepted_iff_of_lineOk (lineOk_of_reachable_any hreach) hwrite

/-- A file with a rebuilt entry is accepted again. -/
theorem published_accepted_after_set :
    ∃ bytes,
      write (edit [] (.set "general".toList "debug".toList (some "on".toList))) = some bytes ∧
      ∃ d', read false bytes = some d' := by
  have hreach : Reachable editSystem
      (edit [] (.set "general".toList "debug".toList (some "on".toList))) :=
    (Reachable.start (Or.inl rfl)).step rfl
  have hwrite : write (edit [] (.set "general".toList "debug".toList (some "on".toList))) =
      some "\n[general]\ndebug = on\n".toList := by decide
  refine ⟨_, hwrite, (published_accepted_iff hreach hwrite).mpr ⟨by decide, ?_⟩⟩
  intro l hl
  have hlines : edit [] (.set "general".toList "debug".toList (some "on".toList)) =
      [⟨none, "general".toList, .header, none⟩,
        ⟨none, "general".toList, .entry "debug".toList "on".toList, none⟩] := by decide
  rw [hlines] at hl
  simp only [List.mem_cons, List.not_mem_nil, or_false] at hl
  rcases hl with rfl | rfl
  · exact ⟨by decide, fun _ => ⟨by decide, by decide⟩⟩
  · exact ⟨by decide, fun _ => fun hbracket => absurd hbracket (by decide)⟩

/-- One long value. -/
def longValue : Text := List.replicate 4095 'a'

set_option maxRecDepth 100000 in
/-- The value fits no line of the reader, but it is set and published. -/
theorem published_file_refused :
    ¬∀ (d : Document) (bytes : Text), Reachable editSystem d → write d = some bytes →
      ∃ d', read false bytes = some d' := by
  intro hclaim
  have hreach : Reachable editSystem
      (edit [] (.set "general".toList "language".toList (some longValue))) :=
    (Reachable.start (Or.inl rfl)).step rfl
  have hwritten : (write (edit [] (.set "general".toList "language".toList
      (some longValue)))).isSome = true := by decide +kernel
  obtain ⟨bytes, hwrite⟩ := Option.isSome_iff_exists.mp hwritten
  have hreadable := (accepted_iff_of_lineOk (lineOk_of_reachable_any hreach) hwrite).mp
    (hclaim _ bytes hreach hwrite)
  have hlong : ∃ l ∈ edit [] (.set "general".toList "language".toList (some longValue)),
      ¬physicalLength l < lineMax := by decide +kernel
  obtain ⟨l, hl, hnot⟩ := hlong
  exact hnot (hreadable.2 l hl).1

end ShadowMount.Ini
