import ShadowMount.Config.Keys
import ShadowMount.Ini.Limits

/-!
# Ini documents - round trip of the settings

A document is written and read again.  What should survive is every answer of
{lit}`sm_ini_get`.  Values do: they are quoted and escaped where they need it.
Section names are written as they are, and a name that holds a closing bracket
with a comment character behind it is cut there when it is read, so all settings
of that section are lost.

Main results:

- Theorem {lit}`roundTrip_iff`: of every document that the program's own writers
  produce, exactly when all answers survive.
- Theorem {lit}`image_settings_lost`: an image whose settings are lost.
-/

namespace ShadowMount.Ini

open Foundation Config

variable {d d' : Document} {l : Line} {key value current sect bytes current' : Text}
  {raws : List Text} {names keys : Text → Prop}

/-- The entries of a document with folded names, in order. -/
def entries (d : Document) : List (Text × Text × Text) :=
  d.filterMap fun l => match l.content with
    | .entry key value => some (fold l.sect, fold key, value)
    | _ => none

/-- The sections of a document, in the order of their headers. -/
def headers (d : Document) : List Text :=
  d.filterMap fun l => if l.content = .header then some l.sect else none

/-- `sm_ini_get` looks at the entries only. -/
theorem get_eq_entries (d : Document) (sect key : Text) :
    get d sect key = (entries d).reverse.findSome? fun e =>
      if e.1 = fold sect ∧ e.2.1 = fold key then some e.2.2 else none := by
  unfold get entries
  rw [← List.filterMap_reverse]
  induction d.reverse with
  | nil => rfl
  | cons l d ih =>
    rw [List.findSome?_cons, List.filterMap_cons, ih]
    unfold Line.valueFor
    cases hcontent : l.content with
    | header => rfl
    | other => rfl
    | entry k value =>
      simp only [sameNoCase, Bool.and_eq_true, decide_eq_true_eq, List.findSome?_cons]
      by_cases hmatch : fold sect = fold l.sect ∧ fold key = fold k
      · rw [if_pos hmatch, if_pos ⟨hmatch.1.symm, hmatch.2.symm⟩]
      · rw [if_neg hmatch, if_neg (fun h => hmatch ⟨h.1.symm, h.2.symm⟩)]

@[simp] theorem headers_nil : headers [] = [] := rfl

theorem headers_append (d d' : Document) : headers (d ++ d') = headers d ++ headers d' :=
  List.filterMap_append

theorem headers_cons (l : Line) (d : Document) :
    headers (l :: d) = if l.content = .header then l.sect :: headers d else headers d := by
  unfold headers
  rw [List.filterMap_cons]
  split
  · rename_i hnone
    split at hnone
    · cases hnone
    · rename_i hother
      rw [if_neg hother]
  · rename_i sect hsome
    split at hsome
    · rename_i hheader
      cases hsome
      rw [if_pos hheader]
    · cases hsome

theorem get_isSome_of_mem (hl : l ∈ d) (hcontent : l.content = .entry key value) :
    (get d l.sect key).isSome = true := by
  unfold get
  rw [List.findSome?_isSome_iff]
  refine ⟨l, List.mem_reverse.mpr hl, ?_⟩
  simp [Line.valueFor, hcontent, sameNoCase]

/-- The section of every line is the one its nearest header names, up to case; the
first argument is the section in force before the first line. -/
def Consistent : Text → Document → Prop
  | _, [] => True
  | current, l :: d =>
    match l.content with
    | .header => Consistent l.sect d
    | _ => fold l.sect = fold current ∧ Consistent current d

theorem consistent_cons_header (h : l.content = .header) :
    Consistent current (l :: d) ↔ Consistent l.sect d := by
  simp only [Consistent, h]

theorem consistent_cons_other (h : l.content ≠ .header) : Consistent current (l :: d) ↔
      fold l.sect = fold current ∧ Consistent current d := by
  cases hcontent : l.content with
  | header => exact absurd hcontent h
  | entry key value => simp only [Consistent, hcontent]
  | other => simp only [Consistent, hcontent]

theorem consistent_of_readLines (h : readLines false sect raws = some d) : Consistent sect d := by
  induction raws generalizing sect d with
  | nil =>
    cases h
    trivial
  | cons raw raws ih =>
    obtain ⟨content, sect', comment, rest, hparsed, hrest, rfl⟩ := readLines_cons_eq_some h
    have hconsistent := ih hrest
    by_cases hheader : content = .header
    · exact (consistent_cons_header (l := ⟨some raw, sect', content, comment⟩) hheader).mpr
        hconsistent
    · have hsame := (parseLine_resect hparsed sect).2 hheader
      subst hsame
      exact (consistent_cons_other (l := ⟨some raw, sect', content, comment⟩) hheader).mpr
        ⟨rfl, hconsistent⟩

theorem consistent_of_read (h : read false bytes = some d) : Consistent [] d := by
  unfold read at h
  simp only at h
  split at h
  · cases h
  · split at h
    · cases h
    · rename_i d' hread
      split at h
      · cases h
        exact consistent_of_readLines hread
      · cases h

theorem consistent_append_header {tail : Document} (hd : Consistent current d)
    (hheader : l.content = .header) (htail : Consistent l.sect tail) :
    Consistent current (d ++ l :: tail) := by
  induction d generalizing current with
  | nil => exact (consistent_cons_header hheader).mpr htail
  | cons l' d ih =>
    by_cases hl' : l'.content = .header
    · exact (consistent_cons_header hl').mpr (ih ((consistent_cons_header hl').mp hd))
    · obtain ⟨hsect, hrest⟩ := (consistent_cons_other hl').mp hd
      exact (consistent_cons_other hl').mpr ⟨hsect, ih hrest⟩

/-- A line inserted at the end of its section. -/
theorem consistent_insert {place : Nat} (hd : Consistent current d)
    (hplace : sectionEnd sect d = some place) (hl : l.content ≠ .header) (hsect : l.sect = sect) :
    Consistent current (d.take place ++ l :: d.drop place) := by
  induction d generalizing current place with
  | nil => cases hplace
  | cons l' d ih =>
    unfold sectionEnd at hplace
    split at hplace
    · rename_i place' hrest
      cases hplace
      simp only [List.take_succ_cons, List.drop_succ_cons, List.cons_append]
      by_cases hl' : l'.content = .header
      · exact (consistent_cons_header hl').mpr (ih ((consistent_cons_header hl').mp hd) hrest)
      · obtain ⟨hsect', hd'⟩ := (consistent_cons_other hl').mp hd
        exact (consistent_cons_other hl').mpr ⟨hsect', ih hd' hrest⟩
    · split at hplace
      · rename_i hmatch
        rw [sameNoCase_iff] at hmatch
        cases hplace
        simp only [List.take_succ_cons, List.take_zero, List.drop_succ_cons, List.drop_zero,
          List.cons_append, List.nil_append]
        by_cases hl' : l'.content = .header
        · refine (consistent_cons_header hl').mpr ((consistent_cons_other hl).mpr ⟨?_, ?_⟩)
          · rw [hsect, hmatch]
          · exact (consistent_cons_header hl').mp hd
        · obtain ⟨hsect', hd'⟩ := (consistent_cons_other hl').mp hd
          refine (consistent_cons_other hl').mpr ⟨hsect', (consistent_cons_other hl).mpr ⟨?_, hd'⟩⟩
          rw [hsect, ← hmatch, hsect']
      · cases hplace

/-- An entry appended to its section. -/
theorem consistent_append (hd : Consistent current d) :
    Consistent current (append d sect key value).1 := by
  unfold append
  split
  · exact hd
  · simp only
    split
    · rename_i place hplace
      unfold insertLine
      split
      · rename_i hinserted
        split at hinserted
        · cases hinserted
        · cases hinserted
          exact consistent_insert hd hplace (by simp) rfl
      · exact hd
    · have hempty : Consistent sect [] := trivial
      unfold insertLine
      split
      · exact hd
      · rename_i d' hinserted
        split at hinserted
        · cases hinserted
        · cases hinserted
          simp only [List.take_length, List.drop_length]
          split
          · rename_i d'' hinserted'
            split at hinserted'
            · cases hinserted'
            · cases hinserted'
              rw [List.append_assoc, List.singleton_append]
              exact consistent_append_header hd rfl ⟨rfl, hempty⟩
          · exact consistent_append_header hd rfl hempty

theorem setLine_shape (sect key : Text) (value : Option Text) (stored : Bool) (l : Line) :
    (setLine sect key value stored l).1.sect = l.sect ∧
      ((setLine sect key value stored l).1.content = .header ↔ l.content = .header) := by
  unfold setLine
  split
  · rename_i k old hcontent
    rw [hcontent]
    split
    · simp [hcontent]
    · split <;> simp
  · exact ⟨rfl, Iff.rfl⟩

theorem consistent_setLines {value : Option Text} {stored : Bool} (hd : Consistent current d) :
    Consistent current (setLines sect key value stored d).1 := by
  induction d generalizing current stored with
  | nil => trivial
  | cons l d ih =>
    obtain ⟨hsect, hheader⟩ := setLine_shape sect key value stored l
    simp only [setLines]
    by_cases hl : l.content = .header
    · rw [consistent_cons_header hl] at hd
      rw [consistent_cons_header (hheader.mpr hl), hsect]
      exact ih hd
    · obtain ⟨hfold, hrest⟩ := (consistent_cons_other hl).mp hd
      rw [consistent_cons_other (fun h => hl (hheader.mp h)), hsect]
      exact ⟨hfold, ih hrest⟩

theorem consistent_set {value : Option Text} (hd : Consistent current d) :
    Consistent current (set d sect key value).1 := by
  unfold set
  split
  · exact hd
  · simp only
    split
    · exact consistent_setLines hd
    · split
      · exact consistent_setLines hd
      · exact consistent_append (consistent_setLines hd)

theorem renameLine_shape (old name : Text) (l : Line) :
    (renameLine old name l).sect = (if sameNoCase l.sect old then name else l.sect) ∧
      (renameLine old name l).content = l.content := by
  unfold renameLine
  split
  · rename_i hother
    rw [Bool.not_eq_true'] at hother
    simp [hother]
  · rename_i hsame
    rw [Bool.not_eq_true', Bool.not_eq_false] at hsame
    rw [if_pos hsame]
    split <;> exact ⟨rfl, rfl⟩

theorem consistent_rename {old name : Text} (hd : Consistent current d)
    (hcurrent : fold current' = fold (if sameNoCase current old then name else current)) :
    Consistent current' (d.map (renameLine old name)) := by
  induction d generalizing current current' with
  | nil => trivial
  | cons l d ih =>
    obtain ⟨hsect, hcontent⟩ := renameLine_shape old name l
    rw [List.map_cons]
    by_cases hl : l.content = .header
    · rw [consistent_cons_header hl] at hd
      rw [consistent_cons_header (by rw [hcontent]; exact hl)]
      exact ih hd (by rw [hsect])
    · obtain ⟨hfold, hrest⟩ := (consistent_cons_other hl).mp hd
      rw [consistent_cons_other (by rw [hcontent]; exact hl)]
      refine ⟨?_, ih hrest hcurrent⟩
      have hmatch : sameNoCase l.sect old = sameNoCase current old := by
        simp only [sameNoCase, hfold]
      rw [hsect, hcurrent, hmatch]
      split
      · rfl
      · exact hfold

/-- A section removed. -/
theorem consistent_remove (hd : Consistent current d)
    (hcurrent : fold sect ≠ fold current → fold current' = fold current) :
    Consistent current' (removeSection d sect) := by
  induction d generalizing current current' with
  | nil => trivial
  | cons l d ih =>
    unfold removeSection at ih ⊢
    rw [List.filter_cons]
    by_cases hl : l.content = .header
    · have hrest := (consistent_cons_header hl).mp hd
      split
      · exact (consistent_cons_header hl).mpr (ih hrest (fun _ => rfl))
      · rename_i hremoved
        refine ih hrest (fun hne => absurd ?_ hne)
        simpa [sameNoCase] using hremoved
    · obtain ⟨hfold, hrest⟩ := (consistent_cons_other hl).mp hd
      split
      · rename_i hkept
        have hne : fold sect ≠ fold current := by
          rw [← hfold]
          simpa [sameNoCase] using hkept
        exact (consistent_cons_other hl).mpr ⟨by rw [hfold, hcurrent hne], ih hrest hcurrent⟩
      · exact ih hrest hcurrent

theorem closesEarly_of_parseLine {raw sect' : Text} {content : Content} {comment : Option Text}
    (hsect : closesEarly sect = false)
    (h : parseLine false sect raw = .line content sect' comment) : closesEarly sect' = false := by
  by_cases hheader : content = .header
  · subst hheader
    unfold parseLine at h
    split at h
    · cases h
    · split at h
      · unfold parseHeader at h
        split at h
        · cases h
        · rename_i name tail hsplit
          simp only at h
          split at h
          · cases h
          · cases h
            rw [closesEarly_trim]
            exact closesEarly_of_splitHeader hsplit
      · split at h
        · cases h
        · unfold parseEntry at h
          split at h
          · cases h
          · simp only at h
            split at h
            · split at h <;> cases h
            · cases h
  · rw [(parseLine_resect h sect).2 hheader]
    exact hsect

theorem closesEarly_of_readLines (hsect : closesEarly sect = false)
    (h : readLines false sect raws = some d) : ∀ l ∈ d, closesEarly l.sect = false := by
  induction raws generalizing sect d with
  | nil =>
    cases h
    exact nofun
  | cons raw raws ih =>
    obtain ⟨content, sect', comment, rest, hparsed, hrest, rfl⟩ := readLines_cons_eq_some h
    have hclean := closesEarly_of_parseLine hsect hparsed
    intro l hl
    rcases List.mem_cons.mp hl with rfl | hl
    · exact hclean
    · exact ih hclean hrest l hl

/-- A key that is written and read back as it is. -/
structure CleanKey (key : Text) : Prop where
  first : ∃ c rest, key = c :: rest ∧ c ≠ '[' ∧ isCommentStart c = false
  trimmed : trim isSpace key = key

theorem parseLine_cleanEntry {comment : Option Text} (hkey : CleanKey key) (heq : '=' ∉ key)
    (hvalue : validText value = true) (hcomment : WellCommented comment) (sect : Text) :
    parseLine false sect
        (key ++ ' ' :: '=' :: ' ' :: encodeValue value ++ commentText comment ++ ['\n']) =
      .line (.entry key value) sect comment := by
  obtain ⟨c, rest, rfl, hbracket, hstart⟩ := hkey.first
  have hspace : isSpace c = false := by
    refine trim_head (p := isSpace) (l := c :: rest) ?_
    rw [hkey.trimmed]
    rfl
  rw [parseLine_entryLine heq hvalue hcomment, List.dropWhile_cons_of_neg (by rw [hspace]; simp),
    hkey.trimmed]
  simp [hbracket, hstart]

theorem entries_cons (l : Line) (d : Document) :
    entries (l :: d) = (match l.content with
      | .entry key value => [(fold l.sect, fold key, value)]
      | _ => []) ++ entries d := by
  unfold entries
  rw [List.filterMap_cons]
  cases l.content <;> rfl

theorem entries_append (d d' : Document) : entries (d ++ d') = entries d ++ entries d' :=
  List.filterMap_append

/-- What the reader makes of a line as it is written, with `current'` in force before it and
`sect'` behind it: a header is one again, with the same name unless it closes early, and an
entry is one again, in the section in force. -/
structure ReadsBack (l : Line) (current' sect' : Text) (front : Document) : Prop where
  entries : entries front = match l.content with
    | .entry key value => [(fold current', fold key, value)]
    | _ => []
  headers : headers front = if l.content = .header then [sect'] else []
  kept : l.content ≠ .header → sect' = current'
  named : l.content = .header → closesEarly l.sect = false → sect' = l.sect

theorem readBack_cons (hnames : ∀ name, names name → validText name = true → CleanName name)
    (hkeys : ∀ key, keys key → CleanKey key) (hl : LineOk names keys l)
    (hread : readLines false current' (physical l ++ raws) = some d') :
    ∃ front rest sect', d' = front ++ rest ∧ readLines false sect' raws = some rest ∧
      ReadsBack l current' sect' front := by
  -- a line that is written as one physical line, which is read back as the line
  have hone : ∀ text comment, physical l = [text] →
      (∀ sect, parseLine false sect text =
        .line l.content (if l.content = .header then l.sect else sect) comment) →
      ∃ front rest sect', d' = front ++ rest ∧ readLines false sect' raws = some rest ∧
        ReadsBack l current' sect' front := by
    intro text comment hphysical hparse
    rw [hphysical, List.singleton_append] at hread
    obtain ⟨content, sect', comment', rest, hparsed, hrest, rfl⟩ := readLines_cons_eq_some hread
    rw [hparse] at hparsed
    cases hparsed
    refine ⟨[_], rest, _, rfl, hrest, ?_, ?_, fun hother => if_neg hother,
      fun hheader _ => if_pos hheader⟩
    · rw [entries_cons]
      cases hcontent : l.content <;> simp [Ini.entries]
    · rw [headers_cons]
      by_cases hheader : l.content = .header <;> simp [hheader]
  obtain ⟨raw, sect, content, comment⟩ := l
  cases raw with
  | some raw =>
    obtain ⟨-, comment', hparse⟩ := hl.raw raw rfl
    refine hone _ comment' rfl (fun current => ?_)
    split
    · exact hparse current
    · have hsame : parseLine false current (raw ++ ['\n']) = parseLine false current raw := by
        unfold parseLine
        rw [trim_append_right (by simp [isSpace])]
      exact hsame.trans (hparse current)
  | none =>
    cases content with
    | entry key value =>
      obtain ⟨hkey, -, -, heq, hvalue⟩ := hl.entry rfl key value rfl
      exact hone _ comment rfl
        (fun current => parseLine_cleanEntry (hkeys key hkey) heq hvalue hl.comment current)
    | other =>
      exact ⟨[], d', current', rfl, hread, rfl, rfl, fun _ => rfl, fun h => by cases h⟩
    | header =>
      obtain ⟨hname, -, htext⟩ := hl.header rfl rfl
      obtain ⟨tail, hparse⟩ := parseLine_headerLine sect hl.comment current'
      -- the blank line before the header is stored as a line of its own
      obtain ⟨_, _, _, rest, hblank, hrest, rfl⟩ := readLines_cons_eq_some hread
      cases hblank
      obtain ⟨_, _, _, rest', hparsed, hrest', rfl⟩ := readLines_cons_eq_some hrest
      rw [hparse] at hparsed
      split at hparsed
      · cases hparsed
      · cases hparsed
        refine ⟨[_, _], rest', _, rfl, hrest', rfl, rfl, fun h => absurd rfl h,
          fun _ hopen => ?_⟩
        have hclean := hnames sect hname htext
        obtain ⟨c, name, rfl, hspace, -⟩ := hclean.first
        have htrim : trim isSpace (c :: name) = c :: name := by
          refine trim_eq_self ?_ hclean.last
          intro a ha
          cases ha
          exact hspace
        rw [readName_eq_self hopen, htrim]

/-- The entries survive when no entry stands in a section whose header closes
early.  The induction follows the lines; `current` is the section of the
document and `current'` the one the reader has in force. -/
theorem entries_readBack (hnames : ∀ name, names name → validText name = true → CleanName name)
    (hkeys : ∀ key, keys key → CleanKey key) (hd : DocumentOk names keys d)
    (hconsistent : Consistent current d)
    (hclean : ∀ l ∈ d, ∀ key value, l.content = .entry key value → closesEarly l.sect = false)
    (hcurrent : closesEarly current = false → fold current' = fold current)
    (hread : readLines false current' (d.flatMap physical) = some d') : entries d' = entries d := by
  induction d generalizing current current' d' with
  | nil =>
    cases hread
    rfl
  | cons l d ih =>
    have hd' : DocumentOk names keys d := fun l hl => hd l (List.mem_cons_of_mem _ hl)
    have hclean' : ∀ l ∈ d, ∀ key value, l.content = .entry key value →
        closesEarly l.sect = false := fun l hl => hclean l (List.mem_cons_of_mem _ hl)
    rw [List.flatMap_cons] at hread
    obtain ⟨front, rest, sect', rfl, hrest, hfront, -, hkept, hheader⟩ :=
      readBack_cons hnames hkeys (hd l List.mem_cons_self) hread
    rw [entries_append, hfront, entries_cons]
    by_cases hl : l.content = .header
    · rw [ih hd' ((consistent_cons_header hl).mp hconsistent) hclean'
        (fun hopen => by rw [hheader hl hopen]) hrest]
      simp [hl]
    · obtain ⟨hfold, hconsistent'⟩ := (consistent_cons_other hl).mp hconsistent
      obtain rfl := hkept hl
      rw [ih hd' hconsistent' hclean' hcurrent hrest]
      cases hcontent : l.content with
      | header => exact absurd hcontent hl
      | other => rfl
      | entry key value =>
        have hopen := hclean l List.mem_cons_self key value hcontent
        rw [closesEarly_of_sameNoCase hfold] at hopen
        simp [hcurrent hopen, hfold]

/-- The headers survive when none closes early. -/
theorem headers_readBack (hnames : ∀ name, names name → validText name = true → CleanName name)
    (hkeys : ∀ key, keys key → CleanKey key) (hd : DocumentOk names keys d)
    (hclean : ∀ l ∈ d, closesEarly l.sect = false)
    (hread : readLines false current' (d.flatMap physical) = some d') : headers d' = headers d := by
  induction d generalizing current' d' with
  | nil =>
    cases hread
    rfl
  | cons l d ih =>
    have hd' : DocumentOk names keys d := fun l hl => hd l (List.mem_cons_of_mem _ hl)
    rw [List.flatMap_cons] at hread
    obtain ⟨front, rest, sect', rfl, hrest, -, hfront, -, hheader⟩ :=
      readBack_cons hnames hkeys (hd l List.mem_cons_self) hread
    rw [headers_append, hfront, headers_cons,
      ih hd' (fun l hl => hclean l (List.mem_cons_of_mem _ hl)) hrest]
    split
    · rename_i hl
      rw [hheader hl (hclean l List.mem_cons_self)]
      rfl
    · rfl

/-- An editing call as the program makes it. -/
def CallerEdit : Edit → Prop
  | .set sect key _ => CallerSection sect ∧ key ∈ callerKeys
  | .append sect key _ => CallerSection sect ∧ key ∈ callerKeys
  | .rename old name => old ≠ [] ∧ CallerSection name
  | .remove _ => True

/-- A key that the program uses, in any case. -/
def IsCallerKey (key : Text) : Prop := ∃ k ∈ callerKeys, fold key = fold k

theorem isCallerKey_fold (a b : Text) (h : fold a = fold b) (ha : IsCallerKey a) :
    IsCallerKey b := by
  obtain ⟨k, hk, hfold⟩ := ha
  exact ⟨k, hk, h.symm.trans hfold⟩

/-- The program's keys consist of letters and underscores. -/
theorem cleanKey_of_isCallerKey (h : IsCallerKey key) : CleanKey key := by
  obtain ⟨k, hk, hfold⟩ := h
  have hall : ∀ k ∈ callerKeys,
      ((fold k).head?.all fun c => c != '[' && !isCommentStart c) = true ∧
      k ≠ [] ∧ ((fold k).all fun c => !isSpace c) = true := by decide +kernel
  obtain ⟨hhead, hne, hspaces⟩ := hall k hk
  simp only [Option.all_eq_true, List.all_eq_true, Bool.and_eq_true, bne_iff_ne,
    Bool.not_eq_true'] at hhead hspaces
  rw [← hfold] at hhead hspaces
  have hspace : ∀ c ∈ key, isSpace c = false := by
    intro c hc
    rw [← isSpace_toLower]
    exact hspaces _ (List.mem_map_of_mem hc)
  cases key with
  | nil =>
    have hlength := congrArg List.length hfold
    simp only [length_fold, List.length_nil] at hlength
    exact absurd (List.length_eq_zero_iff.mp hlength.symm) hne
  | cons c rest =>
    obtain ⟨hbracket, hstart⟩ := hhead c.toLower rfl
    refine ⟨⟨c, rest, rfl, ?_, ?_⟩, ?_⟩
    · exact fun hc => hbracket ((toLower_eq_iff rfl).mpr hc)
    · rw [← isCommentStart_toLower]
      exact hstart
    · refine trim_eq_self (fun a ha => hspace a (List.mem_of_mem_head? ha))
        (fun a ha => hspace a (List.mem_of_mem_getLast? ha))

/-- What holds of every document that the program's own writers produce. -/
structure CallerDocument (d : Document) : Prop where
  lines : DocumentOk CallerSection IsCallerKey d
  consistent : Consistent [] d

theorem callerDocument_edit {d : Document} {e : Edit} (hd : CallerDocument d) (he : CallerEdit e) :
    CallerDocument (edit d e) where
  lines := by
    refine lineOk_edit isCallerKey_fold hd.lines ?_
    cases e with
    | set sect key value => exact ⟨he.1, key, he.2, rfl⟩
    | append sect key value => exact ⟨he.1, key, he.2, rfl⟩
    | rename old name => exact he.2
    | remove sect => trivial
  consistent := by
    cases e with
    | set sect key value => exact consistent_set hd.consistent
    | append sect key value => exact consistent_append hd.consistent
    | rename old name =>
      simp only [edit, renameSection]
      split
      · exact hd.consistent
      · refine consistent_rename hd.consistent ?_
        have hold : sameNoCase [] old = false := by
          simpa [sameNoCase, fold] using he.1
        rw [hold]
        rfl
    | remove sect => exact consistent_remove hd.consistent (fun _ => rfl)

theorem callerDocument_of_reachable
    (h : Reachable (editSystem.restrict fun _ e => CallerEdit e) d) : CallerDocument d := by
  refine h.invariant ?_ ?_
  · rintro d (rfl | ⟨bytes, hread⟩)
    · exact ⟨fun l hl => (by cases hl), trivial⟩
    · exact ⟨lineOk_of_read hread, consistent_of_read hread⟩
  · rintro d e d' hd ⟨rfl, he⟩
    exact callerDocument_edit hd he

/-- Names and keys of the program's own writers are readable, so only the length
of a line is in question. -/
theorem lineReadable_iff (h : LineOk CallerSection IsCallerKey l) :
    LineReadable l ↔ physicalLength l < lineMax := by
  unfold LineReadable
  refine and_iff_left ?_
  intro hraw
  cases hcontent : l.content with
  | other => trivial
  | header =>
    obtain ⟨hname, -, htext⟩ := h.header hraw hcontent
    have hclean := hname.clean (fun c hc => by simpa using List.all_eq_true.mp htext c hc)
    obtain ⟨c, rest, hcons, hspace, hbracket⟩ := hclean.first
    have hread : readName l.sect = c :: readName rest := by
      simp [hcons, readName, hbracket]
    constructor
    · rw [hread]
      intro hnil
      have hall := trim_eq_nil_iff.mp hnil c List.mem_cons_self
      rw [hspace] at hall
      cases hall
    · have hlength : ∀ s : Text, (readName s).length ≤ s.length := by
        intro s
        induction s with
        | nil => exact le_refl _
        | cons c s ih =>
          unfold readName
          split
          · exact Nat.zero_le _
          · exact Nat.succ_le_succ ih
      calc (trim isSpace (readName l.sect)).length
          ≤ (readName l.sect).length := length_trim_le _ _
        _ ≤ l.sect.length := hlength l.sect
        _ < maxSection := hclean.short
  | entry key value =>
    have hkey := cleanKey_of_isCallerKey (h.entry hraw key value hcontent).1
    obtain ⟨c, rest, rfl, hbracket, -⟩ := hkey.first
    have hspace : isSpace c = false := by
      refine trim_head (p := isSpace) (l := c :: rest) ?_
      rw [hkey.trimmed]
      rfl
    simp only [KeyReadable]
    rw [List.dropWhile_cons_of_neg (by rw [hspace]; simp)]
    exact fun hc => absurd hc hbracket

/-- The published file is read again with the same answers. -/
def RoundTrips (d : Document) (bytes : Text) : Prop :=
  ∃ d', read false bytes = some d' ∧ ∀ sect key, get d' sect key = get d sect key

/-- The document fits the reader's limits, and no setting stands in a section whose
header closes early. -/
def SettingsReadable (d : Document) : Prop :=
  (d.map physicalCount).sum ≤ maxLines ∧ (∀ l ∈ d, physicalLength l < lineMax) ∧
    ∀ l ∈ d, ∀ key value, l.content = .entry key value → closesEarly l.sect = false

theorem readLines_of_read (h : read false bytes = some d) :
    readLines false [] (splitTerminated '\n' bytes) = some d := by
  unfold read at h
  simp only at h
  split at h
  · cases h
  · split at h
    · cases h
    · rename_i d' hread
      split at h
      · cases h
        exact hread
      · cases h

/-- The round trip of a document that a caller has made. -/
theorem roundTrips_iff_of_callerDocument (hd : CallerDocument d) (hwrite : write d = some bytes) :
    RoundTrips d bytes ↔ SettingsReadable d := by
  obtain ⟨hsplit, -, -⟩ := splitTerminated_write hd.lines hwrite
  have haccepted := accepted_iff_of_lineOk hd.lines hwrite
  have hfits : (∀ l ∈ d, LineReadable l) ↔ ∀ l ∈ d, physicalLength l < lineMax :=
    forall₂_congr (fun l hl => lineReadable_iff (hd.lines l hl))
  rw [hfits] at haccepted
  constructor
  · rintro ⟨d', hread, hget⟩
    obtain ⟨hcount, hshort⟩ := haccepted.mp ⟨d', hread⟩
    refine ⟨hcount, hshort, ?_⟩
    -- no section of the file that is read closes early, so such a setting is not found
    intro l hl key value hcontent
    have hsome := get_isSome_of_mem hl hcontent
    rw [← hget] at hsome
    obtain ⟨value', hvalue⟩ := Option.isSome_iff_exists.mp hsome
    unfold get at hvalue
    obtain ⟨l', hl', hfound⟩ := List.exists_of_findSome?_eq_some hvalue
    have hclean := closesEarly_of_readLines rfl (readLines_of_read hread) l'
      (List.mem_reverse.mp hl')
    unfold Line.valueFor at hfound
    split at hfound
    · split at hfound
      · rename_i hmatch
        rw [Bool.and_eq_true, sameNoCase_iff] at hmatch
        rw [closesEarly_of_sameNoCase hmatch.1]
        exact hclean
      · cases hfound
    · cases hfound
  · rintro ⟨hcount, hshort, hclean⟩
    obtain ⟨d', hread⟩ := haccepted.mpr ⟨hcount, hshort⟩
    have hlines := readLines_of_read hread
    rw [hsplit] at hlines
    have hentries := entries_readBack
      (fun name hname htext => hname.clean (fun c hc => by
        simpa using List.all_eq_true.mp htext c hc))
      (fun _ => cleanKey_of_isCallerKey) hd.lines hd.consistent hclean (fun _ => rfl) hlines
    refine ⟨d', hread, fun sect key => ?_⟩
    rw [get_eq_entries, get_eq_entries, hentries]

/-- Of every document that the program's own writers produce, all answers survive
exactly when the document fits the reader's limits and no setting stands in a
section whose header closes early. -/
theorem roundTrip_iff {d : Document}
    (hreach : Reachable (editSystem.restrict fun _ e => CallerEdit e) d) {bytes : Text}
    (hwrite : write d = some bytes) : RoundTrips d bytes ↔ SettingsReadable d :=
  roundTrips_iff_of_callerDocument (callerDocument_of_reachable hreach) hwrite

/-- An accepted file, and the settings of two image files stored in it. -/
def versionFile : Text := "[config]\nversion = 2\n".toList

def versionDocument : Document :=
  [⟨some "[config]\n".toList, "config".toList, .header, none⟩,
    ⟨some "version = 2\n".toList, "config".toList, .entry "version".toList "2".toList, none⟩]

theorem read_versionFile : read false versionFile = some versionDocument := by decide +kernel

/-- Storing the sector size of an image, as the program does. -/
def tuneImage (name : Text) : Edit :=
  .set ("image:".toList ++ name) "sector_size".toList (some "512".toList)

theorem tuneImage_reachable {name : Text}
    (hname : normalizeImageFilenameValue name = some name) :
    Reachable (editSystem.restrict fun _ e => CallerEdit e)
      (edit versionDocument (tuneImage name)) :=
  (Reachable.start (Or.inr ⟨versionFile, read_versionFile⟩)).step
    ⟨rfl, CallerSection.image hname, by decide +kernel⟩

/-- An image name with brackets keeps its setting. -/
theorem roundTrip_bracketed_image :
    ∃ bytes, write (edit versionDocument (tuneImage "Game [v1].exfat".toList)) = some bytes ∧
      RoundTrips (edit versionDocument (tuneImage "Game [v1].exfat".toList)) bytes := by
  have hwrite : write (edit versionDocument (tuneImage "Game [v1].exfat".toList)) =
      some "[config]\nversion = 2\n\n[image:Game [v1].exfat]\nsector_size = 512\n".toList := by
    decide +kernel
  have hlines : ∀ l ∈ edit versionDocument (tuneImage "Game [v1].exfat".toList),
      physicalLength l < lineMax ∧ closesEarly l.sect = false := by decide +kernel
  exact ⟨_, hwrite, (roundTrip_iff (tuneImage_reachable (by decide +kernel)) hwrite).mpr
    ⟨by decide +kernel, fun l hl => (hlines l hl).1, fun l hl _ _ _ => (hlines l hl).2⟩⟩

/-- An image name with a bracket and a comment character behind it loses its
setting. -/
theorem image_settings_lost :
    ¬∀ (d : Document) (bytes : Text),
      Reachable (editSystem.restrict fun _ e => CallerEdit e) d → write d = some bytes →
        RoundTrips d bytes := by
  intro hclaim
  have hwrite : write (edit versionDocument (tuneImage "a]#b.exfat".toList)) =
      some "[config]\nversion = 2\n\n[image:a]#b.exfat]\nsector_size = 512\n".toList := by
    decide +kernel
  obtain ⟨d', hread, hget⟩ := hclaim _ _ (tuneImage_reachable (by decide +kernel)) hwrite
  have hlost : (read false
      "[config]\nversion = 2\n\n[image:a]#b.exfat]\nsector_size = 512\n".toList).map
        (fun d => get d "image:a]#b.exfat".toList "sector_size".toList) = some none := by
    decide +kernel
  have hkept : get (edit versionDocument (tuneImage "a]#b.exfat".toList))
      "image:a]#b.exfat".toList "sector_size".toList = some "512".toList := by decide +kernel
  rw [hread, Option.map_some, hget, hkept] at hlost
  cases hlost

end ShadowMount.Ini
