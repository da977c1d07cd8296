import ShadowMount.Manual.Status
import ShadowMount.Manual.Update

/-!
# Writing and reading the status file

The status file has no way to write a tab or a newline as part of a field, and the reader strips
white space and slashes from the ends of every field.  Titles whose fields need neither are read
back as they were written, and no others are: an entry that was read has no separator in its
fields, so a list that comes back has none, and what the reader strips is not there.

Main results:

- Theorem {lit}`status_round_trip`: what the calls write is of that kind, and clean runs read what
  was written last.
- Theorem {lit}`noteInstalled_not_read_back`: a title whose entry changes on the way.
-/

namespace ShadowMount.Manual

open Foundation

variable {line t titleName titleId path content : Text} {size : Nat} {entries : List Entry}
  {files : Files}

theorem trimManualLine_eq_nil_iff : trimManualLine line = [] ↔ ∀ c ∈ line, isSpace c = true := by
  rw [← trim_eq_nil_iff]
  unfold trimManualLine stripSlashes
  cases trim isSpace line with
  | nil => simp
  | cons c rest => simp

theorem not_isSpace_of_head {line : Text} {c : Char} (h : (trimManualLine line).head? = some c) :
    isSpace c = false := by
  refine @trim_head _ isSpace line c ?_
  unfold trimManualLine stripSlashes at h
  cases hline : trim isSpace line with
  | nil =>
    rw [hline] at h
    cases h
  | cons d rest =>
    rw [hline] at h
    simpa using h

/-- A field that was stripped and cut has something left when it is stripped again. -/
theorem trimManualLine_strlcpy_ne_nil {size : Nat} {line : Text} (hsize : 2 ≤ size)
    (h : trimManualLine line ≠ []) : trimManualLine (strlcpy size (trimManualLine line)) ≠ [] := by
  intro hnil
  rw [trimManualLine_eq_nil_iff] at hnil
  cases hline : trimManualLine line with
  | nil => exact h hline
  | cons c rest =>
    have hspace := @not_isSpace_of_head line c (by rw [hline]; rfl)
    obtain ⟨size, rfl⟩ : ∃ n, size = n + 2 := ⟨size - 2, by omega⟩
    have hmem : c ∈ strlcpy (size + 2) (trimManualLine line) := by
      rw [hline]
      simp [strlcpy]
    rw [hnil c hmem] at hspace
    cases hspace

theorem mem_of_mem_strlcpy {c : Char} (h : c ∈ strlcpy size t) : c ∈ t :=
  List.mem_of_mem_take h

theorem length_strlcpy_lt (hsize : 0 < size) (t : Text) : (strlcpy size t).length < size := by
  have hlength := List.length_take_le (size - 1) t
  unfold strlcpy
  omega

/-- What the program promises of an entry that it writes: the fields are texts of its buffers. -/
structure Recorded (e : Entry) : Prop where
  status : e.status ≠ .unknown
  path : e.path ≠ []
  titleId : e.titleId ≠ []
  path_short : e.path.length < maxPath
  titleId_short : e.titleId.length < maxTitleId
  titleName_short : e.titleName.length < maxTitleName
  path_zero : '\x00' ∉ e.path
  titleId_zero : '\x00' ∉ e.titleId
  titleName_zero : '\x00' ∉ e.titleName

/-- The fields hold no separator that would end them early. -/
structure Plain (e : Entry) : Prop where
  path_tab : '\t' ∉ e.path
  titleId_tab : '\t' ∉ e.titleId
  path_newline : '\n' ∉ e.path
  titleId_newline : '\n' ∉ e.titleId
  titleName_newline : '\n' ∉ e.titleName

/-- The fields hold no separator, and nothing that the reader strips. -/
structure Clean (e : Entry) : Prop extends Plain e where
  path_trimmed : trimManualLine e.path = e.path
  titleId_trimmed : trimManualLine e.titleId = e.titleId
  titleName_trimmed : trimManualLine e.titleName = e.titleName

/-- Something is left of the fields that must not be empty. -/
structure Filled (e : Entry) : Prop where
  path : trimManualLine e.path ≠ []
  titleId : trimManualLine e.titleId ≠ []

/-- The entry as it is read back. -/
def reread (e : Entry) : Entry where
  path := strlcpy maxPath (trimManualLine e.path)
  titleId := strlcpy maxTitleId (trimManualLine e.titleId)
  titleName := strlcpy maxTitleName (trimManualLine e.titleName)
  status := e.status

variable {e : Entry}

theorem Clean.filled (h : Clean e) (hrec : Recorded e) : Filled e where
  path := by
    rw [h.path_trimmed]
    exact hrec.path
  titleId := by
    rw [h.titleId_trimmed]
    exact hrec.titleId

theorem strlcpy_trimManualLine (h : t.length < size) :
    strlcpy size (trimManualLine t) = trimManualLine t :=
  strlcpy_of_lt (Nat.lt_of_le_of_lt (length_trimManualLine_le t) h)

/-- Exactly the clean entries are read back as they were written. -/
theorem reread_eq_self_iff (hrec : Recorded e) (hplain : Plain e) : reread e = e ↔ Clean e := by
  have hpath := strlcpy_trimManualLine hrec.path_short
  have hid := strlcpy_trimManualLine hrec.titleId_short
  have hname := strlcpy_trimManualLine hrec.titleName_short
  constructor
  · intro heq
    have hfields := congrArg Entry.path heq
    have hfields' := congrArg Entry.titleId heq
    have hfields'' := congrArg Entry.titleName heq
    exact { hplain with
      path_trimmed := hpath.symm.trans hfields
      titleId_trimmed := hid.symm.trans hfields'
      titleName_trimmed := hname.symm.trans hfields'' }
  · intro hclean
    unfold reread
    rw [hpath, hid, hname, hclean.path_trimmed, hclean.titleId_trimmed, hclean.titleName_trimmed]

/-- The line without its newline. -/
def statusBody (e : Entry) : Text :=
  manualStatusName e.status ++ '\t' :: (e.titleId ++ '\t' :: (e.path ++ '\t' :: e.titleName))

theorem statusLine_of_recorded (h : Recorded e) : statusLine e = statusBody e ++ ['\n'] := by
  have hcond : (decide (e.status = .unknown) || decide (e.path = []) ||
      decide (e.titleId = [])) = false := by
    simp [h.status, h.path, h.titleId]
  unfold statusLine statusBody
  rw [if_neg (by rw [hcond]; decide)]
  simp

theorem length_manualStatusName_le (status : Status) : (manualStatusName status).length ≤ 9 := by
  cases status <;> decide

/-- A line of a recorded entry fits the buffer of the reader. -/
theorem length_statusBody_lt (h : Recorded e) : (statusBody e).length < statusLineSize - 1 := by
  have hname := length_manualStatusName_le e.status
  have hpath := h.path_short
  have hid := h.titleId_short
  have htitle := h.titleName_short
  simp only [statusBody, statusLineSize, List.length_append, List.length_cons, maxPath,
    maxTitleId, maxTitleName] at hpath hid htitle ⊢
  omega

theorem newline_notMem_statusBody (hplain : Plain e) : '\n' ∉ statusBody e := by
  have hname : '\n' ∉ manualStatusName e.status := by
    cases e.status <;> decide
  simp [statusBody, hname, hplain.titleId_newline, hplain.path_newline,
    hplain.titleName_newline]

theorem zero_notMem_statusBody (hrec : Recorded e) : '\x00' ∉ statusBody e := by
  have hname : '\x00' ∉ manualStatusName e.status := by
    cases e.status <;> decide
  simp [statusBody, hname, hrec.titleId_zero, hrec.path_zero, hrec.titleName_zero]

theorem cText_statusLine (hrec : Recorded e) : cText (statusLine e) = statusLine e := by
  refine cText_of_notMem ?_
  rw [statusLine_of_recorded hrec]
  simp [zero_notMem_statusBody hrec]

/-- A token ends at the first delimiter. -/
theorem strtok_of_head {delimiter : Char} {token rest : Text} (hne : token ≠ [])
    (hclean : delimiter ∉ token) :
    strtok delimiter (token ++ delimiter :: rest) = some (token, rest) := by
  cases token with
  | nil => exact absurd rfl hne
  | cons c token =>
    have hfirst : c ≠ delimiter := fun h => hclean (by simp [h])
    have hcut := @cut_append _ (fun d : Char => decide (d = delimiter)) (c :: token)
      (delimiter :: rest)
      (fun d hd => by
        rw [decide_eq_false_iff_not]
        rintro rfl
        exact hclean hd)
      (fun d hd => by
        cases hd
        simp)
    have hdrop : (c :: token ++ delimiter :: rest).dropWhile
        (fun d => decide (d = delimiter)) = c :: token ++ delimiter :: rest := by
      rw [List.cons_append, List.dropWhile_cons_of_neg (by simpa using hfirst)]
    unfold strtok
    rw [hdrop]
    rw [List.cons_append] at hcut ⊢
    dsimp only
    rw [hcut]
    rfl

theorem strtok_title (hclean : '\n' ∉ titleName) :
    ((strtok '\n' (titleName ++ ['\n'])).map Prod.fst).getD [] = titleName := by
  by_cases hnil : titleName = []
  · subst hnil
    decide
  · rw [strtok_of_head hnil hclean]
    rfl

theorem parseManualStatusName_name {status : Status} (h : status ≠ .unknown) :
    parseManualStatusName (trimManualLine (manualStatusName status)) = status := by
  cases status with
  | unknown => exact absurd rfl h
  | installed => decide +kernel
  | deleted => decide +kernel

/-- What is read of the line of an entry without separators. -/
theorem parse_statusLine (hrec : Recorded e) (hplain : Plain e) (hfilled : Filled e) :
    parseManualStatusLine (statusLine e) = some (reread e) := by
  have hname : manualStatusName e.status ≠ [] ∧ '\t' ∉ manualStatusName e.status := by
    cases e.status <;> decide
  have hcond : (decide (e.status = .unknown) || decide (trimManualLine e.titleId = []) ||
      decide (trimManualLine e.path = [])) = false := by
    simp [hrec.status, hfilled.titleId, hfilled.path]
  rw [statusLine_of_recorded hrec]
  unfold parseManualStatusLine statusBody
  simp only [List.append_assoc, List.cons_append]
  rw [strtok_of_head hname.1 hname.2]
  dsimp only
  rw [strtok_of_head hrec.titleId hplain.titleId_tab]
  dsimp only
  rw [strtok_of_head hrec.path hplain.path_tab]
  dsimp only
  rw [strtok_title hplain.titleName_newline, parseManualStatusName_name hrec.status]
  unfold makeEntry
  rw [if_neg (by rw [hcond]; decide)]
  rfl

/-- The text has a newline at its end at most. -/
def OneLine (t : Text) : Prop := ∀ front back, t = front ++ '\n' :: back → back = []

theorem OneLine.within {s : Text} (h : OneLine t) (hin : s <:+: t) : OneLine s := by
  obtain ⟨before, after, rfl⟩ := hin
  rintro front back rfl
  have hnil := h (before ++ front) (back ++ after) (by simp)
  exact (List.append_eq_nil_iff.mp hnil).1

theorem oneLine_chunk (limit : Nat) (content : Text) : OneLine (chunk '\n' limit content).1 := by
  intro front back h
  rcases chunk_shape '\n' limit content with ⟨body, hbody, hclean⟩ | ⟨hnone, -⟩
  · rw [hbody] at h
    cases hback : back.reverse with
    | nil => simpa using hback
    | cons c rest =>
      have hrev : back = rest.reverse ++ [c] := by
        rw [← List.reverse_reverse back, hback, List.reverse_cons]
      rw [hrev, ← List.cons_append, ← List.append_assoc] at h
      have hbody' := (List.append_inj' h rfl).1
      exact absurd (by rw [hbody']; simp) hclean
  · exact absurd (by rw [h]; simp) hnone

theorem OneLine.cText (h : OneLine t) : OneLine (cText t) := by
  have hsplit := cut_fst_append_snd (fun c : Char => decide (c = '\x00')) t
  exact h.within (List.IsPrefix.isInfix ⟨_, hsplit⟩)

theorem trim_within (p : Char → Bool) (t : Text) : trim p t <:+: t :=
  List.IsInfix.trans (List.IsPrefix.isInfix (List.rdropWhile_prefix p _))
    (List.IsSuffix.isInfix (List.dropWhile_suffix p))

theorem newline_notMem_trimManualLine (h : OneLine t) : '\n' ∉ trimManualLine t := by
  intro hmem
  obtain ⟨front, back, hsplit⟩ := List.append_of_mem (mem_of_mem_stripSlashes hmem)
  have hback := h.within (trim_within isSpace t) front back hsplit
  subst hback
  have hlast : (trim isSpace t).getLast? = some '\n' := by
    rw [hsplit, List.getLast?_concat]
  exact absurd (trim_last hlast) (by decide)

theorem strtok_within {delimiter : Char} {token rest : Text}
    (h : strtok delimiter line = some (token, rest)) :
    token <:+: line ∧ rest <:+: line ∧ delimiter ∉ token := by
  unfold strtok at h
  have hsuffix := List.dropWhile_suffix (l := line) (fun d : Char => decide (d = delimiter))
  cases hstart : line.dropWhile (fun d => decide (d = delimiter)) with
  | nil =>
    rw [hstart] at h
    cases h
  | cons c start =>
    rw [hstart] at h hsuffix
    have hsplit := cut_fst_append_snd (fun d : Char => decide (d = delimiter)) (c :: start)
    simp only [Option.some.injEq, Prod.mk.injEq] at h
    obtain ⟨rfl, rfl⟩ := h
    refine ⟨?_, ?_, fun hmem => ?_⟩
    · exact List.IsInfix.trans (List.IsPrefix.isInfix ⟨_, hsplit⟩) hsuffix.isInfix
    · refine List.IsInfix.trans ?_ hsuffix.isInfix
      exact List.IsInfix.trans (List.drop_suffix 1 _).isInfix
        (List.IsSuffix.isInfix ⟨_, hsplit⟩)
    · have hnot := not_of_mem_cut_fst hmem
      simp at hnot

/-- What is known of a line that was parsed. -/
theorem parse_inv (h : parseManualStatusLine line = some e) :
    ∃ status titleId path titleName,
      titleId <:+: line ∧ path <:+: line ∧ titleName <:+: line ∧
      '\t' ∉ titleId ∧ '\t' ∉ path ∧
      makeEntry status (trimManualLine titleId) (trimManualLine path)
        (trimManualLine titleName) = some e := by
  unfold parseManualStatusLine at h
  split at h
  · cases h
  · rename_i status line₁ hstatus
    split at h
    · cases h
    · rename_i titleId line₂ hid
      split at h
      · cases h
      · rename_i path line₃ hpath
        have hline₁ := (strtok_within hstatus).2.1
        have hline₂ := (strtok_within hid).2.1.trans hline₁
        have hline₃ := (strtok_within hpath).2.1.trans hline₂
        refine ⟨_, titleId, path, _, (strtok_within hid).1.trans hline₁,
          (strtok_within hpath).1.trans hline₂, ?_, (strtok_within hid).2.2,
          (strtok_within hpath).2.2, h⟩
        cases hname : strtok '\n' line₃ with
        | none => exact List.nil_infix
        | some result => exact (strtok_within hname).1.trans hline₃

/-- What a line makes an entry of. -/
theorem makeEntry_inv {status : Status} (h : makeEntry status titleId path titleName = some e) :
    status ≠ .unknown ∧ titleId ≠ [] ∧ path ≠ [] ∧
      e = ⟨strlcpy maxPath path, strlcpy maxTitleId titleId, strlcpy maxTitleName titleName,
        status⟩ := by
  unfold makeEntry at h
  split at h
  · cases h
  · rename_i hcond
    simp only [Bool.or_eq_true, decide_eq_true_eq, not_or] at hcond
    exact ⟨hcond.1.1, hcond.1.2, hcond.2, (Option.some.inj h).symm⟩

theorem ne_nil_of_trimManualLine (h : trimManualLine t ≠ []) : t ≠ [] := by
  rintro rfl
  exact h rfl

/-- What was read of a line: a recorded entry without separators, something of which is left when
it is stripped again. -/
theorem parse_loaded (hline : OneLine line) (hzero : '\x00' ∉ line)
    (h : parseManualStatusLine line = some e) : Recorded e ∧ Plain e ∧ Filled e := by
  obtain ⟨status, titleId, path, titleName, hid, hpath, hname, hidTab, hpathTab, hmake⟩ :=
    parse_inv h
  obtain ⟨hstatus, hidNil, hpathNil, rfl⟩ := makeEntry_inv hmake
  have hpathLeft := @trimManualLine_strlcpy_ne_nil maxPath path (by decide) hpathNil
  have hidLeft := @trimManualLine_strlcpy_ne_nil maxTitleId titleId (by decide) hidNil
  have hfield : ∀ {size : Nat} {c : Char} {t : Text}, c ∉ t →
      c ∉ strlcpy size (trimManualLine t) := fun hnot hmem =>
    hnot (mem_of_mem_trimManualLine (mem_of_mem_strlcpy hmem))
  have hnewline : ∀ {size : Nat} {t : Text}, t <:+: line →
      '\n' ∉ strlcpy size (trimManualLine t) := fun hin hmem =>
    newline_notMem_trimManualLine (hline.within hin) (mem_of_mem_strlcpy hmem)
  refine ⟨⟨hstatus, ne_nil_of_trimManualLine hpathLeft, ne_nil_of_trimManualLine hidLeft,
    length_strlcpy_lt (by decide) _, length_strlcpy_lt (by decide) _,
    length_strlcpy_lt (by decide) _, ?_, ?_, ?_⟩, ⟨?_, ?_, ?_, ?_, ?_⟩, hpathLeft, hidLeft⟩
  · exact hfield fun hmem => hzero (hpath.subset hmem)
  · exact hfield fun hmem => hzero (hid.subset hmem)
  · exact hfield fun hmem => hzero (hname.subset hmem)
  · exact hfield hpathTab
  · exact hfield hidTab
  · exact hnewline hpath
  · exact hnewline hid
  · exact hnewline hname

/-- Every loaded entry comes from a line. -/
theorem exists_line_of_mem_loadLines {lines : List Text} {count : Nat}
    (h : e ∈ loadLines lines count) :
    ∃ line ∈ lines, parseManualStatusLine (cText line) = some e := by
  induction lines generalizing count with
  | nil => cases h
  | cons line lines ih =>
    unfold loadLines at h
    split at h
    · cases h
    · split at h
      · obtain ⟨line', hmem, hline'⟩ := ih h
        exact ⟨line', List.mem_cons_of_mem _ hmem, hline'⟩
      · rename_i entry hentry
        rcases List.mem_cons.mp h with rfl | hrest
        · exact ⟨line, List.mem_cons_self, hentry⟩
        · obtain ⟨line', hmem, hline'⟩ := ih hrest
          exact ⟨line', List.mem_cons_of_mem _ hmem, hline'⟩

/-- The lines of a file, as the buffer holds them. -/
def statusLines (content : Text) : List Text := allTurns (chunk '\n' (statusLineSize - 1)) content

theorem shrinks_statusLine : Shrinks (chunk '\n' (statusLineSize - 1)) :=
  shrinks_chunk (by decide)

theorem statusLines_of_ne_nil (h : content ≠ []) :
    statusLines content = (chunk '\n' (statusLineSize - 1) content).1 ::
      statusLines (chunk '\n' (statusLineSize - 1) content).2 :=
  allTurns_of_ne_nil shrinks_statusLine h

/-- What the reader takes for a line is one. -/
theorem oneLine_of_mem_statusLines (h : line ∈ statusLines content) : OneLine line := by
  induction content using turns_induction shrinks_statusLine with
  | nil => cases h
  | turn content hne ih =>
    rw [statusLines_of_ne_nil hne] at h
    rcases List.mem_cons.mp h with rfl | hrest
    · exact oneLine_chunk _ _
    · exact ih hrest

/-- What was read of a file. -/
theorem loadLines_loaded {count : Nat} (h : e ∈ loadLines (statusLines content) count) :
    Recorded e ∧ Plain e ∧ Filled e := by
  obtain ⟨line, hline, hparse⟩ := exists_line_of_mem_loadLines h
  exact parse_loaded (oneLine_of_mem_statusLines hline).cText (zero_notMem_cText line) hparse

/-- A written line is read as one line. -/
theorem statusLines_statusLine (hrec : Recorded e) (hplain : Plain e) (more : Text) :
    statusLines (statusLine e ++ more) = statusLine e :: statusLines more := by
  have hchunk := chunk_stop (newline_notMem_statusBody hplain) (length_statusBody_lt hrec) more
  have hline : statusLine e ++ more = statusBody e ++ '\n' :: more := by
    rw [statusLine_of_recorded hrec]
    simp
  rw [hline, statusLines_of_ne_nil (by simp), hchunk, statusLine_of_recorded hrec]

/-- A list comes back exactly if all its entries are clean. -/
theorem loadLines_writeManualStatus {entries : List Entry} {count : Nat}
    (hrec : ∀ e ∈ entries, Recorded e) (hcount : count + entries.length ≤ statusCapacity) :
    loadLines (statusLines (writeManualStatus entries)) count = entries ↔
      ∀ e ∈ entries, Clean e := by
  induction entries generalizing count with
  | nil => simp [writeManualStatus, statusLines, allTurns, turns, loadLines]
  | cons e entries ih =>
    rw [List.length_cons] at hcount
    have hhead := hrec e List.mem_cons_self
    have hrest := @ih (count + 1) (fun e he => hrec e (List.mem_cons_of_mem _ he)) (by omega)
    -- Without separators, the first turn reads the first entry.
    have hread : Plain e → Filled e →
        loadLines (statusLines (writeManualStatus (e :: entries))) count =
          reread e :: loadLines (statusLines (writeManualStatus entries)) (count + 1) := by
      intro hplain hfilled
      have hsplit : writeManualStatus (e :: entries) =
          statusLine e ++ writeManualStatus entries := List.flatMap_cons
      rw [hsplit, statusLines_statusLine hhead hplain, loadLines, if_neg (by omega),
        cText_statusLine hhead, parse_statusLine hhead hplain hfilled]
    constructor
    · intro hload
      have hmem : e ∈ loadLines (statusLines (writeManualStatus (e :: entries))) count := by
        rw [hload]
        exact List.mem_cons_self
      obtain ⟨-, hplain, hfilled⟩ := loadLines_loaded hmem
      rw [hread hplain hfilled, List.cons.injEq] at hload
      have hclean := (reread_eq_self_iff hhead hplain).mp hload.1
      exact List.forall_mem_cons.mpr ⟨hclean, hrest.mp hload.2⟩
    · intro hclean
      obtain ⟨hclean, hothers⟩ := List.forall_mem_cons.mp hclean
      rw [hread hclean.toPlain (hclean.filled hhead), hrest.mpr hothers,
        (reread_eq_self_iff hhead hclean.toPlain).mpr hclean]

/-- An entry noted is one that the file can hold. -/
theorem noteEntry_recorded {old : Entry} (hold : Recorded old ∨ old = .zero)
    (hpath : cText path ≠ []) (hid : cText titleId ≠ []) :
    Recorded (noteEntry old (cText path) (cText titleId) (cText titleName)) := by
  have hzero : ∀ {size : Nat} {t : Text}, '\x00' ∉ strlcpy size (cText t) := fun hmem =>
    zero_notMem_cText _ (mem_of_mem_strlcpy hmem)
  have hne : ∀ {size : Nat} {t : Text}, 2 ≤ size → t ≠ [] → strlcpy size t ≠ [] := by
    intro size t hsize ht hnil
    unfold strlcpy at hnil
    rw [List.take_eq_nil_iff] at hnil
    rcases hnil with hsize' | hnil
    · omega
    · exact ht hnil
  have hold' : old.titleName.length < maxTitleName ∧ '\x00' ∉ old.titleName := by
    rcases hold with hrec | rfl
    · exact ⟨hrec.titleName_short, hrec.titleName_zero⟩
    · decide
  constructor
  case status => exact nofun
  case path => exact hne (by decide) hpath
  case titleId => exact hne (by decide) hid
  case path_short => exact length_strlcpy_lt (by decide) _
  case titleId_short => exact length_strlcpy_lt (by decide) _
  case titleName_short =>
    unfold noteEntry
    dsimp only
    split
    · exact hold'.1
    · exact length_strlcpy_lt (by decide) _
  case path_zero => exact hzero
  case titleId_zero => exact hzero
  case titleName_zero =>
    unfold noteEntry
    dsimp only
    split
    · exact hold'.2
    · exact hzero

/-- A noted entry is clean if its fields are. -/
theorem noteEntry_clean {old : Entry} (hold : Clean old ∨ old = .zero)
    (h : Clean (noteEntry .zero path titleId titleName)) :
    Clean (noteEntry old path titleId titleName) := by
  by_cases hname : titleName = []
  · rcases hold with hclean | rfl
    · subst hname
      exact { h with
        titleName_newline := hclean.titleName_newline
        titleName_trimmed := hclean.titleName_trimmed }
    · exact h
  · have hsame : noteEntry old path titleId titleName =
        noteEntry .zero path titleId titleName := by
      unfold noteEntry
      rw [if_neg hname, if_neg hname]
    rw [hsame]
    exact h

theorem Recorded.delete (h : Recorded e) : Recorded { e with status := .deleted } :=
  { h with status := nofun }

theorem Clean.delete (h : Clean e) : Clean { e with status := .deleted } :=
  ⟨⟨h.path_tab, h.titleId_tab, h.path_newline, h.titleId_newline, h.titleName_newline⟩,
    h.path_trimmed, h.titleId_trimmed, h.titleName_trimmed⟩

theorem length_loadLines_le (lines : List Text) (count : Nat) :
    (loadLines lines count).length ≤ statusCapacity - count := by
  induction lines generalizing count with
  | nil => exact Nat.zero_le _
  | cons line lines ih =>
    unfold loadLines
    split
    · exact Nat.zero_le _
    · rename_i hroom
      split
      · exact ih count
      · have hrest := ih (count + 1)
        rw [List.length_cons]
        omega

/-- Every loaded entry is a recorded one. -/
theorem loadManualStatus_loaded {file : Option Text} (h : e ∈ loadManualStatus file) :
    Recorded e := by
  cases file with
  | none => cases h
  | some content => exact (loadLines_loaded h).1

theorem length_loadManualStatus_le (file : Option Text) :
    (loadManualStatus file).length ≤ statusCapacity := by
  cases file with
  | none => exact Nat.zero_le _
  | some content => exact length_loadLines_le _ 0

/-- An entry of the new list is an old one or the noted one. -/
theorem noteEntries_inv {entries' : List Entry}
    (h : noteEntries entries path titleId titleName = some entries')
    (hroom : entries.length ≤ statusCapacity) :
    entries'.length ≤ statusCapacity ∧
      ∀ e ∈ entries', e ∈ entries ∨
        ∃ old, (old ∈ entries ∨ old = .zero) ∧ e = noteEntry old path titleId titleName := by
  unfold noteEntries at h
  split at h
  · rename_i i hfound
    dsimp only at h
    split at h
    · cases h
    · cases h
      refine ⟨by rwa [List.length_set], fun e he => ?_⟩
      rcases List.mem_or_eq_of_mem_set he with hmem | rfl
      · exact .inl hmem
      · refine .inr ⟨_, ?_, rfl⟩
        rw [List.getD_eq_getElem?_getD]
        cases hget : entries[i]? with
        | none => exact .inr rfl
        | some old => exact .inl (List.mem_of_getElem? hget)
  · split at h
    · cases h
    · rename_i hfull
      cases h
      refine ⟨by rw [List.length_append, List.length_singleton]; omega, fun e he => ?_⟩
      rcases List.mem_append.mp he with hmem | hnew
      · exact .inl hmem
      · exact .inr ⟨.zero, .inr rfl, List.mem_singleton.mp hnew⟩

theorem reconcileEntry_fst (titles : List Text) (e : Entry) :
    (reconcileEntry titles e).1 = e ∨
      (reconcileEntry titles e).1 = { e with status := .deleted } := by
  unfold reconcileEntry
  split
  · exact .inl rfl
  · exact .inr rfl

/-- What a call does to the status file. -/
inductive Written (call : StatusCall) (files files' : Files) : Option (List Entry) → Prop where
  /-- The file is left alone. -/
  | nothing (same : files'.status = files.status) : Written call files files' none
  /-- The file holds these entries. -/
  | entries (entries : List Entry)
      (content : files'.status = some (writeManualStatus entries))
      (length : entries.length ≤ statusCapacity)
      (origin : ∀ e ∈ entries, ∃ old,
        (old ∈ loadManualStatus files.status ∧ (e = old ∨ e = { old with status := .deleted })) ∨
        ((old ∈ loadManualStatus files.status ∨ old = .zero) ∧ ∃ path titleId titleName,
          call = .note path titleId titleName ∧ cText path ≠ [] ∧ cText titleId ≠ [] ∧
            e = noteEntry old (cText path) (cText titleId) (cText titleName))) :
      Written call files files' (some entries)

/-- What a call writes. -/
theorem step_written (call : StatusCall) (writeFails : Bool) (files : Files) :
    Written call files (call.step writeFails files).1 (call.step writeFails files).2 := by
  have hlength := length_loadManualStatus_le files.status
  cases call with
  | note path titleId titleName =>
    unfold StatusCall.step noteInstalled
    dsimp only
    split
    · exact .nothing rfl
    · rename_i hnonempty
      simp only [Bool.or_eq_true, decide_eq_true_eq, not_or] at hnonempty
      split
      · exact .nothing rfl
      · rename_i entries hnote
        obtain ⟨hroom, horigin⟩ := noteEntries_inv hnote hlength
        split
        · exact .nothing rfl
        · refine .entries entries rfl hroom fun e he => ?_
          rcases horigin e he with hold | ⟨old, hold, rfl⟩
          · exact ⟨e, .inl ⟨hold, .inl rfl⟩⟩
          · exact ⟨old, .inr ⟨hold, path, titleId, titleName, rfl, hnonempty.1,
              hnonempty.2, rfl⟩⟩
  | reconcile f titles =>
    unfold StatusCall.step reconcileDeletedTitles
    dsimp only
    split
    · exact .nothing rfl
    · rename_i titles
      split
      · exact .nothing rfl
      · split
        · exact .nothing rfl
        · split
          · exact .nothing rfl
          · refine .entries _ rfl (by simpa using hlength) fun e he => ?_
            simp only [List.map_map, List.mem_map, Function.comp_apply] at he
            obtain ⟨old, hold, rfl⟩ := he
            exact ⟨old, .inl ⟨hold, reconcileEntry_fst titles old⟩⟩

/-- What was written is in the file, and recorded. -/
theorem Written.recorded {call : StatusCall} {files' : Files}
    (h : Written call files files' (some entries)) :
    files'.status = some (writeManualStatus entries) ∧ entries.length ≤ statusCapacity ∧
      ∀ e ∈ entries, Recorded e := by
  cases h with
  | entries _ hcontent hlength horigin =>
    refine ⟨hcontent, hlength, fun e he => ?_⟩
    obtain ⟨old, ⟨hold, rfl | rfl⟩ | ⟨hold, path, titleId, titleName, -, hpath, hid, rfl⟩⟩ :=
      horigin e he
    · exact loadManualStatus_loaded hold
    · exact (loadManualStatus_loaded hold).delete
    · exact noteEntry_recorded (hold.imp_left loadManualStatus_loaded) hpath hid

/-- The fields that the call records are clean, once they are cut to their buffers. -/
def StatusCall.IsClean : StatusCall → Prop
  | .note path titleId titleName =>
    Clean (noteEntry .zero (cText path) (cText titleId) (cText titleName))
  | .reconcile _ _ => True

theorem Written.clean {call : StatusCall} {files' : Files}
    (h : Written call files files' (some entries)) (hcall : call.IsClean)
    (hfile : ∀ e ∈ loadManualStatus files.status, Clean e) : ∀ e ∈ entries, Clean e := by
  cases h with
  | entries _ hcontent hlength horigin =>
    intro e he
    obtain ⟨old, ⟨hold, rfl | rfl⟩ | ⟨hold, path, titleId, titleName, rfl, -, -, rfl⟩⟩ :=
      horigin e he
    · exact hfile e hold
    · exact (hfile old hold).delete
    · exact noteEntry_clean (hold.imp_left (hfile old)) hcall

/-- A written list is read back when its entries are clean. -/
theorem loadManualStatus_writeManualStatus (hrec : ∀ e ∈ entries, Recorded e)
    (hlength : entries.length ≤ statusCapacity) :
    loadManualStatus (some (writeManualStatus entries)) = entries ↔ ∀ e ∈ entries, Clean e :=
  @loadLines_writeManualStatus entries 0 hrec (by omega)

/-- A run of clean calls is read back. -/
theorem runStatus_read_back {run : List (StatusCall × Bool)} {last : List Entry}
    (hlast : loadManualStatus files.status = last) (hclean : ∀ e ∈ last, Clean e)
    (hrun : ∀ call ∈ run, call.1.IsClean) :
    loadManualStatus (runStatus run files last).1.status = (runStatus run files last).2 := by
  induction run generalizing files last with
  | nil => exact hlast
  | cons call run ih =>
    obtain ⟨hcall, hrest⟩ := List.forall_mem_cons.mp hrun
    have hwritten := step_written call.1 call.2 files
    subst hlast
    unfold runStatus
    dsimp only
    cases hresult : (call.1.step call.2 files).2 with
    | none =>
      rw [hresult] at hwritten
      cases hwritten with
      | nothing hsame => exact ih (congrArg loadManualStatus hsame) hclean hrest
    | some entries =>
      rw [hresult] at hwritten
      obtain ⟨hcontent, hlength, hrec⟩ := hwritten.recorded
      have hclean' := hwritten.clean hcall hclean
      refine ih ?_ hclean' hrest
      rw [hcontent]
      exact (loadManualStatus_writeManualStatus hrec hlength).mpr hclean'

/-- The status file and the entries that were recorded.  A list of recorded entries is read back
as it was written exactly if all its entries are clean; all lists that the calls write are such
lists; and after calls that record clean titles, beside clean entries, the file is read as the
list that was written last. -/
theorem status_round_trip (entries : List Entry) :
    ((∀ e ∈ entries, Recorded e) → entries.length ≤ statusCapacity →
      (loadManualStatus (some (writeManualStatus entries)) = entries ↔ ∀ e ∈ entries, Clean e)) ∧
    (∀ (call : StatusCall) (writeFails : Bool) (files files' : Files) (entries : List Entry),
      call.step writeFails files = (files', some entries) →
      (∀ e ∈ entries, Recorded e) ∧ entries.length ≤ statusCapacity ∧
        (loadManualStatus files'.status = entries ↔ ∀ e ∈ entries, Clean e)) ∧
    (∀ (run : List (StatusCall × Bool)) (files : Files),
      (∀ e ∈ loadManualStatus files.status, Clean e) → (∀ call ∈ run, call.1.IsClean) →
      loadManualStatus (runStatus run files (loadManualStatus files.status)).1.status =
        (runStatus run files (loadManualStatus files.status)).2) := by
  refine ⟨loadManualStatus_writeManualStatus, ?_, ?_⟩
  · intro call writeFails files files' entries hstep
    have hwritten := step_written call writeFails files
    rw [hstep] at hwritten
    obtain ⟨hcontent, hlength, hrec⟩ := hwritten.recorded
    refine ⟨hrec, hlength, ?_⟩
    rw [hcontent]
    exact loadManualStatus_writeManualStatus hrec hlength
  · exact fun run files hclean hrun => runStatus_read_back rfl hclean hrun

/-- A path of the manual list with a tab is read up to the tab, and a title name that ends in a
blank without the blank. -/
theorem noteInstalled_not_read_back :
    let tab : Entry := ⟨"/data/a\tb".toList, "CUSA00001".toList, "Game".toList, .installed⟩
    let blank : Entry := ⟨"/data/a".toList, "CUSA00001".toList, "Game ".toList, .installed⟩
    let recorded (e : Entry) := noteInstalled false e.path e.titleId e.titleName ⟨none, none⟩
    visited (tab.path ++ ['\n']) = [tab.path] ∧ visited (blank.path ++ ['\n']) = [blank.path] ∧
      (recorded tab).2 = some [tab] ∧
      loadManualStatus (recorded tab).1.status =
        [⟨"/data/a".toList, "CUSA00001".toList, "b\tGame".toList, .installed⟩] ∧
      (recorded blank).2 = some [blank] ∧
      loadManualStatus (recorded blank).1.status =
        [⟨"/data/a".toList, "CUSA00001".toList, "Game".toList, .installed⟩] := by
  decide +kernel

end ShadowMount.Manual
