import ShadowMount.Manual.Pieces

/-!
# The manual list as a set

What an update of the manual list does to the paths that the visitor finds.  A path that was
added is found again only if it is written as it will be read: a path whose normal form ends in
white space, as that of a path with a blank before its last slash does, is read without the
white space.  A zero byte in the buffer of a line that is kept cuts the line.

Main results:

- Theorem {lit}`manualList_set`: a failed update leaves the file alone, and a successful one
  changes the set of paths as it should exactly under the conditions {lit}`AddClean` and
  {lit}`RemoveClean`.
- Theorem {lit}`addPath_not_found`: a path that is added and not found.
-/

namespace ShadowMount.Manual

open Foundation

variable {line content : Text} {add : Bool} {probe : Probe}

theorem mem_of_mem_stripSlashes {c : Char} (h : c ∈ stripSlashes line) : c ∈ line := by
  unfold stripSlashes at h
  rcases List.mem_append.mp h with hfront | hback
  · exact List.mem_of_mem_take hfront
  · exact List.mem_of_mem_drop ((List.rdropWhile_prefix _ _).subset hback)

theorem mem_of_mem_trimManualLine {c : Char} (h : c ∈ trimManualLine line) : c ∈ line :=
  mem_of_mem_trim (mem_of_mem_stripSlashes h)

theorem length_stripSlashes_le (line : Text) : (stripSlashes line).length ≤ line.length := by
  have hback := (List.rdropWhile_prefix (fun c : Char => decide (c = '/')) (line.drop 1)).length_le
  unfold stripSlashes
  rw [List.length_append, List.length_take]
  rw [List.length_drop] at hback
  omega

theorem length_trimManualLine_le (line : Text) : (trimManualLine line).length ≤ line.length :=
  Nat.le_trans (length_stripSlashes_le _) (length_trim_le _ _)

theorem getLast_stripSlashes (h : 2 ≤ (stripSlashes line).length) :
    (stripSlashes line).getLast? ≠ some '/' := by
  unfold stripSlashes at h ⊢
  have hback : (line.drop 1).rdropWhile (fun c : Char => decide (c = '/')) ≠ [] := by
    intro hnil
    rw [hnil, List.append_nil, List.length_take] at h
    omega
  rw [List.getLast?_append_of_ne_nil _ hback]
  intro hlast
  have hnot := List.rdropWhile_last_not (fun c : Char => decide (c = '/')) (line.drop 1) hback
  rw [List.getLast?_eq_some_getLast hback, Option.some.injEq] at hlast
  rw [hlast] at hnot
  simp at hnot

theorem stripSlashes_eq_self (h : line.getLast? ≠ some '/') : stripSlashes line = line := by
  unfold stripSlashes
  have hdrop : (line.drop 1).rdropWhile (fun c : Char => decide (c = '/')) = line.drop 1 := by
    rw [List.rdropWhile_eq_self_iff]
    intro hne hslash
    refine h ?_
    have hlast : line.getLast? = (line.drop 1).getLast? := by
      conv_lhs => rw [← List.take_append_drop 1 line, List.getLast?_append_of_ne_nil _ hne]
    rw [hlast, List.getLast?_eq_some_getLast hne]
    simpa using hslash
  rw [hdrop, List.take_append_drop]

/-- What the normalization promises of its result. -/
structure Normal (path : Text) : Prop where
  head : path.head? = some '/'
  long : 2 ≤ path.length
  short : path.length < maxPath
  newline : '\n' ∉ path
  zero : '\x00' ∉ path
  slash : path.getLast? ≠ some '/'

theorem normal_of_normalizePath {path norm : Text} (h : normalizePath path = some norm) :
    Normal norm := by
  unfold normalizePath at h
  dsimp only at h
  split at h
  · cases h
  · rename_i hshort
    split at h
    · cases h
    · rename_i hclean
      split at h
      · rename_i hout
        cases h
        simp only [Bool.or_eq_true, decide_eq_true_eq, not_or] at hclean
        simp only [Bool.and_eq_true, decide_eq_true_eq] at hout
        exact ⟨hout.1, hout.2,
          Nat.lt_of_le_of_lt (length_trimManualLine_le _) (Nat.lt_of_not_le hshort),
          fun hmem => hclean.2 (mem_of_mem_trimManualLine hmem),
          fun hmem => zero_notMem_cText _ (mem_of_mem_trimManualLine hmem),
          getLast_stripSlashes hout.2⟩
      · cases h

/-- Does the path end in white space? -/
def EndsInSpace (path : Text) : Prop := ∃ c ∈ path.getLast?, isSpace c = true

theorem trimManualLine_eq_self_iff {norm : Text} (h : Normal norm) :
    trimManualLine norm = norm ↔ ¬ EndsInSpace norm := by
  constructor
  · rintro heq ⟨c, hc, hspace⟩
    obtain ⟨front, rfl⟩ := List.getLast?_eq_some_iff.mp hc
    have hdropped : trim isSpace (front ++ [c]) = trim isSpace front := by
      refine trim_append_right (fun a ha => ?_) front
      rw [List.mem_singleton.mp ha]
      exact hspace
    have hlength : (trimManualLine (front ++ [c])).length ≤ front.length := by
      unfold trimManualLine
      rw [hdropped]
      exact Nat.le_trans (length_stripSlashes_le _) (length_trim_le _ _)
    rw [heq, List.length_append, List.length_singleton] at hlength
    omega
  · intro hend
    have htrim : trim isSpace norm = norm := by
      refine trim_eq_self (fun c hc => ?_) (fun c hc => ?_)
      · rw [h.head] at hc
        cases hc
        decide
      · by_contra hspace
        exact hend ⟨c, hc, by simpa using hspace⟩
    unfold trimManualLine
    rw [htrim, stripSlashes_eq_self h.slash]

theorem head_trimManualLine {norm : Text} (h : norm.head? = some '/') :
    (trimManualLine norm).head? = some '/' := by
  cases norm with
  | nil => cases h
  | cons c norm =>
    cases h
    have hfront : trim isSpace ('/' :: norm) = ('/' :: norm).rdropWhile isSpace := by
      unfold trim
      rw [List.dropWhile_cons_of_neg (by decide)]
    have hne : ('/' :: norm).rdropWhile isSpace ≠ [] := by
      intro hnil
      have hall := List.rdropWhile_eq_nil_iff.mp hnil '/' List.mem_cons_self
      exact absurd hall (by decide)
    have hhead : (('/' :: norm).rdropWhile isSpace).head? = some '/' := by
      obtain ⟨back, hback⟩ := List.rdropWhile_prefix isSpace ('/' :: norm)
      have hwhole := congrArg List.head? hback
      rw [List.head?_append_of_ne_nil _ hne] at hwhole
      exact hwhole
    unfold trimManualLine stripSlashes
    rw [hfront]
    cases hline : ('/' :: norm).rdropWhile isSpace with
    | nil => exact absurd hline hne
    | cons d line =>
      rw [hline] at hhead
      simpa using hhead

/-- The bytes of a list that may not exist. -/
def contentOf (file : Option Text) : Text := file.getD []

theorem holds_iff {path : Text} (h : path.length < maxPath) (p : Piece) :
    holds path p = true ↔ visitOf p = some path := by
  unfold holds visitOf
  simp only [Bool.and_eq_true, Bool.not_eq_true', decide_eq_true_eq, ne_eq, Bool.or_eq_true]
  constructor
  · rintro ⟨⟨⟨htruncated, hne⟩, hhead⟩, hpath⟩
    rw [if_neg (by simp [hne, hhead]), if_neg (by simp [htruncated, hpath, h]), hpath]
  · intro hvisit
    split at hvisit
    · cases hvisit
    · rename_i hline
      split at hvisit
      · cases hvisit
      · rename_i hfits
        simp only [not_or] at hline
        simp only [not_or, Bool.not_eq_true] at hfits
        exact ⟨⟨⟨hfits.1, hline.1⟩, hline.2⟩, Option.some.inj hvisit⟩

theorem any_holds_iff {path : Text} (h : path.length < maxPath) (content : Text) :
    (pieces content).any (holds path) = true ↔ path ∈ visited content := by
  unfold visited
  rw [List.any_eq_true, List.mem_filterMap]
  exact exists_congr fun p => and_congr .rfl (holds_iff h p)

theorem visited_line {norm : Text} (h : Normal norm) :
    visited (norm ++ ['\n']) = [trimManualLine norm] := by
  have hshort : norm.length < lineSize - 1 :=
    Nat.lt_trans h.short (by decide)
  have hhead := head_trimManualLine h.head
  have hne : trimManualLine norm ≠ [] := by
    intro hnil
    rw [hnil] at hhead
    cases hhead
  have hlength := Nat.lt_of_le_of_lt (length_trimManualLine_le norm) h.short
  have hvisit : visitOf ⟨norm ++ ['\n'], []⟩ = some (trimManualLine norm) := by
    rw [(@visitOf_newline norm [] [] hshort).1]
    have hfits : truncated norm = false := by
      simp only [truncated, Bool.and_eq_false_iff, decide_eq_false_iff_not,
        cText_of_notMem h.zero]
      right
      omega
    unfold visitOf
    dsimp only
    rw [cText_of_notMem h.zero, if_neg (by simp [hne, hhead]), if_neg (by simp [hfits, hlength])]
  unfold visited
  rw [pieces_line h.newline hshort, List.filterMap_cons, hvisit]
  rfl

theorem written_eq_bytes {p : Piece} (h : '\x00' ∉ p.line) : written p = p.bytes := by
  unfold written Piece.bytes
  rw [cText_of_notMem h]

theorem flatMap_written {ps : List Piece} (h : ∀ p ∈ ps, '\x00' ∉ p.line) :
    ps.flatMap written = ps.flatMap Piece.bytes := by
  induction ps with
  | nil => rfl
  | cons p ps ih =>
    rw [List.flatMap_cons, List.flatMap_cons, written_eq_bytes (h p List.mem_cons_self),
      ih fun q hq => h q (List.mem_cons_of_mem _ hq)]

theorem count_written (ps : List Piece) :
    (ps.flatMap written).count '\x00' + (ps.map fun p => p.line.count '\x00').sum =
      (ps.flatMap Piece.bytes).count '\x00' := by
  induction ps with
  | nil => rfl
  | cons p ps ih =>
    have htext : (cText p.line).count '\x00' = 0 :=
      List.count_eq_zero.mpr (zero_notMem_cText p.line)
    simp only [List.flatMap_cons, List.count_append, List.map_cons, List.sum_cons, written,
      Piece.bytes, htext]
    omega

theorem zero_notMem_of_count {ps : List Piece}
    (h : (ps.flatMap Piece.bytes).count '\x00' ≤ (ps.flatMap written).count '\x00') :
    ∀ p ∈ ps, '\x00' ∉ p.line := by
  intro p hp
  have hcount := count_written ps
  have hsum : (ps.map fun p => p.line.count '\x00').sum = 0 := by omega
  exact List.count_eq_zero.mp
    (List.sum_eq_zero_iff_forall_eq_nat.mp hsum _ (List.mem_map_of_mem hp))

/-- The path was added. -/
structure Added (norm : Text) (file file' : Option Text) : Prop where
  visited : ∀ path, path ∈ visited (contentOf file') ↔
    path ∈ visited (contentOf file) ∨ path = norm
  /-- The bytes of the list are kept, and what is added begins a line. -/
  kept : ∃ tail, contentOf file' = contentOf file ++ tail ∧
    (tail = [] ∨ contentOf file = [] ∨ (contentOf file).getLast? = some '\n' ∨
      tail.head? = some '\n')
  idempotent : ∀ f path, normalizePath path = some norm → (addPath f path file').file = file'

/-- The path was removed. -/
structure Removed (norm : Text) (file file' : Option Text) : Prop where
  visited : ∀ path, path ∈ visited (contentOf file') ↔
    path ∈ visited (contentOf file) ∧ path ≠ norm
  /-- The bytes of the other lines are kept. -/
  kept : contentOf file' =
    ((pieces (contentOf file)).filter fun p => !holds norm p).flatMap Piece.bytes
  idempotent : ∀ f path, normalizePath path = some norm → (removePath f path file').file = file'

/-- The path is there already; or no line buffer holds a zero byte, the normal path does not end
in white space, and the end of a list without final newline is looked at. -/
def AddClean (probe : Probe) (norm content : Text) : Prop :=
  norm ∈ visited content ∨
    (∀ p ∈ pieces content, '\x00' ∉ p.line) ∧ ¬ EndsInSpace norm ∧
      (probe = .lost → content = [] ∨ content.getLast? = some '\n')

/-- The path is not there; or no buffer of another line holds a zero byte. -/
def RemoveClean (norm content : Text) : Prop :=
  norm ∉ visited content ∨ ∀ p ∈ pieces content, holds norm p = false → '\x00' ∉ p.line

variable {f : Faults} {path norm : Text} {file : Option Text}

theorem file_of_not_ok (h : (updateManualList f add path file).ok = false) :
    (updateManualList f add path file).file = file := by
  unfold updateManualList at h ⊢
  dsimp only at h ⊢
  split at h
  · rfl
  · split at h
    · rename_i hopen
      rw [if_pos hopen]
    · rename_i hopen
      rw [if_neg hopen]
      split at h
      · rename_i hcreate
        rw [if_pos hcreate]
      · rename_i hcreate
        rw [if_neg hcreate]
        split at h
        · rename_i hcopy
          rw [if_pos hcopy]
        · rename_i hcopy
          rw [if_neg hcopy]
          split at h
          · cases h
          · rename_i hchanged
            rw [if_neg hchanged]
            split at h
            · rename_i hrename
              rw [if_pos hrename]
            · cases h

/-- What a successful update has written. -/
theorem file_of_ok (hnorm : normalizePath path = some norm)
    (h : (updateManualList f add path file).ok = true) :
    ((if add then norm ∈ visited (contentOf file) else norm ∉ visited (contentOf file)) ∧
        (updateManualList f add path file).file = file) ∨
      ((if add then norm ∉ visited (contentOf file) else norm ∈ visited (contentOf file)) ∧
        (updateManualList f add path file).file =
          some (updatedList f.probe add norm (contentOf file))) := by
  have hfound := any_holds_iff (normal_of_normalizePath hnorm).short (contentOf file)
  unfold updateManualList at h ⊢
  rw [hnorm] at h ⊢
  dsimp only at h ⊢
  have hcontent : file.getD [] = contentOf file := rfl
  rw [hcontent] at h ⊢
  split at h
  · cases h
  · rename_i hopen
    split at h
    · cases h
    · rename_i hcreate
      split at h
      · cases h
      · rename_i hcopy
        rw [if_neg hopen, if_neg hcreate, if_neg hcopy]
        split at h
        · rename_i hsame
          rw [if_pos hsame]
          refine .inl ⟨?_, rfl⟩
          cases add with
          | true => exact hfound.mp hsame
          | false =>
            intro hmem
            rw [hfound.mpr hmem] at hsame
            cases hsame
        · rename_i hchanged
          split at h
          · cases h
          · rename_i hrename
            rw [if_neg hchanged, if_neg hrename]
            refine .inr ⟨?_, rfl⟩
            cases add with
            | true => exact fun hmem => hchanged (hfound.mpr hmem)
            | false =>
              by_contra hmem
              refine hchanged ?_
              unfold settled
              rw [if_neg (by decide), Bool.not_eq_true', ← Bool.not_eq_true, hfound]
              exact hmem

theorem file_of_settled (hnorm : normalizePath path = some norm)
    (h : if add then norm ∈ visited (contentOf file) else norm ∉ visited (contentOf file)) :
    (updateManualList f add path file).file = file := by
  cases hok : (updateManualList f add path file).ok with
  | false => exact file_of_not_ok hok
  | true =>
    rcases file_of_ok hnorm hok with ⟨-, hfile⟩ | ⟨hother, -⟩
    · exact hfile
    · cases add with
      | true => exact absurd h hother
      | false => exact absurd hother h

theorem updatedList_add (hnew : norm ∉ visited content) (hshort : norm.length < maxPath) :
    updatedList probe true norm content = (pieces content).flatMap written ++
      ((if needsSeparator probe content then ['\n'] else []) ++ (norm ++ ['\n'])) := by
  have hfound : (pieces content).any (holds norm) = false := by
    rw [← Bool.not_eq_true, any_holds_iff hshort]
    exact hnew
  unfold updatedList
  rw [hfound]
  simp

theorem needsSeparator_of_open
    (hprobe : probe = .lost → content = [] ∨ content.getLast? = some '\n')
    (hopen : ¬(content = [] ∨ content.getLast? = some '\n')) :
    needsSeparator probe content = true := by
  have hne : content ≠ [] := fun h => hopen (.inl h)
  have hlast : content.getLast? ≠ some '\n' := fun h => hopen (.inr h)
  cases probe with
  | read => simp [needsSeparator, hne, hlast]
  | lost => exact absurd (hprobe rfl) hopen
  | unread => simp [needsSeparator, hne]

/-- The list up to the line that is added is empty or ends in a newline, and has the old
paths. -/
theorem separated (hprobe : probe = .lost → content = [] ∨ content.getLast? = some '\n') :
    let front := content ++ if needsSeparator probe content then ['\n'] else []
    (front = [] ∨ front.getLast? = some '\n') ∧ visited front = visited content := by
  dsimp only
  have hblank : visited ['\n'] = [] := by decide +kernel
  by_cases hend : content = [] ∨ content.getLast? = some '\n'
  · split
    · refine ⟨.inr (by rw [List.getLast?_concat]), ?_⟩
      rw [visited_append hend, hblank, List.append_nil]
    · rw [List.append_nil]
      exact ⟨hend, rfl⟩
  · have hlast : content.getLast? ≠ some '\n' := fun h => hend (.inr h)
    rw [if_pos (needsSeparator_of_open hprobe hend)]
    exact ⟨.inr List.getLast?_concat, visited_append_newline hlast⟩

theorem visited_added (hnorm : Normal norm)
    (hprobe : probe = .lost → content = [] ∨ content.getLast? = some '\n') :
    visited (content ++ ((if needsSeparator probe content then ['\n'] else []) ++
      (norm ++ ['\n']))) = visited content ++ [trimManualLine norm] := by
  obtain ⟨hend, hvisited⟩ := separated hprobe
  rw [← List.append_assoc, visited_append hend, hvisited, visited_line hnorm]

/-- A list that has the path already is left as it is. -/
theorem added_of_mem (h : norm ∈ visited (contentOf file)) : Added norm file file := by
  refine ⟨fun p => ?_, ⟨[], by simp, .inl rfl⟩, fun f' path' hpath' => file_of_settled hpath' h⟩
  constructor
  · exact .inl
  · rintro (hp | rfl)
    · exact hp
    · exact h

/-- A list whose old bytes are kept, with a line behind them that is visited as the path, is one
that a line may be added to. -/
theorem addClean_of_added (hnorm : Normal norm) (hnew : norm ∉ visited (contentOf file))
    (h : Added norm file (some (updatedList probe true norm (contentOf file)))) :
    AddClean probe norm (contentOf file) := by
  obtain ⟨hvisited, ⟨tail, htail, hbegins⟩, -⟩ := h
  refine .inr ?_
  have htail' : (pieces (contentOf file)).flatMap written ++
      ((if needsSeparator probe (contentOf file) then ['\n'] else []) ++ (norm ++ ['\n'])) =
      contentOf file ++ tail := by
    rw [← updatedList_add hnew hnorm.short]
    exact htail
  -- The list that is kept has all its zero bytes.
  have hzero : ∀ p ∈ pieces (contentOf file), '\x00' ∉ p.line := by
    refine zero_notMem_of_count ?_
    rw [flatMap_bytes_pieces]
    have hcount := congrArg (List.count '\x00') htail'
    have hadded : ((if needsSeparator probe (contentOf file) then ['\n'] else []) ++
        (norm ++ ['\n'])).count '\x00' = 0 := by
      rw [List.count_eq_zero]
      split <;> simp [hnorm.zero]
    rw [List.count_append, hadded, List.count_append] at hcount
    omega
  rw [flatMap_written hzero, flatMap_bytes_pieces] at htail'
  have htail'' := List.append_cancel_left htail'
  have hprobe : probe = .lost → contentOf file = [] ∨
      (contentOf file).getLast? = some '\n' := by
    intro hlost
    have hseparator : needsSeparator probe (contentOf file) = false := by
      rw [hlost]
      rfl
    rw [hseparator] at htail''
    simp only [Bool.false_eq_true, if_false, List.nil_append] at htail''
    have hne : norm ≠ [] := by
      rintro rfl
      cases hnorm.head
    have hhead : tail.head? = some '/' := by
      rw [← htail'', List.head?_append_of_ne_nil _ hne]
      exact hnorm.head
    rcases hbegins with hnil | hempty | hlast | hnewline
    · rw [hnil] at hhead
      cases hhead
    · exact .inl hempty
    · exact .inr hlast
    · rw [hhead] at hnewline
      cases hnewline
  refine ⟨hzero, ?_, hprobe⟩
  rw [← trimManualLine_eq_self_iff hnorm]
  have hmem := (hvisited norm).mpr (.inr rfl)
  have hlist : contentOf (some (updatedList probe true norm (contentOf file))) =
      contentOf file ++ ((if needsSeparator probe (contentOf file) then ['\n'] else []) ++
        (norm ++ ['\n'])) := by
    rw [htail'']
    exact htail
  rw [hlist, visited_added hnorm hprobe, List.mem_append, List.mem_singleton] at hmem
  exact (hmem.resolve_left hnew).symm

/-- The path is added to clean content. -/
theorem added_of_addClean (hnorm : Normal norm) (hnew : norm ∉ visited (contentOf file))
    (h : AddClean probe norm (contentOf file)) :
    Added norm file (some (updatedList probe true norm (contentOf file))) := by
  obtain ⟨hzero, hspace, hprobe⟩ := h.resolve_left hnew
  have hlist : contentOf (some (updatedList probe true norm (contentOf file))) =
      contentOf file ++ ((if needsSeparator probe (contentOf file) then ['\n'] else []) ++
        (norm ++ ['\n'])) := by
    show updatedList probe true norm (contentOf file) = _
    rw [updatedList_add hnew hnorm.short, flatMap_written hzero, flatMap_bytes_pieces]
  have hvisited : visited (contentOf (some (updatedList probe true norm (contentOf file)))) =
      visited (contentOf file) ++ [norm] := by
    rw [hlist, visited_added hnorm hprobe, (trimManualLine_eq_self_iff hnorm).mpr hspace]
  refine ⟨fun p => ?_, ⟨_, hlist, ?_⟩, fun f' path' hpath' => ?_⟩
  · rw [hvisited, List.mem_append, List.mem_singleton]
  · by_cases hend : contentOf file = [] ∨ (contentOf file).getLast? = some '\n'
    · exact .inr (hend.elim .inl fun hlast => .inr (.inl hlast))
    · refine .inr (.inr (.inr ?_))
      rw [if_pos (needsSeparator_of_open hprobe hend)]
      rfl
  · refine file_of_settled hpath' ?_
    show norm ∈ visited _
    rw [hvisited]
    simp

theorem added_iff (hpath : normalizePath path = some norm)
    (hok : (addPath f path file).ok = true) :
    Added norm file (addPath f path file).file ↔ AddClean f.probe norm (contentOf file) := by
  have hnorm := normal_of_normalizePath hpath
  rcases file_of_ok hpath hok with ⟨hmem, hfile⟩ | ⟨hnew, hfile⟩
  · have hsame : (addPath f path file).file = file := hfile
    rw [hsame]
    exact ⟨fun _ => .inl hmem, fun _ => added_of_mem hmem⟩
  · have hwritten : (addPath f path file).file =
        some (updatedList f.probe true norm (contentOf file)) := hfile
    rw [hwritten]
    exact ⟨addClean_of_added hnorm hnew, added_of_addClean hnorm hnew⟩

theorem updatedList_remove :
    updatedList probe false norm content =
      ((pieces content).filter fun p => !holds norm p).flatMap written := by
  unfold updatedList
  simp

theorem mem_filter_holds (hshort : norm.length < maxPath) (content path : Text) :
    path ∈ ((pieces content).filter fun p => !holds norm p).filterMap visitOf ↔
      path ∈ visited content ∧ path ≠ norm := by
  unfold visited
  simp only [List.mem_filterMap, List.mem_filter, Bool.not_eq_true']
  constructor
  · rintro ⟨p, ⟨hp, hother⟩, hvisit⟩
    refine ⟨⟨p, hp, hvisit⟩, ?_⟩
    rintro rfl
    rw [(holds_iff hshort p).mpr hvisit] at hother
    cases hother
  · rintro ⟨⟨p, hp, hvisit⟩, hne⟩
    refine ⟨p, ⟨hp, ?_⟩, hvisit⟩
    rw [← Bool.not_eq_true, holds_iff hshort, hvisit, Option.some.injEq]
    exact hne

/-- A successful removal has the intended effect on clean content. -/
theorem removed_iff (hpath : normalizePath path = some norm)
    (hok : (removePath f path file).ok = true) :
    Removed norm file (removePath f path file).file ↔ RemoveClean norm (contentOf file) := by
  have hnorm := normal_of_normalizePath hpath
  have hholds : ∀ p ∈ pieces (contentOf file),
      holds norm p = true → norm ∈ visited (contentOf file) :=
    fun p hp hp' => (any_holds_iff hnorm.short _).mp (List.any_eq_true.mpr ⟨p, hp, hp'⟩)
  rcases file_of_ok hpath hok with ⟨hnone, hfile⟩ | ⟨hmem, hfile⟩
  · -- The path is not there.
    have hnone : norm ∉ visited (contentOf file) := by simpa using hnone
    have hsame : (removePath f path file).file = file := hfile
    rw [hsame]
    refine ⟨fun _ => .inl hnone, fun _ => ⟨fun p => ?_, ?_, ?_⟩⟩
    · refine ⟨fun hp => ⟨hp, ?_⟩, fun hp => hp.1⟩
      rintro rfl
      exact hnone hp
    · have hall : (pieces (contentOf file)).filter (fun p => !holds norm p) =
          pieces (contentOf file) := by
        rw [List.filter_eq_self]
        intro p hp
        rw [Bool.not_eq_true', ← Bool.not_eq_true]
        exact fun hp' => hnone (hholds p hp hp')
      rw [hall, flatMap_bytes_pieces]
    · exact fun f' path' hpath' => file_of_settled hpath' (by simpa using hnone)
  · have hmem : norm ∈ visited (contentOf file) := by simpa using hmem
    have hwritten : (removePath f path file).file =
        some (updatedList f.probe false norm (contentOf file)) := hfile
    rw [hwritten, updatedList_remove]
    constructor
    · rintro ⟨-, hkept, -⟩
      refine .inr ?_
      have hsame : ((pieces (contentOf file)).filter fun p => !holds norm p).flatMap written =
          ((pieces (contentOf file)).filter fun p => !holds norm p).flatMap Piece.bytes := hkept
      have hzero := zero_notMem_of_count (Nat.le_of_eq (congrArg (List.count '\x00') hsame.symm))
      exact fun p hp hother => hzero p (List.mem_filter.mpr ⟨hp, by rw [hother]; rfl⟩)
    · intro hclean
      have hzero := hclean.resolve_left (not_not.mpr hmem)
      have hzero' : ∀ p ∈ (pieces (contentOf file)).filter fun p => !holds norm p,
          '\x00' ∉ p.line := by
        intro p hp
        obtain ⟨hp, hother⟩ := List.mem_filter.mp hp
        exact hzero p hp (by simpa using hother)
      rw [flatMap_written hzero']
      have hvisited : ∀ p, p ∈ visited
          (((pieces (contentOf file)).filter fun p => !holds norm p).flatMap Piece.bytes) ↔
          p ∈ visited (contentOf file) ∧ p ≠ norm := by
        intro p
        rw [← mem_filter_holds hnorm.short]
        unfold visited
        rw [pieces_filter]
        exact fun q hq hother => hzero q hq (by simpa using hother)
      refine ⟨hvisited, rfl, fun f' path' hpath' => file_of_settled hpath' ?_⟩
      show norm ∉ visited _
      exact fun hnorm' => ((hvisited norm).mp hnorm').2 rfl

/-- A failed update leaves the file alone.  A successful one adds or removes exactly the normal
path, keeps the other lines, and has nothing to do the second time, exactly if the path and the
list are clean. -/
theorem manualList_set (f : Faults) (path : Text) (file : Option Text) :
    ((addPath f path file).ok = false → (addPath f path file).file = file) ∧
    ((removePath f path file).ok = false → (removePath f path file).file = file) ∧
    ∀ norm, normalizePath path = some norm →
      ((addPath f path file).ok = true →
        (Added norm file (addPath f path file).file ↔
          AddClean f.probe norm (contentOf file))) ∧
      ((removePath f path file).ok = true →
        (Removed norm file (removePath f path file).file ↔ RemoveClean norm (contentOf file))) :=
  ⟨file_of_not_ok, file_of_not_ok, fun _ hnorm => ⟨added_iff hnorm, removed_iff hnorm⟩⟩

/-- No call fails. -/
def noFaults : Faults := ⟨false, .read, false, false, false⟩

/-- A blank before the last slash of the path. -/
theorem addPath_not_found :
    (addPath noFaults "/a /".toList none).ok = true ∧
      normalizePath "/a /".toList = some "/a ".toList ∧
      ¬ Added "/a ".toList none (addPath noFaults "/a /".toList none).file := by
  refine ⟨by decide +kernel, by decide +kernel, fun h => ?_⟩
  have hfile : (addPath noFaults "/a /".toList none).file = some "/a \n".toList := by
    decide +kernel
  have hmem := (h.visited "/a ".toList).mpr (.inr rfl)
  rw [hfile] at hmem
  exact absurd hmem (by decide +kernel)

end ShadowMount.Manual
