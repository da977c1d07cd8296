import ShadowMount.Manual.Model

/-!
# The lines that are read

How the reading loop cuts a file, and what it reads of a file that grew or lost lines.
-/

namespace ShadowMount.Manual

open Foundation

variable {bytes content a : Text}

theorem cText_of_notMem (h : '\x00' ∉ bytes) : cText bytes = bytes := by
  have hsplit := @cut_append _ (fun c : Char => decide (c = '\x00')) bytes []
    (fun c hc => by
      rw [decide_eq_false_iff_not]
      rintro rfl
      exact h hc)
    nofun
  rw [List.append_nil] at hsplit
  unfold cText
  rw [hsplit]

theorem zero_notMem_cText (bytes : Text) : '\x00' ∉ cText bytes := by
  intro hmem
  have hzero := not_of_mem_cut_fst hmem
  simp at hzero

theorem cText_append_of_mem (h : '\x00' ∈ bytes) (more : Text) :
    cText (bytes ++ more) = cText bytes := by
  have hsplit := cut_fst_append_snd (fun c : Char => decide (c = '\x00')) bytes
  have hhead := @cut_snd_head _ (fun c : Char => decide (c = '\x00')) bytes
  have hclean : ∀ c ∈ (cut (fun c : Char => decide (c = '\x00')) bytes).1,
      decide (c = '\x00') = false :=
    fun c hc => @not_of_mem_cut_fst _ (fun c : Char => decide (c = '\x00')) bytes c hc
  cases hrest : (cut (fun c : Char => decide (c = '\x00')) bytes).2 with
  | nil =>
    rw [hrest, List.append_nil] at hsplit
    rw [← hsplit] at h
    exact absurd h (zero_notMem_cText bytes)
  | cons c rest =>
    rw [hrest] at hsplit hhead
    have happend : bytes ++ more =
        (cut (fun c : Char => decide (c = '\x00')) bytes).1 ++ c :: (rest ++ more) := by
      conv_lhs => rw [← hsplit]
      simp
    unfold cText
    rw [happend, cut_append hclean]
    intro d hd
    cases hd
    exact hhead rfl

theorem length_cText_le (bytes : Text) : (cText bytes).length ≤ bytes.length := by
  have hsplit := congrArg List.length
    (cut_fst_append_snd (fun c : Char => decide (c = '\x00')) bytes)
  rw [List.length_append] at hsplit
  unfold cText
  omega

theorem length_cText_lt (h : '\x00' ∈ bytes) : (cText bytes).length < bytes.length := by
  refine Nat.lt_of_le_of_ne (length_cText_le bytes) fun heq => ?_
  have hsplit := cut_fst_append_snd (fun c : Char => decide (c = '\x00')) bytes
  have hlength := congrArg List.length hsplit
  rw [List.length_append] at hlength
  have hnil : (cut (fun c : Char => decide (c = '\x00')) bytes).2 = [] := by
    rw [← List.length_eq_zero_iff]
    unfold cText at heq
    omega
  rw [hnil, List.append_nil] at hsplit
  rw [← hsplit] at h
  exact zero_notMem_cText bytes h

theorem bytes_readPiece (content : Text) :
    (readPiece content).1.bytes ++ (readPiece content).2 = content := by
  unfold readPiece Piece.bytes
  have hsplit := chunk_append '\n' (lineSize - 1) content
  dsimp only
  split
  · have hrest := chunk_append '\n' (chunk '\n' (lineSize - 1) content).2.length
      (chunk '\n' (lineSize - 1) content).2
    rw [List.append_assoc, hrest, hsplit]
  · rw [List.append_nil, hsplit]

theorem line_readPiece (content : Text) :
    (readPiece content).1.line = (chunk '\n' (lineSize - 1) content).1 := by
  unfold readPiece
  dsimp only
  split <;> rfl

theorem bytes_readPiece_ne_nil (h : content ≠ []) : (readPiece content).1.bytes ≠ [] := by
  unfold Piece.bytes
  rw [line_readPiece]
  have hne := @chunk_ne_nil _ _ '\n' (lineSize - 1) _ (by decide) h
  simp [hne]

theorem shrinks_readPiece : Shrinks readPiece := by
  intro content h
  have hsplit := congrArg List.length (bytes_readPiece content)
  have hpos := List.length_pos_iff.mpr (bytes_readPiece_ne_nil h)
  rw [List.length_append] at hsplit
  omega

@[simp]
theorem pieces_nil : pieces [] = [] := rfl

theorem pieces_of_ne_nil (h : content ≠ []) :
    pieces content = (readPiece content).1 :: pieces (readPiece content).2 :=
  allTurns_of_ne_nil shrinks_readPiece h

/-- The turns take the whole file. -/
theorem flatMap_bytes_pieces (content : Text) : (pieces content).flatMap Piece.bytes = content := by
  induction content using turns_induction shrinks_readPiece with
  | nil => rfl
  | turn content hne ih => rw [pieces_of_ne_nil hne, List.flatMap_cons, ih, bytes_readPiece]

theorem newline_notMem_of_truncated (h : truncated (chunk '\n' (lineSize - 1) content).1 = true) :
    '\n' ∉ (chunk '\n' (lineSize - 1) content).1 ∧
      (chunk '\n' (lineSize - 1) content).1.length = lineSize - 1 := by
  simp only [truncated, Bool.and_eq_true, decide_eq_true_eq] at h
  have hle := length_chunk_le '\n' (lineSize - 1) content
  have htext := length_cText_le (chunk '\n' (lineSize - 1) content).1
  have hzero : '\x00' ∉ (chunk '\n' (lineSize - 1) content).1 := by
    intro hmem
    have hlt := length_cText_lt hmem
    omega
  rw [cText_of_notMem hzero] at h
  exact h

/-- What follows a complete piece does not change it. -/
theorem readPiece_append (ha : a.getLast? = some '\n' ∨ (readPiece a).2 ≠ []) (b : Text) :
    readPiece (a ++ b) = ((readPiece a).1, (readPiece a).2 ++ b) := by
  have hlimit : ∀ after : Text, after.length ≤ (after ++ b).length := fun after => by
    rw [List.length_append]
    exact Nat.le_add_right _ _
  have hsplit := chunk_append '\n' (lineSize - 1) a
  unfold readPiece at ha ⊢
  dsimp only at ha ⊢
  by_cases hlong : truncated (chunk '\n' (lineSize - 1) a).1 = true
  · rw [if_pos hlong] at ha
    obtain ⟨hclean, -⟩ := newline_notMem_of_truncated hlong
    have hafter : (chunk '\n' (lineSize - 1) a).2 ≠ [] := by
      intro hnil
      rw [hnil] at ha hsplit
      rcases ha with hlast | hrest
      · rw [List.append_nil] at hsplit
        rw [hsplit] at hclean
        exact hclean (List.mem_of_getLast? hlast)
      · exact hrest rfl
    have hclosed : (chunk '\n' (lineSize - 1) a).2.getLast? = some '\n' ∨
        (chunk '\n' ((chunk '\n' (lineSize - 1) a).2 ++ b).length
          (chunk '\n' (lineSize - 1) a).2).2 ≠ [] := by
      rcases ha with hlast | hrest
      · rw [← hsplit, List.getLast?_append_of_ne_nil _ hafter] at hlast
        exact .inl hlast
      · rw [chunk_of_length_le (hlimit _)]
        exact .inr hrest
    rw [chunk_append_of_closed (.inr hafter), if_pos hlong, if_pos hlong,
      chunk_append_of_closed hclosed, chunk_of_length_le (hlimit _)]
  · rw [if_neg hlong] at ha
    rw [chunk_append_of_closed ha, if_neg hlong, if_neg hlong]

theorem getLast_readPiece (h : (readPiece content).2 ≠ []) :
    (readPiece content).2.getLast? = content.getLast? := by
  have hsplit := bytes_readPiece content
  conv_rhs => rw [← hsplit, List.getLast?_append_of_ne_nil _ h]

/-- Behind a newline the loop starts afresh. -/
theorem pieces_append (ha : a = [] ∨ a.getLast? = some '\n') (b : Text) :
    pieces (a ++ b) = pieces a ++ pieces b := by
  induction a using turns_induction shrinks_readPiece with
  | nil => rfl
  | turn a hne ih =>
    have hlast := ha.resolve_left hne
    have hafter : (readPiece a).2 = [] ∨ (readPiece a).2.getLast? = some '\n' := by
      by_cases hnil : (readPiece a).2 = []
      · exact .inl hnil
      · exact .inr ((getLast_readPiece hnil).trans hlast)
    rw [pieces_of_ne_nil (by simp [hne]), readPiece_append (.inl hlast), ih hafter,
      pieces_of_ne_nil hne]
    rfl

theorem visited_of_ne_nil {content : Text} (h : content ≠ []) :
    visited content = (visitOf (readPiece content).1).toList ++ visited (readPiece content).2 := by
  unfold visited
  rw [pieces_of_ne_nil h, List.filterMap_cons]
  cases visitOf (readPiece content).1 <;> rfl

theorem trimManualLine_newline (line : Text) :
    trimManualLine (line ++ ['\n']) = trimManualLine line := by
  have hspace : ∀ c ∈ ['\n'], isSpace c = true := List.all_eq_true.mp (by decide)
  unfold trimManualLine
  rw [trim_append_right hspace]

theorem visitOf_newline {line rest rest' : Text} (hshort : line.length < lineSize - 1) :
    visitOf ⟨line ++ ['\n'], rest⟩ = visitOf ⟨line, rest'⟩ ∧
      truncated (line ++ ['\n']) = false := by
  have hfits : truncated line = false := by
    have hle := length_cText_le line
    simp only [truncated, Bool.and_eq_false_iff, decide_eq_false_iff_not]
    right
    omega
  by_cases hzero : '\x00' ∈ line
  · have hsame := cText_append_of_mem hzero ['\n']
    have htruncated : truncated (line ++ ['\n']) = truncated line := by
      unfold truncated
      rw [hsame]
    refine ⟨?_, htruncated.trans hfits⟩
    unfold visitOf
    simp only [hsame, htruncated]
  · have hsame : cText (line ++ ['\n']) = line ++ ['\n'] :=
      cText_of_notMem (by simp [hzero])
    have htruncated : truncated (line ++ ['\n']) = false := by
      unfold truncated
      rw [hsame]
      simp
    refine ⟨?_, htruncated⟩
    unfold visitOf
    simp only [hsame, htruncated, hfits, cText_of_notMem hzero, trimManualLine_newline]

/-- A newline behind the last line changes no visited path. -/
theorem visited_newline_of_end (hne : content ≠ []) (hlast : content.getLast? ≠ some '\n')
    (hend : (readPiece content).2 = []) : visited (content ++ ['\n']) = visited content := by
  have hsplit := chunk_append '\n' (lineSize - 1) content
  have hlength := length_chunk_le '\n' (lineSize - 1) content
  have hvisit := visited_of_ne_nil hne
  have hvisit' := @visited_of_ne_nil (content ++ ['\n']) (by simp)
  rw [hend] at hvisit
  rw [hvisit, hvisit']
  unfold readPiece at hend ⊢
  dsimp only at hend ⊢
  by_cases hlong : truncated (chunk '\n' (lineSize - 1) content).1 = true
  · -- The line does not fit; the newline joins its rest.
    obtain ⟨hclean, hfull⟩ := newline_notMem_of_truncated hlong
    rw [if_pos hlong] at hend
    have hrest : '\n' ∉ (chunk '\n' (lineSize - 1) content).2 := by
      intro hmem
      have hdrained := chunk_append '\n' (chunk '\n' (lineSize - 1) content).2.length
        (chunk '\n' (lineSize - 1) content).2
      rw [hend, List.append_nil] at hdrained
      rcases chunk_shape '\n' (chunk '\n' (lineSize - 1) content).2.length
          (chunk '\n' (lineSize - 1) content).2 with ⟨body, hbody, -⟩ | ⟨hnone, -⟩
      · rw [hbody] at hdrained
        refine hlast ?_
        rw [← hsplit, ← hdrained, ← List.append_assoc, List.getLast?_concat]
      · rw [hdrained] at hnone
        exact hnone hmem
    have hmore : chunk '\n' (lineSize - 1) (content ++ ['\n']) =
        ((chunk '\n' (lineSize - 1) content).1,
          (chunk '\n' (lineSize - 1) content).2 ++ ['\n']) := by
      conv_lhs => rw [← hsplit, List.append_assoc, ← hfull]
      rw [hfull]
      have hchunk := chunk_full hclean ((chunk '\n' (lineSize - 1) content).2 ++ ['\n'])
      rw [hfull] at hchunk
      exact hchunk
    rw [if_pos hlong, hmore, if_pos hlong, chunk_stop hrest (by simp)]
    rfl
  · rw [if_neg hlong] at hend
    rw [hend, List.append_nil] at hsplit
    have hclean : '\n' ∉ content := by
      rcases chunk_shape '\n' (lineSize - 1) content with ⟨body, hbody, -⟩ | ⟨hnone, -⟩
      · rw [hsplit] at hbody
        rw [hbody] at hlast
        exact absurd List.getLast?_concat hlast
      · rwa [hsplit] at hnone
    rw [hsplit] at hlong hlength
    rw [hsplit, if_neg hlong]
    rcases Nat.lt_or_eq_of_le hlength with hshort | hfull
    · -- The newline fits into the buffer.
      obtain ⟨hsame, hfits⟩ := @visitOf_newline content [] [] hshort
      rw [chunk_stop hclean hshort, if_neg (by simp [hfits]), hsame]
    · -- The newline is a line of its own.
      have hchunk := chunk_full hclean ['\n']
      rw [hfull] at hchunk
      have hblank : visited ['\n'] = [] := by decide +kernel
      rw [hchunk, if_neg hlong, hblank]
      rfl

/-- A final newline makes no difference to the paths. -/
theorem visited_append_newline (hlast : content.getLast? ≠ some '\n') :
    visited (content ++ ['\n']) = visited content := by
  induction content using turns_induction shrinks_readPiece with
  | nil => decide +kernel
  | turn content hne ih =>
    by_cases hend : (readPiece content).2 = []
    · exact visited_newline_of_end hne hlast hend
    · rw [visited_of_ne_nil (by simp), readPiece_append (.inr hend), visited_of_ne_nil hne,
        ih (by rwa [getLast_readPiece hend])]

theorem visited_append (ha : a = [] ∨ a.getLast? = some '\n') (b : Text) :
    visited (a ++ b) = visited a ++ visited b := by
  unfold visited
  rw [pieces_append ha, List.filterMap_append]

theorem pieces_line {body : Text} (hclean : '\n' ∉ body)
    (hshort : body.length < lineSize - 1) :
    pieces (body ++ ['\n']) = [⟨body ++ ['\n'], []⟩] := by
  obtain ⟨-, hfits⟩ := @visitOf_newline body [] [] hshort
  rw [pieces_of_ne_nil (by simp)]
  unfold readPiece
  rw [chunk_stop hclean hshort]
  dsimp only
  rw [if_neg (by simp [hfits])]
  rfl

theorem getLast_bytes_readPiece (hzero : '\x00' ∉ (readPiece content).1.line)
    (hafter : (readPiece content).2 ≠ []) : (readPiece content).1.bytes.getLast? = some '\n' := by
  rw [line_readPiece] at hzero
  unfold readPiece Piece.bytes at *
  dsimp only at *
  by_cases hlong : truncated (chunk '\n' (lineSize - 1) content).1 = true
  · rw [if_pos hlong] at hafter ⊢
    dsimp only at hafter
    rcases chunk_shape '\n' (chunk '\n' (lineSize - 1) content).2.length
        (chunk '\n' (lineSize - 1) content).2 with ⟨body, hbody, -⟩ | ⟨-, hfull | hnil⟩
    · dsimp only
      rw [hbody, ← List.append_assoc, List.getLast?_concat]
    · have hsplit := congrArg List.length
        (chunk_append '\n' (chunk '\n' (lineSize - 1) content).2.length
          (chunk '\n' (lineSize - 1) content).2)
      rw [List.length_append, hfull] at hsplit
      exact absurd (List.length_eq_zero_iff.mp (by omega)) hafter
    · exact absurd hnil hafter
  · rw [if_neg hlong] at hafter ⊢
    rcases chunk_shape '\n' (lineSize - 1) content with ⟨body, hbody, -⟩ | ⟨hnone, hfull | hnil⟩
    · dsimp only
      rw [hbody, List.append_nil, List.getLast?_concat]
    · refine absurd ?_ hlong
      unfold truncated
      rw [cText_of_notMem hzero, hfull]
      simp [hnone]
    · exact absurd hnil hafter

theorem pieces_bytes (hne : content ≠ []) (hzero : '\x00' ∉ (readPiece content).1.line) :
    pieces (readPiece content).1.bytes = [(readPiece content).1] ∧
      ((readPiece content).2 = [] ∨ (readPiece content).1.bytes.getLast? = some '\n') := by
  have hsplit := bytes_readPiece content
  have hpieces := pieces_of_ne_nil hne
  by_cases hafter : (readPiece content).2 = []
  · refine ⟨?_, .inl hafter⟩
    rw [hafter, List.append_nil] at hsplit
    rw [hafter] at hpieces
    conv_lhs => rw [hsplit]
    exact hpieces
  · have hlast := getLast_bytes_readPiece hzero hafter
    refine ⟨?_, .inr hlast⟩
    have hboth := pieces_append (.inr hlast) (readPiece content).2
    rw [hsplit, hpieces] at hboth
    have hone : [(readPiece content).1] ++ pieces (readPiece content).2 =
        pieces (readPiece content).1.bytes ++ pieces (readPiece content).2 := hboth
    exact (List.append_cancel_right hone).symm

/-- Lines that were written back are read as they were. -/
theorem pieces_filter (keep : Piece → Bool)
    (h : ∀ p ∈ pieces content, keep p = true → '\x00' ∉ p.line) :
    pieces (((pieces content).filter keep).flatMap Piece.bytes) = (pieces content).filter keep := by
  induction content using turns_induction shrinks_readPiece with
  | nil => rfl
  | turn content hne ih =>
    rw [pieces_of_ne_nil hne] at h ⊢
    have hrest := ih fun p hp => h p (List.mem_cons_of_mem _ hp)
    by_cases hkeep : keep (readPiece content).1 = true
    · obtain ⟨halone, hclosed⟩ := pieces_bytes hne (h _ List.mem_cons_self hkeep)
      rw [List.filter_cons_of_pos hkeep, List.flatMap_cons]
      rcases hclosed with hnil | hlast
      · rw [hnil]
        simpa using halone
      · rw [pieces_append (.inr hlast), halone, hrest]
        rfl
    · rw [List.filter_cons_of_neg hkeep]
      exact hrest

end ShadowMount.Manual
