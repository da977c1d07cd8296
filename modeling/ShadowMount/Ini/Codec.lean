import ShadowMount.Ini.Model

/-!
# Ini documents - reading back what the writer emits

The reader and the writer are two separate scanners.  This file compares them
line by line: every rebuilt entry decodes to the value it was built from, and a
rebuilt header is read up to the first bracket of its name that a comment seems
to follow.
-/

namespace ShadowMount.Ini

open Foundation

variable {s value name tail pad : Text} {c : Char} {comment : Option Text}

theorem newline_not_mem_of_validText (h : validText s = true) : '\n' ∉ s := by
  intro hc
  exact absurd (List.all_eq_true.mp h '\n' hc) (by decide)

theorem zero_not_mem_of_validText (h : validText s = true) : '\x00' ∉ s := by
  intro hc
  exact absurd (List.all_eq_true.mp h '\x00' hc) (by decide)

theorem isSpace_of_isCommentStart (h : isCommentStart c = true) : isSpace c = false := by
  simp only [isCommentStart, Bool.or_eq_true, decide_eq_true_eq] at h
  rcases h with rfl | rfl <;> rfl

/-- A comment as the reader stores it. -/
structure IsComment (comment : Text) : Prop where
  starts : ∃ c rest, comment = c :: rest ∧ isCommentStart c = true
  trimmed : ∀ c ∈ comment.getLast?, isSpace c = false
  oneLine : '\n' ∉ comment
  noZero : '\x00' ∉ comment

/-- The comment of a line, if it has one, is well formed. -/
def WellCommented (comment : Option Text) : Prop := ∀ c ∈ comment, IsComment c

theorem commentText_last (h : WellCommented comment) (hc : c ∈ (commentText comment).getLast?) :
    isSpace c = false := by
  cases comment with
  | none => cases hc
  | some comment =>
    have hcomment := h comment rfl
    obtain ⟨first, rest, rfl, -⟩ := hcomment.starts
    simp only [commentText, List.getLast?_cons_cons] at hc
    exact hcomment.trimmed c hc

theorem trim_commentText (h : WellCommented comment) :
    trim isSpace (commentText comment) = comment.getD [] := by
  cases comment with
  | none => rfl
  | some comment =>
    have hcomment := h comment rfl
    obtain ⟨c, rest, rfl, hstart⟩ := hcomment.starts
    have hpad : commentText (some (c :: rest)) = [' '] ++ c :: rest := rfl
    rw [hpad, trim_append_left (by simp [isSpace])]
    refine trim_eq_self ?_ hcomment.trimmed
    intro a ha
    cases ha
    exact isSpace_of_isCommentStart hstart

theorem closesHeader_commentText (h : WellCommented comment) :
    closesHeader (commentText comment) = true := by
  cases comment with
  | none => rfl
  | some comment =>
    obtain ⟨c, rest, rfl, hstart⟩ := (h comment rfl).starts
    have hspace := isSpace_of_isCommentStart hstart
    simp only [closesHeader, commentText]
    rw [List.dropWhile_cons_of_pos (by rfl),
      List.dropWhile_cons_of_neg (by rw [hspace]; simp)]
    exact hstart

theorem decodeQuoted_cons (hquote : c ≠ '"') (hescape : c ≠ '\\') (hprintable : 32 ≤ c.toNat)
    (rest : Text) :
    decodeQuoted (c :: rest) =
      (decodeQuoted rest).map fun decoded => (c :: decoded.1, decoded.2) := by
  rw [decodeQuoted]
  · rw [if_neg (by omega)]
  · exact hquote
  · rintro c' rest' rfl
    exact absurd rfl hescape

/-- The escaped form is decoded. -/
theorem decodeQuoted_escape (h : validText value = true) (tail : Text) :
    decodeQuoted (escape value ++ '"' :: tail) = some (value, tail) := by
  induction value with
  | nil => simp [escape, decodeQuoted]
  | cons c value ih =>
    have hall : isControl c = false ∧ validText value = true := by
      simpa [validText] using h
    have hrest := ih hall.2
    unfold escape at hrest ⊢
    rw [List.flatMap_cons]
    split
    · rename_i hescaped
      have hkept : (c = '\\' || c = '"') = true := by
        simpa [Bool.or_comm] using hescaped
      simp only [List.cons_append, List.nil_append, decodeQuoted, hkept, if_true, hrest]
      rfl
    · rename_i hplain
      simp only [Bool.or_eq_true, decide_eq_true_eq, not_or] at hplain
      have hprintable : 32 ≤ c.toNat := by
        by_contra hlt
        simp [isControl, Nat.lt_of_not_le hlt] at hall
      rw [List.append_assoc, List.singleton_append,
        decodeQuoted_cons hplain.1 hplain.2 hprintable, hrest]
      rfl

theorem encodeValue_ne_nil (value : Text) : encodeValue value ≠ [] := by
  unfold encodeValue
  split
  · simp
  · rename_i hplain
    rintro rfl
    exact hplain rfl

/-- What makes a value plain: non-empty, without spaces at its ends, and without
the characters that need quotes. -/
theorem plain_of_not_needsQuotes (h : needsQuotes value = false) :
    value ≠ [] ∧ (∀ c ∈ value.head?, isSpace c = false) ∧
      (∀ c ∈ value.getLast?, isSpace c = false) ∧
      ∀ c ∈ value, isCommentStart c = false ∧ c ≠ '"' ∧ c ≠ '\\' := by
  cases value with
  | nil => cases h
  | cons c rest =>
    simp only [needsQuotes, Bool.or_eq_false_iff, List.any_eq_false, Bool.not_eq_true] at h
    obtain ⟨⟨hhead, hlast⟩, hplain⟩ := h
    refine ⟨by simp, ?_, ?_, ?_⟩
    · intro a ha
      cases ha
      exact hhead
    · intro a ha
      rw [List.getLast?_eq_some_getLast (by simp)] at ha
      cases ha
      exact hlast
    · intro a ha
      have hfalse := hplain a ha
      simp only [decide_eq_false_iff_not] at hfalse
      exact ⟨hfalse.1.1, hfalse.1.2, hfalse.2⟩

theorem encodeValue_ends (value : Text) :
    (∀ c ∈ (encodeValue value).head?, isSpace c = false) ∧
      ∀ c ∈ (encodeValue value).getLast?, isSpace c = false := by
  unfold encodeValue
  split
  · constructor
    · intro c hc
      cases hc
      rfl
    · intro c hc
      rw [List.getLast?_append] at hc
      cases hc
      rfl
  · rename_i hplain
    obtain ⟨-, hhead, hlast, -⟩ := plain_of_not_needsQuotes (Bool.not_eq_true _ ▸ hplain)
    exact ⟨hhead, hlast⟩

/-- A value and its comment survive encoding. -/
theorem decodeValue_encodeValue (hvalue : validText value = true)
    (hcomment : WellCommented comment) :
    decodeValue (encodeValue value ++ commentText comment) = some (value, comment) := by
  unfold encodeValue
  split
  · -- a quoted value: the comment is what follows the closing quote
    have hquoted := decodeQuoted_escape hvalue (commentText comment)
    simp only [List.cons_append, List.append_assoc, List.nil_append, decodeValue, hquoted,
      trim_commentText hcomment]
    cases comment with
    | none => rfl
    | some comment =>
      obtain ⟨c, rest, rfl, hstart⟩ := (hcomment comment rfl).starts
      simp [hstart]
  · rename_i hquotes
    obtain ⟨hne, hhead, hlast, hclean⟩ := plain_of_not_needsQuotes (Bool.not_eq_true _ ▸ hquotes)
    obtain ⟨c, rest, rfl⟩ := List.exists_cons_of_ne_nil hne
    have hunquoted : decodeValue (c :: rest ++ commentText comment) =
        some (plainValue (c :: rest ++ commentText comment)) := by
      have hc := (hclean c List.mem_cons_self).2.1
      unfold decodeValue
      split
      · rename_i heq
        cases heq
        exact absurd rfl hc
      · rfl
    rw [hunquoted]
    congr 1
    unfold plainValue
    have htrim : trim isSpace (c :: rest) = c :: rest := trim_eq_self hhead hlast
    cases comment with
    | none =>
      have hcut : cut isCommentStart (c :: rest ++ commentText none) = (c :: rest, []) :=
        cut_append (fun a ha => (hclean a ha).1) (by simp [commentText])
      rw [hcut]
      simp only [htrim]
      rfl
    | some comment =>
      obtain ⟨first, tail, rfl, hstart⟩ := (hcomment comment rfl).starts
      have hsplit : c :: rest ++ commentText (some (first :: tail)) =
          (c :: rest ++ [' ']) ++ first :: tail := by simp [commentText]
      have hcut : cut isCommentStart ((c :: rest ++ [' ']) ++ first :: tail) =
          (c :: rest ++ [' '], first :: tail) := by
        refine cut_append ?_ ?_
        · intro a ha
          rcases List.mem_append.mp ha with hin | hspace
          · exact (hclean a hin).1
          · rw [List.mem_singleton] at hspace
            rw [hspace]
            rfl
        · intro a ha
          cases ha
          exact hstart
      rw [hsplit, hcut]
      have hpad : trim isSpace (c :: rest ++ [' ']) = c :: rest := by
        rw [trim_append_right (by simp [isSpace]), htrim]
      simp only [hpad]
      rfl

/-- The text goes on, after spaces, with the start of a comment. -/
def opensComment (tail : Text) : Bool :=
  match tail.dropWhile isSpace with
  | [] => false
  | c :: _ => isCommentStart c

/-- The part of a section name that is read back from its header: up to the first
bracket behind which a comment seems to start. -/
def readName : Text → Text
  | [] => []
  | c :: rest => if c = ']' && opensComment rest then [] else c :: readName rest

/-- A bracket inside the name closes the header before its end. -/
def closesEarly : Text → Bool
  | [] => false
  | c :: rest => (c = ']' && opensComment rest) || closesEarly rest

theorem readName_eq_self (h : closesEarly name = false) : readName name = name := by
  induction name with
  | nil => rfl
  | cons c rest ih =>
    simp only [closesEarly, Bool.or_eq_false_iff] at h
    simp only [readName, h.1, Bool.false_eq_true, if_false, ih h.2]

theorem opensComment_fold (s : Text) : opensComment (fold s) = opensComment s := by
  unfold opensComment
  rw [dropWhile_isSpace_fold]
  cases s.dropWhile isSpace with
  | nil => rfl
  | cons c rest => exact isCommentStart_toLower c

theorem closesEarly_fold (s : Text) : closesEarly (fold s) = closesEarly s := by
  induction s with
  | nil => rfl
  | cons c s ih =>
    have hopens := opensComment_fold s
    simp only [fold] at ih hopens
    simp only [fold, List.map_cons, closesEarly, ih, hopens,
      toLower_eq_iff (d := ']') rfl]

theorem closesEarly_of_sameNoCase {a b : Text} (h : fold a = fold b) :
    closesEarly a = closesEarly b := by
  rw [← closesEarly_fold a, ← closesEarly_fold b, h]

/-- A bracket inside the name closes the header exactly when a comment seems to
start behind it: the closing bracket itself starts none. -/
theorem closesHeader_append (rest tail : Text) :
    closesHeader (rest ++ ']' :: tail) = opensComment rest := by
  unfold closesHeader opensComment
  rw [List.dropWhile_append]
  cases hrest : rest.dropWhile isSpace with
  | nil => rfl
  | cons c rest' => rfl

/-- A rebuilt header is read up to `readName`. -/
theorem splitHeader_name (name : Text) (h : closesHeader tail = true) :
    ∃ rest, splitHeader (name ++ ']' :: tail) = some (readName name, rest) := by
  induction name with
  | nil => exact ⟨tail, by simp [splitHeader, readName, h]⟩
  | cons c name ih =>
    obtain ⟨rest, hrest⟩ := ih
    simp only [List.cons_append, splitHeader, readName, closesHeader_append]
    split
    · exact ⟨_, rfl⟩
    · exact ⟨rest, by rw [hrest]; rfl⟩

theorem eq_of_splitHeader (h : splitHeader s = some (name, tail)) : s = name ++ ']' :: tail := by
  induction s generalizing name with
  | nil => cases h
  | cons c s ih =>
    unfold splitHeader at h
    split at h
    · rename_i hcloses
      simp only [Bool.and_eq_true, decide_eq_true_eq] at hcloses
      cases h
      rw [hcloses.1]
      rfl
    · cases hsplit : splitHeader s with
      | none =>
        rw [hsplit] at h
        cases h
      | some split =>
        rw [hsplit] at h
        cases h
        rw [ih hsplit]
        rfl

theorem closesEarly_of_splitHeader (h : splitHeader s = some (name, tail)) :
    closesEarly name = false := by
  induction s generalizing name with
  | nil => cases h
  | cons c s ih =>
    unfold splitHeader at h
    split at h
    · cases h
      rfl
    · rename_i hopen
      cases hsplit : splitHeader s with
      | none =>
        rw [hsplit] at h
        cases h
      | some split =>
        rw [hsplit] at h
        cases h
        -- a bracket with a comment behind it would have closed the header there
        rw [eq_of_splitHeader hsplit, closesHeader_append, Bool.not_eq_true] at hopen
        simp only [closesEarly, hopen, Bool.false_or]
        exact ih hsplit

theorem opensComment_spaces (h : ∀ c ∈ pad, isSpace c = true) : opensComment pad = false := by
  unfold opensComment
  rw [List.dropWhile_eq_nil_iff.mpr h]

theorem opensComment_append_spaces (h : ∀ c ∈ pad, isSpace c = true) (s : Text) :
    opensComment (s ++ pad) = opensComment s := by
  unfold opensComment
  rw [List.dropWhile_append]
  cases s.dropWhile isSpace with
  | nil => simp [List.dropWhile_eq_nil_iff.mpr h]
  | cons c rest => rfl

theorem closesEarly_spaces (h : ∀ c ∈ pad, isSpace c = true) : closesEarly pad = false := by
  induction pad with
  | nil => rfl
  | cons c pad ih =>
    have hpad : ∀ c ∈ pad, isSpace c = true := fun a ha => h a (List.mem_cons_of_mem _ ha)
    simp [closesEarly, opensComment_spaces hpad, ih hpad]

theorem closesEarly_append_spaces (h : ∀ c ∈ pad, isSpace c = true) (s : Text) :
    closesEarly (s ++ pad) = closesEarly s := by
  induction s with
  | nil => exact closesEarly_spaces h
  | cons c s ih => simp only [List.cons_append, closesEarly, opensComment_append_spaces h, ih]

theorem closesEarly_spaces_append (h : ∀ c ∈ pad, isSpace c = true) (s : Text) :
    closesEarly (pad ++ s) = closesEarly s := by
  induction pad with
  | nil => rfl
  | cons c pad ih =>
    have hc : c ≠ ']' := by
      rintro rfl
      exact absurd (h ']' List.mem_cons_self) (by decide)
    simp only [List.cons_append, closesEarly, hc, decide_false, Bool.false_and, Bool.false_or]
    exact ih (fun a ha => h a (List.mem_cons_of_mem _ ha))

theorem closesEarly_trim (s : Text) : closesEarly (trim isSpace s) = closesEarly s := by
  obtain ⟨front, back, hfront, hback, heq⟩ := exists_eq_trim isSpace s
  conv_rhs => rw [heq]
  rw [closesEarly_append_spaces hback, closesEarly_spaces_append hfront]

theorem trim_entryText (key : Text) {rest : Text} (hne : rest ≠ [])
    (hlast : ∀ c ∈ rest.getLast?, isSpace c = false) :
    trim isSpace (key ++ ' ' :: '=' :: ' ' :: rest) =
      match key.dropWhile isSpace with
      | [] => '=' :: ' ' :: rest
      | c :: key => c :: key ++ ' ' :: '=' :: ' ' :: rest := by
  have hend : ∀ front : Text, ∀ c ∈ (front ++ rest).getLast?, isSpace c = false := by
    intro front c hc
    rw [List.getLast?_append_of_ne_nil _ hne] at hc
    exact hlast c hc
  rw [← trim_dropWhile, List.dropWhile_append]
  cases hkey : key.dropWhile isSpace with
  | nil =>
    refine trim_eq_self ?_ (hend ['=', ' '])
    intro c hc
    cases hc
    rfl
  | cons c key' =>
    refine trim_eq_self ?_ ?_
    · intro a ha
      cases ha
      have hnot := List.head_dropWhile_not isSpace (l := key) (by rw [hkey]; simp)
      simpa [hkey] using hnot
    · have hsplit : c :: key' ++ ' ' :: '=' :: ' ' :: rest =
          (c :: key' ++ [' ', '=', ' ']) ++ rest := by simp
      show ∀ a ∈ (c :: key' ++ ' ' :: '=' :: ' ' :: rest).getLast?, _
      rw [hsplit]
      exact hend _

/-- What follows the key of a rebuilt entry. -/
theorem valueText_ends (value : Text) (h : WellCommented comment) :
    encodeValue value ++ commentText comment ≠ [] ∧
      (∀ c ∈ (encodeValue value ++ commentText comment).head?, isSpace c = false) ∧
      ∀ c ∈ (encodeValue value ++ commentText comment).getLast?, isSpace c = false := by
  have hne := encodeValue_ne_nil value
  refine ⟨by simp [hne], ?_, ?_⟩
  · intro c hc
    rw [List.head?_append_of_ne_nil _ hne] at hc
    exact (encodeValue_ends value).1 c hc
  · intro c hc
    rw [List.getLast?_append] at hc
    cases hlast : (commentText comment).getLast? with
    | none =>
      rw [hlast] at hc
      exact (encodeValue_ends value).2 c hc
    | some a =>
      rw [hlast] at hc
      exact commentText_last h (by rw [hlast]; exact hc)

/-- An entry that was written is parsed as itself. -/
theorem parseEntry_entryText {key value : Text} {comment : Option Text} (hkey : '=' ∉ key)
    (hvalue : validText value = true) (hcomment : WellCommented comment) (sect : Text)
    {pad : Text} (hpad : ∀ c ∈ pad, c = ' ') :
    parseEntry false sect (key ++ pad ++ '=' :: ' ' ::
        (encodeValue value ++ commentText comment)) =
      if trim isSpace key = [] then .malformed sect true
      else .line (.entry (trim isSpace key) value) sect comment := by
  obtain ⟨-, hhead, hlast⟩ := valueText_ends value hcomment
  have hcut : cut (· = '=') (key ++ pad ++ '=' :: ' ' ::
      (encodeValue value ++ commentText comment)) =
      (key ++ pad, '=' :: ' ' :: (encodeValue value ++ commentText comment)) := by
    refine cut_append ?_ ?_
    · intro c hc
      rw [decide_eq_false_iff_not]
      rintro rfl
      rcases List.mem_append.mp hc with hin | hin
      · exact hkey hin
      · exact absurd (hpad _ hin) (by decide)
    · intro c hc
      cases hc
      rfl
  have htrimKey : trim isSpace (key ++ pad) = trim isSpace key := by
    refine trim_append_right ?_ key
    intro c hc
    rw [hpad c hc]
    rfl
  have htrimValue : trim isSpace (' ' :: (encodeValue value ++ commentText comment)) =
      encodeValue value ++ commentText comment := by
    rw [← List.singleton_append, trim_append_left (by simp [isSpace])]
    exact trim_eq_self hhead hlast
  unfold parseEntry
  simp only [hcut, htrimKey, htrimValue, Bool.false_eq_true, if_false,
    decodeValue_encodeValue hvalue hcomment]

/-- How a rebuilt entry is read: a key of spaces is no key, a key that starts like
a header or a comment is taken for one, and every other entry is read back. -/
theorem parseLine_entryLine {key : Text} (hkey : '=' ∉ key) (hvalue : validText value = true)
    (hcomment : WellCommented comment) (sect : Text) :
    parseLine false sect
        (key ++ ' ' :: '=' :: ' ' :: encodeValue value ++ commentText comment ++ ['\n']) =
      match key.dropWhile isSpace with
      | [] => .malformed sect true
      | c :: rest =>
        if c = '[' then parseHeader sect
          (rest ++ ' ' :: '=' :: ' ' :: (encodeValue value ++ commentText comment))
        else if isCommentStart c then .line .other sect none
        else .line (.entry (trim isSpace key) value) sect comment := by
  obtain ⟨hne, -, hlast⟩ := valueText_ends value hcomment
  have htrim : trim isSpace
      (key ++ ' ' :: '=' :: ' ' :: encodeValue value ++ commentText comment ++ ['\n']) =
      match key.dropWhile isSpace with
      | [] => '=' :: ' ' :: (encodeValue value ++ commentText comment)
      | c :: key =>
          c :: key ++ ' ' :: '=' :: ' ' :: (encodeValue value ++ commentText comment) := by
    rw [trim_append_right (by simp [isSpace]), ← trim_entryText key hne hlast]
    simp
  unfold parseLine
  rw [htrim]
  cases hdrop : key.dropWhile isSpace with
  | nil =>
    have hempty := @parseEntry_entryText [] value comment (by simp) hvalue hcomment sect []
      (by simp)
    simpa [isCommentStart] using hempty
  | cons c rest =>
    have hkey' : '=' ∉ c :: rest := by
      rw [← hdrop]
      exact fun hin => hkey ((List.dropWhile_sublist _).subset hin)
    have htrimKey : trim isSpace (c :: rest) = trim isSpace key := by
      rw [← hdrop, trim_dropWhile]
    have hnonempty : trim isSpace key ≠ [] := by
      rw [← htrimKey]
      intro hnil
      have hspace := trim_eq_nil_iff.mp hnil c List.mem_cons_self
      have hnot := List.head_dropWhile_not isSpace (l := key) (by rw [hdrop]; simp)
      simp [hdrop, hspace] at hnot
    have hentry := @parseEntry_entryText (c :: rest) value comment hkey' hvalue hcomment sect
      [' '] (by simp)
    rw [htrimKey, if_neg hnonempty] at hentry
    simp only [List.cons_append]
    split
    · rfl
    · split
      · rfl
      · rw [← hentry]
        simp

/-- How a header that was written is parsed. -/
theorem parseLine_headerLine (name : Text) (hcomment : WellCommented comment) (sect : Text) :
    ∃ tail, parseLine false sect ('[' :: name ++ ']' :: commentText comment ++ ['\n']) =
      if trim isSpace (readName name) = [] ∨ maxSection ≤ (trim isSpace (readName name)).length
      then .malformed (strlcpy maxSection (trim isSpace (readName name))) false
      else .line .header (trim isSpace (readName name)) tail := by
  obtain ⟨rest, hsplit⟩ := splitHeader_name name (closesHeader_commentText hcomment)
  have htrim : trim isSpace ('[' :: name ++ ']' :: commentText comment ++ ['\n']) =
      '[' :: (name ++ ']' :: commentText comment) := by
    rw [trim_append_right (by simp [isSpace])]
    refine trim_eq_self ?_ ?_
    · intro c hc
      cases hc
      rfl
    · intro c hc
      rw [List.getLast?_append_of_ne_nil _ (by simp)] at hc
      cases comment with
      | none =>
        cases hc
        rfl
      | some comment =>
        simp only [commentText, List.getLast?_cons_cons] at hc
        exact commentText_last hcomment (by simpa [commentText] using hc)
  refine ⟨optional (trim isSpace rest), ?_⟩
  unfold parseLine
  rw [htrim]
  simp only [if_true, parseHeader, hsplit, Bool.or_eq_true, decide_eq_true_eq]

end ShadowMount.Ini
