import ShadowMount.Foundation.Transition
import ShadowMount.Ini.Codec

/-!
# Ini documents - what holds of every document in use

A document in use was read from a file, or started empty, and was then edited.
Its lines with an original text are read back from that text as they are, and its
rebuilt lines carry names and keys that an editing call supplied.

The two kinds of names are parameters, {lit}`names` for sections and
{lit}`keys` for keys, so that the same facts serve documents edited through the
bare interface and documents edited by the program's own callers.
-/

namespace ShadowMount.Ini

open Foundation

variable {tail s value raw sect bytes key : Text} {comment : Option Text} {c : Char}
  {content : Content} {d : Document} {l : Line}

theorem isComment_optional {comment : Text}
    (hstart : ∀ c ∈ (trim isSpace tail).head?, isCommentStart c = true) (hline : '\n' ∉ tail)
    (hzero : '\x00' ∉ tail) (h : comment ∈ optional (trim isSpace tail)) : IsComment comment := by
  unfold optional at h
  split at h
  · cases h
  · rename_i hne
    cases h
    refine ⟨?_, fun c hc => trim_last hc, fun hin => hline (mem_of_mem_trim hin),
      fun hin => hzero (mem_of_mem_trim hin)⟩
    obtain ⟨c, rest, hcons⟩ := List.exists_cons_of_ne_nil hne
    exact ⟨c, rest, hcons, hstart c (by rw [hcons]; rfl)⟩

theorem head_trim_of_closesHeader (h : closesHeader tail = true) :
    ∀ c ∈ (trim isSpace tail).head?, isCommentStart c = true := by
  intro c hc
  have hfirst := head?_dropWhile_of_trim hc
  unfold closesHeader at h
  cases hdrop : tail.dropWhile isSpace with
  | nil =>
    rw [hdrop] at hfirst
    cases hfirst
  | cons a rest =>
    rw [hdrop] at h hfirst
    cases hfirst
    exact h

theorem closesHeader_of_splitHeader {name : Text} (h : splitHeader s = some (name, tail)) :
    closesHeader tail = true := by
  induction s generalizing name with
  | nil => cases h
  | cons c s ih =>
    unfold splitHeader at h
    split at h
    · rename_i hcloses
      cases h
      exact (Bool.and_eq_true _ _ ▸ hcloses).2
    · cases hsplit : splitHeader s with
      | none =>
        rw [hsplit] at h
        cases h
      | some split =>
        rw [hsplit] at h
        cases h
        exact ih hsplit

theorem mem_of_decodeQuoted (h : decodeQuoted s = some (value, tail)) (hc : c ∈ tail) : c ∈ s := by
  fun_induction decodeQuoted s generalizing value with
  | case1 => cases h
  | case2 tail' =>
    cases h
    exact List.mem_cons_of_mem _ hc
  | case3 c' rest hescape ih =>
    cases hrest : decodeQuoted rest with
    | none =>
      rw [hrest] at h
      cases h
    | some decoded =>
      rw [hrest] at h
      cases h
      exact List.mem_cons_of_mem _ (List.mem_cons_of_mem _ (ih hrest))
  | case4 => cases h
  | case5 => cases h
  | case6 c' rest _ _ hprintable ih =>
    cases hrest : decodeQuoted rest with
    | none =>
      rw [hrest] at h
      cases h
    | some decoded =>
      rw [hrest] at h
      cases h
      exact List.mem_cons_of_mem _ (ih hrest)

/-- A raw line without a line break inside it and without zero bytes. -/
structure IsRaw (raw : Text) : Prop where
  oneLine : ∃ body, '\n' ∉ body ∧ (raw = body ∨ raw = body ++ ['\n'])
  noZero : '\x00' ∉ raw

theorem IsRaw.newline_not_mem_trim (h : IsRaw raw) : '\n' ∉ trim isSpace raw := by
  obtain ⟨body, hbody, rfl | rfl⟩ := h.oneLine
  · exact fun hin => hbody (mem_of_mem_trim hin)
  · rw [trim_append_right (by simp [isSpace])]
    exact fun hin => hbody (mem_of_mem_trim hin)

theorem IsRaw.zero_not_mem_trim (h : IsRaw raw) : '\x00' ∉ trim isSpace raw :=
  fun hin => h.noZero (mem_of_mem_trim hin)

/-- The comment of a value is well formed when the value has no line break, no
zero byte, and no space at its end. -/
theorem wellCommented_decodeValue (hlast : ∀ c ∈ s.getLast?, isSpace c = false) (hline : '\n' ∉ s)
    (hzero : '\x00' ∉ s) (h : decodeValue s = some (value, comment)) : WellCommented comment := by
  unfold decodeValue at h
  split at h
  · rename_i rest
    split at h
    · cases h
    · rename_i value' tail hdecoded
      have hsub : ∀ c ∈ trim isSpace tail, c ∈ '"' :: rest :=
        fun c hc => List.mem_cons_of_mem _ (mem_of_decodeQuoted hdecoded (mem_of_mem_trim hc))
      split at h
      · cases h
        exact nofun
      · rename_i c text htail
        split at h
        · rename_i hstart
          cases h
          intro comment hcomment
          cases hcomment
          rw [← htail]
          refine ⟨⟨c, text, htail, hstart⟩, fun c hc => trim_last hc, ?_, ?_⟩
          · exact fun hin => hline (hsub _ hin)
          · exact fun hin => hzero (hsub _ hin)
        · cases h
  · -- a plain value: the comment is the end of the text
    simp only [Option.some.injEq, plainValue, Prod.mk.injEq] at h
    obtain ⟨-, rfl⟩ := h
    intro comment hcomment
    unfold optional at hcomment
    split at hcomment
    · cases hcomment
    · rename_i hne
      cases hcomment
      have heq := cut_fst_append_snd isCommentStart s
      have hsub : ∀ c ∈ (cut isCommentStart s).2, c ∈ s := by
        intro c hc
        rw [← heq]
        exact List.mem_append_right _ hc
      obtain ⟨c, rest, hcons⟩ := List.exists_cons_of_ne_nil hne
      refine ⟨⟨c, rest, hcons, ?_⟩, ?_, fun hin => hline (hsub _ hin),
        fun hin => hzero (hsub _ hin)⟩
      · exact cut_snd_head (by rw [hcons]; rfl)
      · intro c hc
        refine hlast c ?_
        rw [← heq, List.getLast?_append_of_ne_nil _ hne]
        exact hc

theorem wellCommented_parseLine {sect' : Text} (hraw : IsRaw raw)
    (h : parseLine false sect raw = .line content sect' comment) : WellCommented comment := by
  have hline := hraw.newline_not_mem_trim
  have hzero := hraw.zero_not_mem_trim
  have hnone : WellCommented none := nofun
  unfold parseLine at h
  split at h
  · cases h
    exact hnone
  · rename_i c rest htrim
    rw [htrim] at hline hzero
    split at h
    · unfold parseHeader at h
      split at h
      · cases h
      · rename_i name tail hsplit
        have hsub : ∀ a ∈ tail, a ∈ c :: rest := by
          intro a ha
          rw [eq_of_splitHeader hsplit]
          simp [ha]
        simp only at h
        split at h
        · cases h
        · cases h
          exact fun comment hcomment => isComment_optional
            (head_trim_of_closesHeader (closesHeader_of_splitHeader hsplit))
            (fun hin => hline (hsub _ hin)) (fun hin => hzero (hsub _ hin)) hcomment
    · split at h
      · cases h
        exact hnone
      · unfold parseEntry at h
        split at h
        · cases h
        · rename_i eq value hvalue
          have hsub : ∀ a ∈ trim isSpace value, a ∈ c :: rest := by
            intro a ha
            rw [← cut_fst_append_snd (· = '=') (c :: rest), hvalue]
            simp [mem_of_mem_trim ha]
          simp only [Bool.false_eq_true, if_false] at h
          split at h
          · rename_i value' comment' hdecoded
            split at h
            · cases h
            · cases h
              exact wellCommented_decodeValue (fun a ha => trim_last ha)
                (fun hin => hline (hsub _ hin)) (fun hin => hzero (hsub _ hin)) hdecoded
          · cases h

/-- Only a header changes the section in force, and what a line is does not depend
on it. -/
theorem parseLine_resect {sect' : Text} (h : parseLine false sect raw = .line content sect' comment)
    (other : Text) :
    parseLine false other raw =
        .line content (if content = .header then sect' else other) comment ∧
      (content ≠ .header → sect' = sect) := by
  unfold parseLine at h ⊢
  split at h
  · cases h
    simp
  · split at h
    · rename_i hbracket
      rw [if_pos hbracket]
      unfold parseHeader at h ⊢
      split at h
      · cases h
      · simp only at h ⊢
        split at h
        · cases h
        · rename_i hname
          cases h
          simp [hname]
    · rename_i hbracket
      rw [if_neg hbracket]
      split at h
      · rename_i hstart
        cases h
        simp [hstart]
      · rename_i hstart
        rw [if_neg hstart]
        unfold parseEntry at h ⊢
        split at h
        · cases h
        · simp only [Bool.false_eq_true, if_false] at h ⊢
          split at h
          · split at h
            · cases h
            · rename_i hkey
              cases h
              simp [hkey]
          · cases h

theorem readLines_cons_eq_some {raws : List Text}
    (h : readLines false sect (raw :: raws) = some d) :
    ∃ content sect' comment rest, parseLine false sect raw = .line content sect' comment ∧
      readLines false sect' raws = some rest ∧
      d = ⟨some raw, sect', content, comment⟩ :: rest := by
  unfold readLines at h
  split at h
  · rename_i content sect' comment hparsed
    obtain ⟨rest, hrest, rfl⟩ := Option.map_eq_some_iff.mp h
    exact ⟨content, sect', comment, rest, hparsed, hrest, rfl⟩
  · simp at h

/-- The text is read back as the given line. -/
def ReadsAs (raw : Text) (l : Line) : Prop :=
  ∃ comment, ∀ sect, parseLine false sect raw =
    .line l.content (if l.content = .header then l.sect else sect) comment

/-- A line of a document in use: its original text is read back as the line, and
what was supplied by an editing call passed the test of that call. -/
structure LineOk (names keys : Text → Prop) (l : Line) : Prop where
  comment : WellCommented l.comment
  raw : ∀ raw ∈ l.raw, IsRaw raw ∧ ReadsAs raw l
  header : l.raw = none → l.content = .header →
    names l.sect ∧ l.sect ≠ [] ∧ validText l.sect = true
  entry : l.raw = none → ∀ key value, l.content = .entry key value →
    keys key ∧ key ≠ [] ∧ validText key = true ∧ '=' ∉ key ∧ validText value = true

/-- All lines of a document are well formed. -/
def DocumentOk (names keys : Text → Prop) (d : Document) : Prop :=
  ∀ l ∈ d, LineOk names keys l

/-- The editing calls with names and keys of the given kinds. -/
def Edit.Allowed (names keys : Text → Prop) : Edit → Prop
  | .set sect key _ => names sect ∧ keys key
  | .append sect key _ => names sect ∧ keys key
  | .rename _ name => names name
  | .remove _ => True

section Lines

variable {names keys : Text → Prop}

theorem lineOk_of_readLines {raws : List Text} (hraws : ∀ raw ∈ raws, IsRaw raw)
    (h : readLines false sect raws = some d) : DocumentOk names keys d := by
  induction raws generalizing sect d with
  | nil =>
    cases h
    exact nofun
  | cons raw raws ih =>
    obtain ⟨content, sect', comment, rest, hparsed, hrest, rfl⟩ := readLines_cons_eq_some h
    have hraw := hraws raw List.mem_cons_self
    intro l hl
    rcases List.mem_cons.mp hl with rfl | hl
    · refine ⟨wellCommented_parseLine hraw hparsed, ?_, nofun,
        nofun⟩
      intro raw' hraw'
      cases hraw'
      exact ⟨hraw, comment, fun other => (parseLine_resect hparsed other).1⟩
    · exact ih (fun raw hr => hraws raw (List.mem_cons_of_mem _ hr)) hrest l hl

theorem isRaw_of_mem_split (hzero : '\x00' ∉ bytes) (h : raw ∈ splitTerminated '\n' bytes) :
    IsRaw raw := by
  have hmem : ∀ c ∈ raw, c ∈ bytes := by
    intro c hc
    rw [← flatten_splitTerminated '\n' bytes]
    exact List.mem_flatten_of_mem h hc
  refine ⟨?_, fun hin => hzero (hmem _ hin)⟩
  rcases splitTerminated_piece h with ⟨hline, -⟩ | ⟨body, hbody, heq⟩
  · exact ⟨raw, hline, .inl rfl⟩
  · exact ⟨body, hbody, .inr heq⟩

/-- Every line of an accepted file is well formed. -/
theorem lineOk_of_read (h : read false bytes = some d) : DocumentOk names keys d := by
  unfold read at h
  simp only at h
  split at h
  · cases h
  · rename_i hlimits
    simp only [Bool.or_eq_true, decide_eq_true_eq, not_or] at hlimits
    split at h
    · cases h
    · rename_i d' hread
      split at h
      · cases h
        exact lineOk_of_readLines (fun raw hraw => isRaw_of_mem_split hlimits.1.2 hraw) hread
      · cases h

theorem parseLine_comment {comment : Text} (h : IsComment comment) (sect : Text) :
    parseLine false sect comment = .line .other sect none := by
  obtain ⟨c, rest, rfl, hstart⟩ := h.starts
  have htrim : trim isSpace (c :: rest) = c :: rest := by
    refine trim_eq_self ?_ h.trimmed
    intro a ha
    cases ha
    exact isSpace_of_isCommentStart hstart
  have hbracket : c ≠ '[' := by
    rintro rfl
    cases hstart
  unfold parseLine
  rw [htrim]
  simp [hbracket, hstart]

theorem isRaw_of_isComment {comment : Text} (h : IsComment comment) : IsRaw comment :=
  ⟨⟨comment, h.oneLine, .inl rfl⟩, h.noZero⟩

theorem validText_fold {a b : Text} (h : fold a = fold b) (ha : validText a = true) :
    validText b = true := by
  have hall : ∀ s : Text, validText s = (fold s).all (fun c => !isControl c) := by
    intro s
    simp [validText, fold, List.all_map, Function.comp_def]
  rw [hall] at ha ⊢
  rw [← h]
  exact ha

theorem lineOk_built (hcomment : WellCommented comment)
    (hheader : content = .header → names sect ∧ sect ≠ [] ∧ validText sect = true)
    (hentry : ∀ key value, content = .entry key value →
      keys key ∧ key ≠ [] ∧ validText key = true ∧ '=' ∉ key ∧ validText value = true) :
    LineOk names keys ⟨none, sect, content, comment⟩ :=
  ⟨hcomment, nofun, fun _ => hheader, fun _ => hentry⟩

theorem wellCommented_none : WellCommented none := nofun

/-- Appending an entry keeps the lines as a caller makes them. -/
theorem lineOk_append (hd : DocumentOk names keys d) (hsect : names sect) (hkey : keys key) :
    DocumentOk names keys (append d sect key value).1 := by
  unfold append
  split
  · exact hd
  · rename_i heditable
    simp only [editable, Bool.not_eq_true, Bool.not_eq_false', Bool.and_eq_true,
      decide_eq_true_eq] at heditable
    obtain ⟨⟨⟨⟨⟨hsectNe, hkeyNe⟩, hsectText⟩, hkeyText⟩, heq⟩, hvalue⟩ := heditable
    have hline : LineOk names keys ⟨none, sect, .entry key value, none⟩ := by
      refine lineOk_built wellCommented_none nofun ?_
      intro key' value' hcontent
      cases hcontent
      exact ⟨hkey, hkeyNe, hkeyText, heq, hvalue⟩
    have hheader : LineOk names keys ⟨none, sect, .header, none⟩ :=
      lineOk_built wellCommented_none (fun _ => ⟨hsect, hsectNe, hsectText⟩)
        nofun
    have hinsert : ∀ (d d' : Document) (place : Nat) (l : Line), insertLine d place l = some d' →
        DocumentOk names keys d → LineOk names keys l → DocumentOk names keys d' := by
      intro d d' place l hinserted hd hl l' hl'
      unfold insertLine at hinserted
      split at hinserted
      · cases hinserted
      · cases hinserted
        rcases List.mem_append.mp hl' with hin | hin
        · exact hd l' (List.mem_of_mem_take hin)
        · rcases List.mem_cons.mp hin with rfl | hin
          · exact hl
          · exact hd l' (List.mem_of_mem_drop hin)
    simp only
    split
    · split
      · rename_i d' hinserted
        exact hinsert d d' _ _ hinserted hd hline
      · exact hd
    · split
      · exact hd
      · rename_i d' hinserted
        have hd' := hinsert d d' _ _ hinserted hd hheader
        split
        · rename_i d'' hinserted'
          exact hinsert d' d'' _ _ hinserted' hd' hline
        · exact hd'

/-- One turn of the loop of `sm_ini_set`. -/
theorem lineOk_setLine (hkeys : ∀ a b, fold a = fold b → keys a → keys b) {value : Option Text}
    {stored : Bool} (hl : LineOk names keys l) (hkey : keys key)
    (heditable : editable sect key value = true) :
    LineOk names keys (setLine sect key value stored l).1 := by
  simp only [editable, Bool.and_eq_true, decide_eq_true_eq] at heditable
  obtain ⟨⟨⟨⟨⟨-, hkeyNe⟩, -⟩, hkeyText⟩, heq⟩, hvalue⟩ := heditable
  unfold setLine
  split
  · rename_i k old hcontent
    split
    · exact hl
    · rename_i hmatch
      simp only [Bool.or_eq_true, Bool.not_eq_true', not_or, Bool.not_eq_false,
        sameNoCase_iff] at hmatch
      split
      · -- the value is stored under the key the line already has
        rename_i value _
        refine lineOk_built hl.comment nofun ?_
        intro key' value' hcontent'
        cases hcontent'
        refine ⟨hkeys key k hmatch.2 hkey, ?_, validText_fold hmatch.2 hkeyText, ?_, hvalue⟩
        · rintro rfl
          have hlength := congrArg List.length hmatch.2
          simp only [length_fold, List.length_nil, List.length_eq_zero_iff] at hlength
          exact hkeyNe hlength
        · exact fun hin => heq (mem_of_fold_eq hmatch.2.symm rfl hin)
      · -- the line is retired and keeps its comment
        refine ⟨wellCommented_none, ?_, ?_, ?_⟩
        · intro raw hraw
          have hcomment := hl.comment raw hraw
          exact ⟨isRaw_of_isComment hcomment, none, fun sect => parseLine_comment hcomment sect⟩
        · exact nofun
        · exact nofun
  · exact hl

theorem lineOk_set (hkeys : ∀ a b, fold a = fold b → keys a → keys b) {value : Option Text}
    (hd : DocumentOk names keys d) (hsect : names sect) (hkey : keys key) :
    DocumentOk names keys (set d sect key value).1 := by
  unfold set
  split
  · exact hd
  · rename_i heditable
    rw [Bool.not_eq_true, Bool.not_eq_false'] at heditable
    have hlines : ∀ stored, DocumentOk names keys (setLines sect key value stored d).1 := by
      clear hsect
      induction d with
      | nil => exact nofun
      | cons l d ih =>
        intro stored l' hl'
        rcases List.mem_cons.mp hl' with rfl | hin
        · exact lineOk_setLine hkeys (hd l List.mem_cons_self) hkey heditable
        · exact ih (fun l hl => hd l (List.mem_cons_of_mem _ hl)) _ l' hin
    simp only
    split
    · exact hlines false
    · split
      · exact hlines false
      · exact lineOk_append (hlines false) hsect hkey

theorem lineOk_renameLine {old name : Text} (hl : LineOk names keys l) (hname : names name)
    (hne : name ≠ []) (htext : validText name = true) :
    LineOk names keys (renameLine old name l) := by
  unfold renameLine
  split
  · exact hl
  · split
    · rename_i hheader
      refine ⟨hl.comment, nofun, fun _ _ => ⟨hname, hne, htext⟩, ?_⟩
      intro _ key value hentry
      simp only at hentry
      rw [hheader] at hentry
      cases hentry
    · rename_i hheader
      refine ⟨hl.comment, ?_, fun _ h => absurd h hheader, hl.entry⟩
      intro raw hraw
      obtain ⟨hisRaw, comment, hread⟩ := hl.raw raw hraw
      refine ⟨hisRaw, comment, fun sect => ?_⟩
      simpa [hheader] using hread sect

/-- Every editing call keeps the lines well formed. -/
theorem lineOk_edit (hkeys : ∀ a b, fold a = fold b → keys a → keys b) {e : Edit}
    (hd : DocumentOk names keys d) (he : e.Allowed names keys) :
    DocumentOk names keys (edit d e) := by
  cases e with
  | set sect key value => exact lineOk_set hkeys hd he.1 he.2
  | append sect key value => exact lineOk_append hd he.1 he.2
  | rename old name =>
    simp only [edit, renameSection]
    split
    · exact hd
    · rename_i htest
      simp only [Bool.or_eq_true, decide_eq_true_eq, Bool.not_eq_true', not_or,
        Bool.not_eq_false] at htest
      intro l hl
      obtain ⟨l', hl', rfl⟩ := List.mem_map.mp hl
      exact lineOk_renameLine (hd l' hl') he htest.1 htest.2
  | remove sect => exact fun l hl => hd l (List.mem_of_mem_filter hl)

/-- The physical lines a line is written as. -/
def physical (l : Line) : List Text :=
  match l.raw, l.content with
  | some raw, _ => [if raw.getLast? = some '\n' then raw else raw ++ ['\n']]
  | none, .header => [['\n'], '[' :: l.sect ++ ']' :: commentText l.comment ++ ['\n']]
  | none, .entry key value =>
    [key ++ ' ' :: '=' :: ' ' :: encodeValue value ++ commentText l.comment ++ ['\n']]
  | none, .other => []

theorem lineText_eq_physical (h : LineOk names keys l) :
    lineText l = some (physical l).flatten := by
  obtain ⟨raw, sect, content, comment⟩ := l
  cases raw with
  | some raw => simp [lineText, physical]
  | none =>
    cases content with
    | header => simp [lineText, physical]
    | entry key value =>
      have hvalue := (h.entry rfl key value rfl).2.2.2.2
      simp [lineText, physical, hvalue]
    | other => rfl

theorem mem_encodeValue (h : c ∈ encodeValue value) : c ∈ value ∨ c = '"' ∨ c = '\\' := by
  unfold encodeValue at h
  split at h
  · simp only [List.cons_append, List.mem_cons, List.mem_append, List.not_mem_nil, or_false,
      escape, List.mem_flatMap] at h
    rcases h with hquote | ⟨a, ha, hc⟩ | hquote
    · exact .inr (.inl hquote)
    · split at hc
      · simp only [List.mem_cons, List.not_mem_nil, or_false] at hc
        rcases hc with hslash | rfl
        · exact .inr (.inr hslash)
        · exact .inl ha
      · rw [List.mem_singleton] at hc
        rw [hc]
        exact .inl ha
    · exact .inr (.inl hquote)
  · exact .inl h

/-- A character that neither punctuation nor valid text contains is not in the text
of a rebuilt line. -/
theorem not_mem_built (h : LineOk names keys l) (hpunct : c ∉ ['[', ']', ' ', '=', '"', '\\'])
    (htext : ∀ s : Text, validText s = true → c ∉ s)
    (hcomment : ∀ comment, IsComment comment → c ∉ comment) :
    c ∉ commentText l.comment ∧
      (l.raw = none → l.content = .header → c ∉ '[' :: l.sect ++ ']' :: commentText l.comment) ∧
      (l.raw = none → ∀ key value, l.content = .entry key value →
        c ∉ key ++ ' ' :: '=' :: ' ' :: encodeValue value ++ commentText l.comment) := by
  simp only [List.mem_cons, List.not_mem_nil, or_false, not_or] at hpunct
  obtain ⟨hopen, hclose, hspace, heq, hquote, hslash⟩ := hpunct
  have htail : c ∉ commentText l.comment := by
    cases hl : l.comment with
    | none => simp [commentText]
    | some comment =>
      have hnot := hcomment comment (h.comment comment hl)
      simp [commentText, hspace, hnot]
  refine ⟨htail, ?_, ?_⟩
  · intro hraw hheader
    have hsect := htext _ (h.header hraw hheader).2.2
    simp [hopen, hclose, hsect, htail]
  · intro hraw key value hcontent
    obtain ⟨-, -, hkey, -, hvalue⟩ := h.entry hraw key value hcontent
    have hencoded : c ∉ encodeValue value := by
      intro hin
      rcases mem_encodeValue hin with hin | rfl | rfl
      · exact htext value hvalue hin
      · exact hquote rfl
      · exact hslash rfl
    simp [hspace, heq, htext key hkey, hencoded, htail]

/-- Every physical line ends with its newline. -/
theorem physical_terminated (h : LineOk names keys l) :
    ∀ text ∈ physical l, ∃ body, '\n' ∉ body ∧ text = body ++ ['\n'] := by
  obtain ⟨-, hheader, hentry⟩ := not_mem_built h (c := '\n') (by decide)
    (fun _ => newline_not_mem_of_validText) (fun _ hcomment => hcomment.oneLine)
  intro text htext
  unfold physical at htext
  split at htext
  · rename_i raw hraw
    rw [List.mem_singleton] at htext
    obtain ⟨body, hbody, hcases⟩ := (h.raw raw hraw).1.oneLine
    refine ⟨body, hbody, ?_⟩
    rw [htext]
    rcases hcases with rfl | rfl
    · rw [if_neg]
      exact fun hlast => hbody (List.mem_of_mem_getLast? hlast)
    · simp
  · rename_i hraw hcontent
    simp only [List.mem_cons, List.not_mem_nil, or_false] at htext
    rcases htext with rfl | rfl
    · exact ⟨[], by simp, rfl⟩
    · exact ⟨_, hheader hraw hcontent, rfl⟩
  · rename_i key value hraw hcontent
    rw [List.mem_singleton] at htext
    exact ⟨_, hentry hraw key value hcontent, htext⟩
  · cases htext

theorem physical_noZero (h : LineOk names keys l) : ∀ text ∈ physical l, '\x00' ∉ text := by
  obtain ⟨-, hheader, hentry⟩ := not_mem_built h (c := '\x00') (by decide)
    (fun _ => zero_not_mem_of_validText) (fun _ hcomment => hcomment.noZero)
  intro text htext
  unfold physical at htext
  split at htext
  · rename_i raw hraw
    have hzero := (h.raw raw hraw).1.noZero
    rw [List.mem_singleton] at htext
    rw [htext]
    split
    · exact hzero
    · simp [hzero]
  · rename_i hraw hcontent
    have hnot := hheader hraw hcontent
    simp only [List.mem_cons, List.not_mem_nil, or_false] at htext
    rcases htext with rfl | rfl
    · decide
    · rw [List.mem_append, not_or]
      exact ⟨hnot, by decide⟩
  · rename_i key value hraw hcontent
    have hnot := hentry hraw key value hcontent
    rw [List.mem_singleton] at htext
    rw [htext, List.mem_append, not_or]
    exact ⟨hnot, by decide⟩
  · cases htext

/-- The physical lines of a published file. -/
theorem splitTerminated_write (hd : DocumentOk names keys d) (h : write d = some bytes) :
    splitTerminated '\n' bytes = d.flatMap physical ∧ bytes.length ≤ maxBytes ∧
      '\x00' ∉ bytes := by
  have htexts : d.mapM lineText = some (d.map fun l => (physical l).flatten) := by
    clear h
    induction d with
    | nil => rfl
    | cons l d ih =>
      have hl := lineText_eq_physical (hd l List.mem_cons_self)
      have hrest := ih (fun l hl => hd l (List.mem_cons_of_mem _ hl))
      rw [List.mapM_cons, hl, hrest]
      rfl
  have hflatten : (d.map fun l => (physical l).flatten).flatten = (d.flatMap physical).flatten := by
    clear h htexts hd
    induction d with
    | nil => rfl
    | cons l d ih => simp [ih]
  unfold write at h
  rw [htexts] at h
  simp only [hflatten] at h
  split at h
  · rename_i hsize
    cases h
    refine ⟨splitTerminated_flatten ?_, hsize, ?_⟩
    · intro text htext
      obtain ⟨l, hl, hin⟩ := List.mem_flatMap.mp htext
      exact physical_terminated (hd l hl) text hin
    · intro hin
      obtain ⟨text, htext, hzero⟩ := List.mem_flatten.mp hin
      obtain ⟨l, hl, hphysical⟩ := List.mem_flatMap.mp htext
      exact physical_noZero (hd l hl) text hphysical hzero
  · cases h

end Lines

end ShadowMount.Ini
