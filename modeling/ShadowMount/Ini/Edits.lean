import ShadowMount.Ini.Document

/-!
# Ini documents - what an edit changes

An edit of one key touches every entry of that key in its section, wherever these
stand: the first keeps its place and takes the value, the others are retired.  This
file shows that nothing else is touched, neither in the answers of the document nor
in the text that the writer emits.

Main results:

- Theorem {lit}`set_editLaw`: in addition, the writer emits every untouched line as
  it was read and keeps the comments of the touched ones.
-/

namespace ShadowMount.Ini

open Foundation

variable {d d' : Document} {l : Line} {sect key sect' key' : Text} {value : Option Text}
  {stored : Bool}
variable {v comment s : Text} {legacy : Bool}

@[simp]
theorem get_nil (sect key : Text) : get [] sect key = none := rfl

theorem get_append (d e : Document) (sect key : Text) :
    get (d ++ e) sect key = (get e sect key).or (get d sect key) := by
  unfold get
  rw [List.reverse_append, List.findSome?_append]

theorem get_cons (l : Line) (d : Document) (sect key : Text) :
    get (l :: d) sect key = (get d sect key).or (l.valueFor sect key) := by
  have happend := get_append [l] d sect key
  rwa [List.singleton_append, show get [l] sect key = l.valueFor sect key by simp [get]] at happend

/-- Two ways to write the same section and key. -/
def SamePair (sect key sect' key' : Text) : Prop :=
  fold sect' = fold sect ∧ fold key' = fold key

theorem valueFor_eq_some_iff :
    l.valueFor sect key = some v ↔
      ∃ k, l.content = .entry k v ∧ fold sect = fold l.sect ∧ fold key = fold k := by
  unfold Line.valueFor
  cases hcontent : l.content with
  | header => simp
  | other => simp
  | entry k v' =>
    simp only [sameNoCase, Bool.and_eq_true, decide_eq_true_eq]
    constructor
    · intro h
      split at h
      · rename_i hmatch
        cases h
        exact ⟨k, rfl, hmatch⟩
      · cases h
    · rintro ⟨k', hentry, hmatch⟩
      cases hentry
      rw [if_pos hmatch]

theorem valueFor_entry {raw comment : Option Text} {k : Text} (hsect : fold sect = fold s)
    (hkey : fold key = fold k) :
    (⟨raw, s, .entry k v, comment⟩ : Line).valueFor sect key = some v :=
  valueFor_eq_some_iff.mpr ⟨k, rfl, hsect, hkey⟩

theorem valueFor_other (hpair : ¬ SamePair sect key sect' key')
    (h : (l.valueFor sect key).isSome = true) : l.valueFor sect' key' = none := by
  obtain ⟨v, hv⟩ := Option.isSome_iff_exists.mp h
  obtain ⟨k, hcontent, hsect, hkey⟩ := valueFor_eq_some_iff.mp hv
  by_contra hother
  obtain ⟨v', hv'⟩ := Option.ne_none_iff_exists'.mp hother
  obtain ⟨k', hcontent', hsect', hkey'⟩ := valueFor_eq_some_iff.mp hv'
  rw [hcontent] at hcontent'
  cases hcontent'
  exact hpair ⟨hsect'.trans hsect.symm, hkey'.trans hkey.symm⟩

/-- What one turn does to a line: nothing, or it stores the value in an entry of the
key, or it retires such an entry. -/
theorem setLine_cases (sect key : Text) (value : Option Text) (stored : Bool) (l : Line) :
    (l.valueFor sect key = none ∧ setLine sect key value stored l = (l, stored)) ∨
      (∃ k v, (l.valueFor sect key).isSome = true ∧ value = some v ∧ stored = false ∧
        fold sect = fold l.sect ∧ fold key = fold k ∧
        setLine sect key value stored l =
          ({ l with raw := none, content := .entry k v }, true)) ∨
      ((l.valueFor sect key).isSome = true ∧ (value = none ∨ stored = true) ∧
        setLine sect key value stored l =
          ({ l with raw := l.comment, content := .other, comment := none }, stored)) := by
  unfold setLine
  cases hcontent : l.content with
  | header => exact .inl ⟨by simp [Line.valueFor, hcontent], rfl⟩
  | other => exact .inl ⟨by simp [Line.valueFor, hcontent], rfl⟩
  | entry k old =>
    dsimp only
    split
    · rename_i hno
      refine .inl ⟨?_, rfl⟩
      simp only [Line.valueFor, hcontent]
      rw [if_neg (by simpa [or_iff_not_imp_left] using hno)]
    · rename_i hmatch
      simp only [Bool.or_eq_true, Bool.not_eq_true', not_or, Bool.not_eq_false,
        sameNoCase_iff] at hmatch
      have hfound : (l.valueFor sect key).isSome = true := by
        rw [valueFor_eq_some_iff.mpr ⟨k, hcontent, hmatch.1, hmatch.2⟩]
        rfl
      cases value with
      | none => exact .inr (.inr ⟨hfound, .inl rfl, rfl⟩)
      | some v =>
        cases stored with
        | false =>
          exact .inr (.inl ⟨k, v, hfound, rfl, rfl, hmatch.1, hmatch.2, rfl⟩)
        | true => exact .inr (.inr ⟨hfound, .inr rfl, rfl⟩)

theorem valueFor_setLine_other (hpair : ¬ SamePair sect key sect' key') :
    (setLine sect key value stored l).1.valueFor sect' key' = l.valueFor sect' key' := by
  rcases setLine_cases sect key value stored l with
    ⟨-, heq⟩ | ⟨k, v, hfound, -, -, hsect, hkey, heq⟩ | ⟨hfound, -, heq⟩
  · rw [heq]
  · rw [heq, valueFor_other hpair hfound]
    refine valueFor_other hpair ?_
    rw [valueFor_entry hsect hkey]
    rfl
  · rw [heq, valueFor_other hpair hfound]
    rfl

theorem get_setLines_other (hpair : ¬ SamePair sect key sect' key') (stored : Bool) :
    get (setLines sect key value stored d).1 sect' key' = get d sect' key' := by
  induction d generalizing stored with
  | nil => rfl
  | cons l d ih =>
    simp only [setLines, get_cons]
    rw [ih, valueFor_setLine_other hpair]

/-- What a key has after it was set. -/
theorem get_setLines_self (d : Document) (sect key : Text) (value : Option Text) (stored : Bool) :
    get (setLines sect key value stored d).1 sect key =
      if stored = false ∧ (setLines sect key value stored d).2 = true then value else none := by
  induction d generalizing stored with
  | nil => cases stored <;> rfl
  | cons l d ih =>
    simp only [setLines, get_cons]
    rw [ih]
    rcases setLine_cases sect key value stored l with
      ⟨hnone, heq⟩ | ⟨k, v, -, rfl, rfl, hsect, hkey, heq⟩ | ⟨-, hretired, heq⟩
    · simp only [heq, hnone, Option.or_none]
    · -- The value is stored here, and retired in the rest.
      have hrest : (setLines sect key (some v) true d).2 = true := by
        clear ih
        induction d with
        | nil => rfl
        | cons l' d ih' =>
          simp only [setLines]
          rcases setLine_cases sect key (some v) true l' with
            ⟨-, h⟩ | ⟨-, -, -, -, hfalse, -⟩ | ⟨-, -, h⟩
          · rw [h]
            exact ih'
          · cases hfalse
          · rw [h]
            exact ih'
      simp only [heq, hrest]
      rw [valueFor_entry hsect hkey]
      rfl
    · simp only [heq]
      have hother : (⟨l.comment, l.sect, .other, none⟩ : Line).valueFor sect key = none := rfl
      rw [hother, Option.or_none]

/-- Every way an entry is added: behind the lines of its section, or with a new
header at the end. -/
theorem append_cases (h : append d sect key v = (d', true)) :
    ∃ front added back : Document, d = front ++ back ∧ d' = front ++ added ++ back ∧
      (added = [⟨none, sect, .entry key v, none⟩] ∨
        added = [⟨none, sect, .header, none⟩, ⟨none, sect, .entry key v, none⟩] ∧ back = []) := by
  unfold append at h
  split at h
  · cases h
  · cases hplace : sectionEnd sect d with
    | some place =>
      simp only [hplace, insertLine] at h
      split at h
      · rename_i d₁ hinsert
        split at hinsert
        · cases hinsert
        · cases hinsert
          cases h
          exact ⟨d.take place, [_], d.drop place, (List.take_append_drop _ _).symm,
            by rw [List.append_assoc, List.singleton_append], .inl rfl⟩
      · cases h
    | none =>
      simp only [hplace, insertLine] at h
      split at h
      · cases h
      · rename_i d₁ hinsert
        split at hinsert
        · cases hinsert
        · cases hinsert
          split at h
          · rename_i d₂ hinsert₂
            split at hinsert₂
            · cases hinsert₂
            · cases hinsert₂
              cases h
              refine ⟨d, [_, _], [], (List.append_nil d).symm, ?_, .inr ⟨rfl, rfl⟩⟩
              simp only [List.take_length, List.drop_length, List.append_assoc,
                List.singleton_append, List.append_nil]
          · cases h

/-- An added entry answers for its pair. -/
theorem get_append_self (h : append d sect key v = (d', true)) (hnone : get d sect key = none) :
    get d' sect key = some v := by
  obtain ⟨front, added, back, rfl, rfl, hadded⟩ := append_cases h
  have hentry : get added sect key = some v := by
    rcases hadded with rfl | ⟨rfl, -⟩
    · rw [get_cons, valueFor_entry rfl rfl, get_nil, Option.none_or]
    · rw [get_cons, get_cons, valueFor_entry rfl rfl]
      rfl
  rw [get_append, Option.or_eq_none_iff] at hnone
  rw [get_append, get_append, hnone.1, hentry]
  rfl

theorem get_append_other (h : append d sect key v = (d', true))
    (hpair : ¬ SamePair sect key sect' key') : get d' sect' key' = get d sect' key' := by
  obtain ⟨front, added, back, rfl, rfl, hadded⟩ := append_cases h
  have hentry : (⟨none, sect, .entry key v, none⟩ : Line).valueFor sect key = some v :=
    valueFor_entry rfl rfl
  have hother := valueFor_other hpair (Option.isSome_iff_exists.mpr ⟨v, hentry⟩)
  have hnone : get added sect' key' = none := by
    rcases hadded with rfl | ⟨rfl, -⟩
    · rw [get_cons, hother]
      rfl
    · rw [get_cons, get_cons, hother]
      rfl
  rw [get_append, get_append, hnone, get_append, Option.none_or]

/-- What a successful edit has done: the lines of the document in their places, and
up to two lines added. -/
theorem set_cases (h : set d sect key value = (d', true)) :
    d' = (setLines sect key value false d).1 ∧
        (value = none ∨ (setLines sect key value false d).2 = true) ∨
      ∃ v, value = some v ∧ (setLines sect key value false d).2 = false ∧
        append (setLines sect key value false d).1 sect key v = (d', true) := by
  unfold set at h
  split at h
  · cases h
  · cases value with
    | none =>
      cases h
      exact .inl ⟨rfl, .inl rfl⟩
    | some v =>
      dsimp only at h
      split at h
      · rename_i hstored
        cases h
        exact .inl ⟨rfl, .inr hstored⟩
      · rename_i hstored
        exact .inr ⟨v, rfl, by simpa using hstored, h⟩

/-- The key has the given value afterwards. -/
theorem get_set_self (h : set d sect key value = (d', true)) : get d' sect key = value := by
  have hloop := get_setLines_self d sect key value false
  rcases set_cases h with ⟨rfl, rfl | hstored⟩ | ⟨v, rfl, hstored, happend⟩
  · rw [hloop]
    split <;> rfl
  · rw [hloop, if_pos ⟨rfl, hstored⟩]
  · refine get_append_self happend ?_
    rw [hloop, if_neg (by simp [hstored])]

/-- Every other key has the value it had. -/
theorem get_set_other (h : set d sect key value = (d', true))
    (hpair : ¬ SamePair sect key sect' key') : get d' sect' key' = get d sect' key' := by
  rcases set_cases h with ⟨rfl, -⟩ | ⟨v, rfl, -, happend⟩
  · exact get_setLines_other hpair false
  · rw [get_append_other happend hpair]
    exact get_setLines_other hpair false

/-- A line of text with its end. -/
def terminated (raw : Text) : Text :=
  if raw.getLast? = some '\n' then raw else raw ++ ['\n']

/-- What the writer emits for a line of the document before an edit: an untouched line
is emitted as it was read, and a touched one ends with the comment it had. -/
structure Emitted (sect key : Text) (l : Line) (text : Text) : Prop where
  untouched : l.valueFor sect key = none → ∃ raw, l.raw = some raw ∧ text = terminated raw
  comment : ∀ comment, l.comment = some comment → (l.valueFor sect key).isSome = true →
    (comment ++ ['\n']) <:+ text

theorem lineText_setLine {raw text : Text} (hraw : l.raw = some raw)
    (htrimmed : ∀ comment ∈ l.comment, comment.getLast? ≠ some '\n')
    (h : lineText (setLine sect key value stored l).1 = some text) :
    Emitted sect key l text := by
  rcases setLine_cases sect key value stored l with
    ⟨hnone, heq⟩ | ⟨k, v, hfound, -, -, -, -, heq⟩ | ⟨hfound, -, heq⟩
  · refine ⟨fun _ => ⟨raw, hraw, ?_⟩, fun _ _ hsome => ?_⟩
    · rw [heq] at h
      simp only [lineText, hraw] at h
      exact (Option.some.inj h).symm
    · rw [hnone] at hsome
      cases hsome
  · refine ⟨fun hnone => ?_, fun comment hcomment _ => ?_⟩
    · rw [hnone] at hfound
      cases hfound
    · rw [heq] at h
      simp only [lineText, hcomment, commentText] at h
      split at h
      · cases h
        exact ⟨k ++ ' ' :: '=' :: ' ' :: encodeValue v ++ [' '], by simp⟩
      · cases h
  · refine ⟨fun hnone => ?_, fun comment hcomment _ => ?_⟩
    · rw [hnone] at hfound
      cases hfound
    · rw [heq] at h
      simp only [lineText, hcomment, if_neg (htrimmed comment hcomment)] at h
      exact (Option.some.inj h) ▸ List.suffix_rfl

theorem lineTexts_setLines {texts : List Text} (stored : Bool)
    (hraw : ∀ l ∈ d, l.raw.isSome = true)
    (htrimmed : ∀ l ∈ d, ∀ comment ∈ l.comment, comment.getLast? ≠ some '\n')
    (h : (setLines sect key value stored d).1.mapM lineText = some texts) :
    List.Forall₂ (Emitted sect key) d texts := by
  induction d generalizing stored texts with
  | nil =>
    cases h
    exact List.Forall₂.nil
  | cons l d ih =>
    simp only [setLines, List.mapM_cons, Option.bind_eq_bind, Option.bind_eq_some_iff,
      Option.pure_def, Option.some.injEq] at h
    obtain ⟨text, htext, rest, hrest, rfl⟩ := h
    obtain ⟨raw, hl⟩ := Option.isSome_iff_exists.mp (hraw l List.mem_cons_self)
    refine List.Forall₂.cons (lineText_setLine hl (htrimmed l List.mem_cons_self) htext) ?_
    exact ih _ (fun l' hl' => hraw l' (List.mem_cons_of_mem l hl'))
      (fun l' hl' => htrimmed l' (List.mem_cons_of_mem l hl')) hrest

/-- The text ends with no space. -/
def EndsClean (s : Text) : Prop := ∀ c ∈ s.getLast?, isSpace c = false

theorem EndsClean.newline (h : EndsClean s) : s.getLast? ≠ some '\n' :=
  fun hlast => absurd (h '\n' hlast) (by decide)

theorem endsClean_trim (s : Text) : EndsClean (trim isSpace s) := fun _ hc => trim_last hc

theorem endsClean_optional (hs : EndsClean s) (h : optional s = some comment) :
    EndsClean comment := by
  unfold optional at h
  split at h
  · cases h
  · cases h
    exact hs

theorem endsClean_plainValue (hs : EndsClean s) (h : (plainValue s).2 = some comment) :
    EndsClean comment := by
  refine endsClean_optional ?_ h
  intro c hc
  refine hs c ?_
  have hne : (cut isCommentStart s).2 ≠ [] := by
    intro hnil
    rw [hnil] at hc
    cases hc
  rw [← cut_fst_append_snd isCommentStart s, List.getLast?_append_of_ne_nil _ hne]
  exact hc

theorem endsClean_decodeValue {value : Text} (hs : EndsClean s)
    (h : decodeValue s = some (value, some comment)) : EndsClean comment := by
  unfold decodeValue at h
  split at h
  · split at h
    · cases h
    · rename_i tail _
      have htail := endsClean_trim tail
      split at h
      · cases h
      · rename_i c rest htrim
        split at h
        · cases h
          rwa [htrim] at htail
        · cases h
  · refine endsClean_plainValue hs ?_
    rw [Option.some.inj h]

theorem endsClean_parseLine {raw : Text} {content : Content}
    (h : parseLine legacy sect raw = .line content sect' (some comment)) : EndsClean comment := by
  unfold parseLine at h
  split at h
  · cases h
  · split at h
    · unfold parseHeader at h
      split at h
      · cases h
      · rename_i name tail _
        dsimp only at h
        split at h
        · cases h
        · simp only [Parsed.line.injEq] at h
          exact endsClean_optional (endsClean_trim tail) h.2.2
    · split at h
      · cases h
      · unfold parseEntry at h
        split at h
        · cases h
        · rename_i value _
          dsimp only at h
          have hvalue := endsClean_trim value
          split at h
          · rename_i v comment' hdecoded
            split at h
            · cases h
            · cases h
              split at hdecoded
              · exact endsClean_plainValue hvalue (by rw [Option.some.inj hdecoded])
              · exact endsClean_decodeValue hvalue hdecoded
          · cases h

/-- A line that was read has its text, and a comment that ends cleanly. -/
theorem mem_readLines {raws : List Text} (h : readLines legacy sect raws = some d) (hl : l ∈ d) :
    (∃ raw ∈ raws, l.raw = some raw) ∧
      ∀ comment, l.comment = some comment → EndsClean comment := by
  induction raws generalizing sect d with
  | nil =>
    cases h
    cases hl
  | cons raw raws ih =>
    have hlater : ∀ {sect' d'}, readLines legacy sect' raws = some d' → l ∈ d' →
        (∃ raw' ∈ raw :: raws, l.raw = some raw') ∧
          ∀ comment, l.comment = some comment → EndsClean comment := by
      intro sect' d' hrest hmem
      obtain ⟨⟨raw', hraw', heq⟩, hcomment⟩ := ih hrest hmem
      exact ⟨⟨raw', List.mem_cons_of_mem raw hraw', heq⟩, hcomment⟩
    unfold readLines at h
    split at h
    · rename_i content sect' comment hparsed
      obtain ⟨rest, hrest, rfl⟩ := Option.map_eq_some_iff.mp h
      rcases List.mem_cons.mp hl with rfl | hl
      · refine ⟨⟨raw, List.mem_cons_self, rfl⟩, fun c hc => ?_⟩
        dsimp only at hc
        rw [hc] at hparsed
        exact endsClean_parseLine hparsed
      · exact hlater hrest hl
    · split at h
      · exact hlater h hl
      · cases h

theorem mem_read {bytes : Text} (h : read legacy bytes = some d) (hl : l ∈ d) :
    (∃ raw ∈ splitTerminated '\n' bytes, l.raw = some raw) ∧
      ∀ comment, l.comment = some comment → EndsClean comment := by
  unfold read at h
  dsimp only at h
  split at h
  · cases h
  · split at h
    · cases h
    · rename_i d₁ hlines
      split at h
      · cases h
        exact mem_readLines hlines hl
      · cases h

/-- The law of an edit: the key has the given value, every other key has the value it had,
and the text that the writer emits holds a piece for every line of the document before
the edit, in their order, and at most two pieces more. -/
structure EditLaw (d : Document) (sect key : Text) (value : Option Text) (d' : Document) :
    Prop where
  stored : get d' sect key = value
  others : ∀ sect' key', ¬ SamePair sect key sect' key' → get d' sect' key' = get d sect' key'
  written : ∀ bytes, write d' = some bytes → ∃ pieces texts : List Text,
    bytes = pieces.flatten ∧ texts.Sublist pieces ∧ pieces.length ≤ texts.length + 2 ∧
      List.Forall₂ (Emitted sect key) d texts

theorem length_lineTexts {pieces : List Text} (h : d.mapM lineText = some pieces) :
    pieces.length = d.length := by
  induction d generalizing pieces with
  | nil =>
    cases h
    rfl
  | cons l d ih =>
    simp only [List.mapM_cons, Option.bind_eq_bind, Option.bind_eq_some_iff, Option.pure_def,
      Option.some.injEq] at h
    obtain ⟨text, -, rest, hrest, rfl⟩ := h
    rw [List.length_cons, List.length_cons, ih hrest]

theorem lineTexts_sublist {front back added : Document} {pieces : List Text}
    (h : (front ++ added ++ back).mapM lineText = some pieces) :
    ∃ texts, (front ++ back).mapM lineText = some texts ∧ texts.Sublist pieces ∧
      pieces.length = texts.length + added.length := by
  simp only [List.mapM_append, Option.bind_eq_bind, Option.bind_eq_some_iff, Option.pure_def,
    Option.some.injEq] at h
  obtain ⟨first, ⟨front', hfront, added', hadded, rfl⟩, back', hback, rfl⟩ := h
  refine ⟨front' ++ back', ?_, ?_, ?_⟩
  · simp [List.mapM_append, hfront, hback]
  · exact (List.sublist_append_left front' added').append (List.Sublist.refl back')
  · have hlength : added'.length = added.length := length_lineTexts hadded
    simp only [List.length_append]
    omega

/-- An edit of an accepted document obeys the law. -/
theorem set_editLaw {legacy : Bool} {bytes : Text} (hread : read legacy bytes = some d)
    (hset : set d sect key value = (d', true)) : EditLaw d sect key value d' := by
  refine ⟨get_set_self hset, fun _ _ hpair => get_set_other hset hpair, fun out hwrite => ?_⟩
  have hraw : ∀ l ∈ d, l.raw.isSome = true := by
    intro l hl
    obtain ⟨⟨raw, -, heq⟩, -⟩ := mem_read hread hl
    rw [heq]
    rfl
  have htrimmed : ∀ l ∈ d, ∀ comment ∈ l.comment, comment.getLast? ≠ some '\n' :=
    fun l hl comment hcomment => ((mem_read hread hl).2 comment hcomment).newline
  have hpieces : ∃ pieces, d'.mapM lineText = some pieces ∧ out = pieces.flatten := by
    unfold write at hwrite
    split at hwrite
    · cases hwrite
    · rename_i pieces hmap
      split at hwrite
      · exact ⟨pieces, hmap, (Option.some.inj hwrite).symm⟩
      · cases hwrite
  obtain ⟨pieces, hmap, rfl⟩ := hpieces
  rcases set_cases hset with ⟨rfl, -⟩ | ⟨v, rfl, -, happend⟩
  · exact ⟨pieces, pieces, rfl, List.Sublist.refl _, by omega,
      lineTexts_setLines false hraw htrimmed hmap⟩
  · obtain ⟨front, added, back, hsplit, rfl, hadded⟩ := append_cases happend
    have hlength : added.length ≤ 2 := by rcases hadded with rfl | ⟨rfl, -⟩ <;> simp
    obtain ⟨texts, htexts, hsub, hcount⟩ := lineTexts_sublist hmap
    rw [← hsplit] at htexts
    exact ⟨pieces, texts, rfl, hsub, by omega, lineTexts_setLines false hraw htrimmed htexts⟩

/-- A file with a key twice in a section that is opened twice. -/
def reopenedFile : Text :=
  "# top\n[scan]\ndepth = 1 # first\n[mount]\nforce = on\n[SCAN]\nDepth = 2 ; last".toList

/-- The first entry takes the value, the second is retired, and its comment stays. -/
theorem set_editLaw_reopened :
    EditLaw ((read false reopenedFile).getD []) "scan".toList "depth".toList (some "3".toList)
        (set ((read false reopenedFile).getD []) "scan".toList "depth".toList
          (some "3".toList)).1 ∧
      write (set ((read false reopenedFile).getD []) "scan".toList "depth".toList
          (some "3".toList)).1 =
        some "# top\n[scan]\ndepth = 3 # first\n[mount]\nforce = on\n[SCAN]\n; last\n".toList := by
  have hread : read false reopenedFile = some ((read false reopenedFile).getD []) := by
    decide +kernel
  have hset : (set ((read false reopenedFile).getD []) "scan".toList "depth".toList
      (some "3".toList)).2 = true := by
    decide +kernel
  exact ⟨set_editLaw hread (Prod.ext rfl hset), by decide +kernel⟩

end ShadowMount.Ini
