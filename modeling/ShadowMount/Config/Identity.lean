import Mathlib
import ShadowMount.Config.Runtime

/-!
# Configuration - identities of titles and images

Titles and image names are normalized each time they are compared.  Here it is
shown that the case of a name does not matter to its normalization, and that a
normalized title is normalized once and for all.
-/

namespace ShadowMount.Config

open Foundation Ini

variable {a b value title : Text} {stop : Char}

theorem sameNoCase_congr_left (h : sameNoCase a b = true) (c : Text) :
    sameNoCase a c = sameNoCase b c := by
  rw [sameNoCase_iff] at h
  unfold sameNoCase
  rw [h]

theorem sameNoCase_symm (h : sameNoCase a b = true) : sameNoCase b a = true :=
  sameNoCase_iff.mpr (sameNoCase_iff.mp h).symm

theorem sameNoCase_refl (a : Text) : sameNoCase a a = true := sameNoCase_iff.mpr rfl

theorem length_eq_of_sameNoCase (h : sameNoCase a b = true) : a.length = b.length := by
  rw [← length_fold a, sameNoCase_iff.mp h, length_fold]

theorem fold_trimAscii (s : Text) : fold (trimAscii s) = trimAscii (fold s) := by
  refine (trim_map (fun c => ?_) s).symm
  simp [isAsciiBlank, toLower_eq_iff (d := ' ') rfl, toLower_eq_iff (d := '\t') rfl,
    toLower_eq_iff (d := '\n') rfl, toLower_eq_iff (d := '\r') rfl]

theorem fold_afterLast (hstop : stop.isAlpha = false) (s : Text) :
    fold (afterLast stop s) = afterLast stop (fold s) := by
  have hsame : ∀ c : Char, (c.toLower ≠ stop) = (c ≠ stop) := by
    intro c
    simp [toLower_eq_iff hstop]
  unfold afterLast fold
  induction s using List.reverseRecOn with
  | nil => rfl
  | append_singleton s c ih =>
    rw [List.map_append, List.map_singleton, List.rtakeWhile_concat, List.rtakeWhile_concat]
    simp only [hsame]
    split
    · rw [List.map_append, List.map_singleton, ih]
    · rfl

/-- The file name of a path does not depend on case. -/
theorem fold_getFilenameComponent (s : Text) :
    fold (getFilenameComponent s) = getFilenameComponent (fold s) := by
  have hslash : '/' ∈ fold s ↔ '/' ∈ s := by
    simp [fold, toLower_eq_iff (d := '/') rfl]
  unfold getFilenameComponent
  rw [apply_ite fold, fold_afterLast rfl, fold_afterLast rfl]
  simp only [hslash]

theorem afterLast_append {tail : Text} (h : stop ∉ tail) (front : Text) :
    afterLast stop (front ++ stop :: tail) = tail := by
  unfold afterLast
  rw [List.append_cons]
  induction tail using List.reverseRecOn with
  | nil => rw [List.append_nil, List.rtakeWhile_concat, if_neg (by simp)]
  | append_singleton tail c ih =>
    rw [List.mem_append, List.mem_singleton, not_or] at h
    rw [← List.append_assoc, List.rtakeWhile_concat, if_pos (by simpa using Ne.symm h.2),
      ih h.1]

theorem afterLast_of_not_mem {s : Text} (h : stop ∉ s) : afterLast stop s = s := by
  unfold afterLast
  rw [List.rtakeWhile_eq_self_iff]
  intro c hc
  simpa using fun heq : c = stop => h (heq ▸ hc)

theorem not_mem_afterLast (stop : Char) (s : Text) : stop ∉ afterLast stop s := by
  intro hmem
  have hne := List.mem_rtakeWhile_imp hmem
  simp at hne

/-- A text without lower case letters, as a normalized title is. -/
def IsUpper (title : Text) : Prop := title.map Char.toUpper = title

theorem map_toUpper_fold (s : Text) : (fold s).map Char.toUpper = s.map Char.toUpper := by
  simp [fold]

theorem eq_of_sameNoCase (ha : IsUpper a) (hb : IsUpper b) (h : sameNoCase a b = true) : a = b := by
  rw [sameNoCase_iff] at h
  calc a = a.map Char.toUpper := ha.symm
    _ = b.map Char.toUpper := by rw [← map_toUpper_fold a, h, map_toUpper_fold b]
    _ = b := hb

theorem isAlphanum_toLower (c : Char) : c.toLower.isAlphanum = c.isAlphanum := by
  cases hupper : c.isUpper with
  | false => rw [toLower_of_not_isUpper hupper]
  | true =>
    have halpha : c.isAlpha = true := by simp [Char.isAlpha, hupper]
    simp [Char.isAlphanum, halpha]

theorem all_isAlphanum_fold (s : Text) :
    (fold s).all (fun c => c.isAlphanum) = s.all (fun c => c.isAlphanum) := by
  unfold fold
  rw [List.all_map]
  exact congrArg s.all (funext isAlphanum_toLower)

/-- What a title value has to be, and what becomes of it. -/
theorem normalizeTitleIdValue_eq_some (h : normalizeTitleIdValue value = some title) :
    value.length < maxTitleId ∧ trimAscii value ≠ [] ∧
      (trimAscii value).all (fun c => c.isAlphanum) = true ∧
      title = (trimAscii value).map Char.toUpper := by
  unfold normalizeTitleIdValue at h
  split at h
  · cases h
  · rename_i hlength
    split at h
    · cases h
    · rename_i hne
      split at h
      · rename_i hall
        cases h
        exact ⟨Nat.lt_of_not_le hlength, hne, hall, rfl⟩
      · cases h

/-- A normalized title id is in upper case. -/
theorem normalizeTitleIdValue_upper (h : normalizeTitleIdValue value = some title) :
    IsUpper title := by
  rw [(normalizeTitleIdValue_eq_some h).2.2.2]
  simp [IsUpper]

/-- The case of a spelling does not matter. -/
theorem normalizeTitleIdValue_congr (h : fold a = fold b) :
    normalizeTitleIdValue a = normalizeTitleIdValue b := by
  have hlength : a.length = b.length := length_eq_of_sameNoCase (sameNoCase_iff.mpr h)
  have htrim : fold (trimAscii a) = fold (trimAscii b) := by
    rw [fold_trimAscii, h, fold_trimAscii]
  have hnil : trimAscii a = [] ↔ trimAscii b = [] := by
    rw [← List.length_eq_zero_iff, ← List.length_eq_zero_iff, ← length_fold, htrim, length_fold]
  unfold normalizeTitleIdValue
  rw [hlength, ← all_isAlphanum_fold (trimAscii a), ← map_toUpper_fold (trimAscii a), htrim,
    all_isAlphanum_fold, map_toUpper_fold]
  simp only [hnil]

theorem isAsciiBlank_of_isAlphanum {c : Char} (h : c.isAlphanum = true) :
    isAsciiBlank c = false := by
  rw [Bool.eq_false_iff]
  intro hblank
  simp only [isAsciiBlank, Bool.or_eq_true, decide_eq_true_eq] at hblank
  rcases hblank with ((rfl | rfl) | rfl) | rfl <;> exact absurd h (by decide)

theorem trimAscii_of_isAlphanum {s : Text} (h : s.all (fun c => c.isAlphanum) = true) :
    trimAscii s = s := by
  have hclean : ∀ c ∈ s, isAsciiBlank c = false :=
    fun c hc => isAsciiBlank_of_isAlphanum (List.all_eq_true.mp h c hc)
  exact trim_eq_self (fun c hc => hclean c (List.mem_of_mem_head? hc))
    (fun c hc => hclean c (List.mem_of_mem_getLast? hc))

theorem normalizeTitleIdValue_alphanum (h : normalizeTitleIdValue value = some title) :
    title.all (fun c => c.isAlphanum) = true := by
  obtain ⟨-, -, hall, htitle⟩ := normalizeTitleIdValue_eq_some h
  have hfold : fold title = fold (trimAscii value) := by
    rw [htitle]
    simp [fold]
  rw [← all_isAlphanum_fold, hfold, all_isAlphanum_fold, hall]

/-- A normalised title stays as it is. -/
theorem normalizeTitleIdValue_self (h : normalizeTitleIdValue value = some title) :
    normalizeTitleIdValue title = some title := by
  obtain ⟨hlength, hne, hall, htitle⟩ := normalizeTitleIdValue_eq_some h
  have hall' := normalizeTitleIdValue_alphanum h
  have htrim : (trimAscii value).length ≤ value.length := length_trim_le isAsciiBlank value
  have hlength' : title.length = (trimAscii value).length := by
    rw [htitle, List.length_map]
  unfold normalizeTitleIdValue
  rw [trimAscii_of_isAlphanum hall', if_neg (by omega), if_neg, if_pos hall']
  · exact congrArg some (normalizeTitleIdValue_upper h)
  · rw [← List.length_eq_zero_iff, hlength', List.length_eq_zero_iff]
    exact hne

theorem parseSupportedTitle_eq_some (h : parseSupportedTitle value = some title) :
    normalizeTitleIdValue value = some title ∧ isSupportedGameTitleId title = true := by
  unfold parseSupportedTitle at h
  split at h
  · rename_i title' htitle
    split at h
    · rename_i hsupported
      cases h
      exact ⟨htitle, hsupported⟩
    · cases h
  · cases h

/-- The spelling of a title id does not matter. -/
theorem parseSupportedTitle_congr (h : fold a = fold b) :
    parseSupportedTitle a = parseSupportedTitle b := by
  unfold parseSupportedTitle
  rw [normalizeTitleIdValue_congr h]

/-- A parsed title id is parsed to itself. -/
theorem parseSupportedTitle_self (h : parseSupportedTitle value = some title) :
    parseSupportedTitle title = some title := by
  obtain ⟨hnormal, hsupported⟩ := parseSupportedTitle_eq_some h
  unfold parseSupportedTitle
  rw [normalizeTitleIdValue_self hnormal]
  exact if_pos hsupported

/-- The case of a spelling does not matter to the image it names. -/
theorem normalizeImageFilenameValue_congr (h : fold a = fold b) :
    (normalizeImageFilenameValue a).map fold = (normalizeImageFilenameValue b).map fold := by
  have hlength : a.length = b.length := length_eq_of_sameNoCase (sameNoCase_iff.mpr h)
  have hname : fold (getFilenameComponent (trimAscii a)) =
      fold (getFilenameComponent (trimAscii b)) := by
    rw [fold_getFilenameComponent, fold_trimAscii, h, ← fold_trimAscii,
      ← fold_getFilenameComponent]
  have hnil :
      getFilenameComponent (trimAscii a) = [] ↔ getFilenameComponent (trimAscii b) = [] := by
    rw [← List.length_eq_zero_iff, ← List.length_eq_zero_iff, ← length_fold, hname, length_fold]
  unfold normalizeImageFilenameValue
  rw [hlength]
  simp only [hnil]
  split
  · rfl
  · split
    · rfl
    · exact congrArg some hname

/-- To normalise a file name once more only trims it. -/
theorem normalizeImageFilenameValue_again {name : Text} (hslash : '/' ∉ value)
    (h : normalizeImageFilenameValue value = some name) :
    normalizeImageFilenameValue name = some (trimAscii name) := by
  obtain ⟨hne, hlength, hlast⟩ := normalizeImageFilenameValue_eq_some h
  have hslash' : '/' ∉ trimAscii value := fun hmem => hslash (mem_of_mem_trim hmem)
  have hname : name = afterLast '\\' (trimAscii value) := by
    unfold normalizeImageFilenameValue getFilenameComponent at h
    rw [if_neg hslash'] at h
    split at h
    · cases h
    · split at h
      · cases h
      · exact (Option.some.inj h).symm
  have hseparators : '/' ∉ trimAscii name ∧ '\\' ∉ trimAscii name := by
    rw [hname]
    exact ⟨fun hmem => hslash' ((afterLast_suffix _ _).mem (mem_of_mem_trim hmem)),
      fun hmem => not_mem_afterLast _ _ (mem_of_mem_trim hmem)⟩
  have hcomponent : getFilenameComponent (trimAscii name) = trimAscii name := by
    unfold getFilenameComponent
    rw [if_neg hseparators.1, afterLast_of_not_mem hseparators.2]
  have htrim : trimAscii name ≠ [] := by
    intro hnil
    have hblank := trim_eq_nil_iff.mp hnil (name.getLast hne) (List.getLast_mem hne)
    rw [hlast _ (List.getLast?_eq_some_getLast hne)] at hblank
    cases hblank
  unfold normalizeImageFilenameValue
  rw [hcomponent, if_neg hlength.not_ge, if_neg htrim]

/-- Blanks around a spelling do not matter, as long as it is short enough. -/
theorem normalizeImageFilenameValue_trimAscii (h : value.length < maxPath) :
    normalizeImageFilenameValue (trimAscii value) = normalizeImageFilenameValue value := by
  have hlength : (trimAscii value).length ≤ value.length := length_trim_le isAsciiBlank value
  have htrim : trimAscii (trimAscii value) = trimAscii value := trim_trim isAsciiBlank value
  have hshort : (trimAscii value).length < maxPath := Nat.lt_of_le_of_lt hlength h
  unfold normalizeImageFilenameValue
  rw [htrim, if_neg hshort.not_ge, if_neg h.not_ge]

end ShadowMount.Config
