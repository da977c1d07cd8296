import ShadowMount.Config.Flatten

/-!
# Configuration - the lines of a profiles document

A line of the profiles is read here twice: as the document's reader reads it, by the
identity that its section names, and as the loader does, by the flat setting that it
becomes and the rule that this setting is.
-/

namespace ShadowMount.Config

open Foundation Ini

variable {a b sect title : Text} {rule : Rule}

/-- The key of a line. -/
def ProfileKey.name : ProfileKey → Text
  | .fakelib => "fakelib".toList
  | .ignoreGlobalFakelib => "ignore_global_fakelib".toList
  | .mountMode => "mount_mode".toList
  | .sectorSize => "sector_size".toList

/-- The image name in the name of a section. -/
def imageSection (sect : Text) : Option Text :=
  if hasTag "image:" sect ∧ '/' ∉ sect.drop 6 then normalizeImageFilenameValue (sect.drop 6)
  else none

/-- The identity that a section has for a key. -/
def ProfileKey.identity (key : ProfileKey) (sect : Text) : Option Text :=
  match key with
  | .fakelib | .ignoreGlobalFakelib =>
    if hasTag "game:" sect then parseSupportedTitle (sect.drop 5) else none
  | .mountMode | .sectorSize => (imageSection sect).bind normalizeImageFilenameValue

/-- The section of a line has the identity of a target. -/
def ProfileKey.isFor (key : ProfileKey) (target sect : Text) : Bool :=
  (key.identity sect).any fun identity => key.names identity target

/-- The value of a line that is for a target. -/
def lineValue (key : ProfileKey) (target : Text) (l : Line) : Option Text :=
  match l.content with
  | .entry k value => if sameNoCase k key.name && key.isFor target l.sect then some value else none
  | _ => none

/-- What a value asks for; a reset asks for no override. -/
def ProfileKey.parseValue (key : ProfileKey) (value : Text) : Option (Option Override) :=
  match key with
  | .fakelib => (parseFakelibMode value).map fakelibOverride
  | .ignoreGlobalFakelib =>
    if sameNoCase value "default".toList then some none
    else (parseBoolIni value).map fun excluded => if excluded then some .excluded else none
  | .mountMode =>
    if sameNoCase value "default".toList then some none
    else if sameNoCase value "ro".toList then some (some (.readOnly true))
    else if sameNoCase value "rw".toList then some (some (.readOnly false))
    else none
  | .sectorSize =>
    if sameNoCase value "default".toList then some none
    else (parseSectorSize (trimAscii value)).map fun size => some (.sectorSize size)

/-- The override that the document gives a target: that of the last line for it. -/
def specified (profiles : Document) (key : ProfileKey) (target : Text) : Option Override :=
  ((lastSome (lineValue key target) profiles).bind key.parseValue).join

/-- A line is an entry for the key of a section with an image or title, and no later
line of a section of the same name overrides it. -/
def InForce (key : ProfileKey) (value : Text) (l : Line) (after : Document) : Prop :=
  ∃ k, l.content = .entry k value ∧ sameNoCase k key.name = true ∧
    (key.identity l.sect).isSome = true ∧ Ini.get after l.sect k = none

theorem fold_take (n : Nat) (s : Text) : fold (s.take n) = (fold s).take n :=
  List.map_take

theorem hasTag_congr (h : fold a = fold b) (tag : String) : hasTag tag a = hasTag tag b := by
  unfold hasTag sameNoCase
  rw [fold_take, fold_take, h]

theorem fold_drop_congr (h : fold a = fold b) (n : Nat) : fold (a.drop n) = fold (b.drop n) := by
  have hdrop : ∀ s : Text, fold (s.drop n) = (fold s).drop n := fun s => List.map_drop
  rw [hdrop, hdrop, h]

theorem not_config_of_hasTag {tag : String} (h : hasTag tag sect = true)
    (htag : fold tag.toList ≠ "config".toList.take tag.toList.length) :
    sameNoCase sect "config".toList = false := by
  rw [Bool.eq_false_iff]
  intro hconfig
  unfold hasTag at h
  rw [sameNoCase_iff] at h hconfig
  rw [fold_take, hconfig] at h
  exact htag h.symm

theorem not_game_of_hasTag_image (h : hasTag "image:" sect = true) :
    hasTag "game:" sect = false := by
  rw [Bool.eq_false_iff]
  intro hgame
  unfold hasTag at h hgame
  rw [sameNoCase_iff, fold_take] at h hgame
  have htake := congrArg (List.take 1) h
  have htake' := congrArg (List.take 1) hgame
  rw [List.take_take] at htake htake'
  exact absurd (htake.symm.trans htake') (by decide)

theorem imageSection_congr (h : fold a = fold b) :
    (imageSection a).map fold = (imageSection b).map fold := by
  have hdrop := fold_drop_congr h 6
  have hslash : '/' ∈ a.drop 6 ↔ '/' ∈ b.drop 6 :=
    ⟨mem_of_fold_eq hdrop rfl, mem_of_fold_eq hdrop.symm rfl⟩
  unfold imageSection
  rw [hasTag_congr h]
  simp only [hslash]
  split
  · exact normalizeImageFilenameValue_congr hdrop
  · rfl

theorem identity_congr (h : fold a = fold b) (key : ProfileKey) :
    (key.identity a).map fold = (key.identity b).map fold := by
  have htitle : (if hasTag "game:" a then parseSupportedTitle (a.drop 5) else none) =
      if hasTag "game:" b then parseSupportedTitle (b.drop 5) else none := by
    rw [hasTag_congr h, parseSupportedTitle_congr (fold_drop_congr h 5)]
  have himage : ((imageSection a).bind normalizeImageFilenameValue).map fold =
      ((imageSection b).bind normalizeImageFilenameValue).map fold := by
    have hsect := imageSection_congr h
    cases ha : imageSection a with
    | none =>
      rw [ha, Option.map_none, eq_comm, Option.map_eq_none_iff] at hsect
      rw [hsect]
    | some name =>
      rw [ha, Option.map_some, eq_comm, Option.map_eq_some_iff] at hsect
      obtain ⟨name', hname', hfold⟩ := hsect
      rw [hname']
      exact normalizeImageFilenameValue_congr hfold.symm
  cases key with
  | fakelib => exact congrArg (Option.map fold) htitle
  | ignoreGlobalFakelib => exact congrArg (Option.map fold) htitle
  | mountMode => exact himage
  | sectorSize => exact himage

theorem names_congr (h : fold a = fold b) (key : ProfileKey) (target : Text) :
    key.names a target = key.names b target := by
  unfold ProfileKey.names
  split
  · exact sameNoCase_congr_left (sameNoCase_iff.mpr h) _
  · rfl

theorem isFor_congr (h : fold a = fold b) (key : ProfileKey) (target : Text) :
    key.isFor target a = key.isFor target b := by
  have hidentity := identity_congr h key
  unfold ProfileKey.isFor
  cases ha : key.identity a with
  | none =>
    rw [ha, Option.map_none, eq_comm, Option.map_eq_none_iff] at hidentity
    rw [hidentity]
  | some identity =>
    rw [ha, Option.map_some, eq_comm, Option.map_eq_some_iff] at hidentity
    obtain ⟨identity', hb, hfold⟩ := hidentity
    rw [hb, Option.any_some, Option.any_some, names_congr hfold]

theorem lineValue_eq_some {key : ProfileKey} {target value : Text} {l : Line} :
    lineValue key target l = some value ↔ ∃ k, l.content = .entry k value ∧
      sameNoCase k key.name = true ∧ key.isFor target l.sect = true := by
  unfold lineValue
  cases l.content with
  | header => simp
  | other => simp
  | entry k v =>
    simp only [Content.entry.injEq, Option.ite_none_right_eq_some, Bool.and_eq_true,
      Option.some.injEq]
    constructor
    · rintro ⟨⟨hk, hfor⟩, rfl⟩
      exact ⟨k, ⟨rfl, rfl⟩, hk, hfor⟩
    · rintro ⟨k', ⟨rfl, rfl⟩, hk, hfor⟩
      exact ⟨⟨hk, hfor⟩, rfl⟩

/-- The last line for a target is in force. -/
theorem inForce_of_last {key : ProfileKey} {target value : Text} {l : Line} {after : Document}
    (hl : lineValue key target l = some value)
    (hafter : ∀ x ∈ after, lineValue key target x = none) : InForce key value l after := by
  obtain ⟨k, hcontent, hk, hfor⟩ := lineValue_eq_some.mp hl
  refine ⟨k, hcontent, hk, ?_, ?_⟩
  · unfold ProfileKey.isFor at hfor
    cases hidentity : key.identity l.sect with
    | none => rw [hidentity] at hfor; cases hfor
    | some identity => rfl
  · unfold Ini.get
    rw [List.findSome?_eq_none_iff]
    intro x hx
    by_contra hvalue
    obtain ⟨v, hv⟩ := Option.ne_none_iff_exists'.mp hvalue
    unfold Line.valueFor at hv
    split at hv
    · rename_i k' v' hcontent'
      split at hv
      · rename_i hsame
        rw [Bool.and_eq_true, sameNoCase_iff, sameNoCase_iff] at hsame
        have hsome : lineValue key target x = some v' := by
          refine lineValue_eq_some.mpr ⟨k', hcontent', ?_, ?_⟩
          · rw [sameNoCase_iff] at hk ⊢
            rw [← hsame.2, hk]
          · rw [← isFor_congr hsame.1]
            exact hfor
        rw [hafter x (List.mem_reverse.mp hx)] at hsome
        cases hsome
      · cases hv
    · cases hv

section
variable {l : Line} {after : Document} {key value : Text}

theorem flattenProfileLine_game (hcontent : l.content = .entry key value)
    (hforce : Ini.get after l.sect key = none) (htag : hasTag "game:" l.sect = true) :
    flattenProfileLine l after = flattenGameLine l.sect key value := by
  unfold flattenProfileLine
  simp only [hcontent, not_config_of_hasTag htag (by decide), hforce, htag]
  rfl

theorem flattenProfileLine_image (hcontent : l.content = .entry key value)
    (hforce : Ini.get after l.sect key = none) (htag : hasTag "image:" l.sect = true) :
    flattenProfileLine l after = flattenImageLine l.sect key value := by
  unfold flattenProfileLine
  simp only [hcontent, not_config_of_hasTag htag (by decide), hforce, htag,
    not_game_of_hasTag_image htag]
  rfl

end

/-- The rule that a line becomes. -/
def lineRule (l : Line) (after : Document) : Option Rule :=
  (emission flattenProfileLine l after).bind fun setting => ruleOf setting.1 setting.2

theorem lineRule_of_setting {l : Line} {after : Document} {key value : Text}
    (h : flattenProfileLine l after = .setting key value) :
    lineRule l after = ruleOf key value := by
  simp [lineRule, emission, h]

theorem lineRule_of_skip {l : Line} {after : Document} (h : flattenProfileLine l after = .skip) :
    lineRule l after = none := by
  simp [lineRule, emission, h]

/-- The question that a kind of setting answers. -/
def Setting.profileKey : Setting → Option ProfileKey
  | .imageMode _ => some .mountMode
  | .imageSector => some .sectorSize
  | .fakelibExclude | .fakelibMode => some .fakelib
  | .globalFakelibExclude => some .ignoreGlobalFakelib
  | .scalar _ | .scanpath => none

theorem ruleOf_key {key value : Text} {question : ProfileKey} (h : ruleOf key value = some rule)
    (hkey : (findSetting key).bind Setting.profileKey = some question) : rule.key = question := by
  unfold ruleOf at h
  cases hsetting : findSetting key with
  | none => rw [hsetting] at hkey; cases hkey
  | some setting =>
    rw [hsetting] at h hkey
    cases setting <;> first
      | cases h
      | (obtain ⟨parsed, -, rfl⟩ := Option.map_eq_some_iff.mp h
         exact Option.some.inj hkey)

/-- A line that the loader accepts. -/
structure AcceptedLine (l : Line) (after : Document) : Prop where
  noError : flattenProfileLine l after ≠ .error
  isRule : ∀ key value, flattenProfileLine l after = .setting key value →
    (ruleOf key value).isSome = true

theorem length_of_parseFakelibMode {value : Text} {mode : FakelibMode}
    (h : parseFakelibMode value = some mode) : value.length ≤ 9 := by
  unfold parseFakelibMode at h
  split at h
  · rename_i hsame
    rw [length_eq_of_sameNoCase hsame]
    decide
  · split at h
    · rename_i hsame
      rw [length_eq_of_sameNoCase hsame]
      decide
    · split at h
      · rename_i hsame
        rw [length_eq_of_sameNoCase hsame]
        decide
      · split at h
        · rename_i hsame
          rw [length_eq_of_sameNoCase hsame]
          decide
        · cases h

/-- The flat form of a fakelib rule is read back. -/
theorem parseTitleFakelibRule_flat {value : Text} {rule : Text × FakelibMode}
    (htitle : parseSupportedTitle sect = some title)
    (h : parseTitleFakelibRule (strlcpy maxFlatValue (title ++ ':' :: value)) = some rule) :
    rule.1 = title ∧ parseFakelibMode value = some rule.2 := by
  obtain ⟨hnormal, hsupported⟩ := parseSupportedTitle_eq_some htitle
  have hlength : title.length = 9 := by
    simp only [isSupportedGameTitleId, Bool.and_eq_true, decide_eq_true_eq] at hsupported
    exact hsupported.1.1.1
  have hcolon : ∀ c ∈ title, decide (c = ':') = false := by
    intro c hc
    have halpha := List.all_eq_true.mp (normalizeTitleIdValue_alphanum hnormal) c hc
    rw [decide_eq_false_iff_not]
    rintro rfl
    cases halpha
  have hcopy : strlcpy maxFlatValue (title ++ ':' :: value) = title ++ ':' :: value.take 1077 := by
    unfold strlcpy
    rw [List.take_append, List.take_of_length_le (by rw [hlength]; decide), hlength]
    rfl
  have hcut : cut (fun c => decide (c = ':')) (title ++ ':' :: value.take 1077) =
      (title, ':' :: value.take 1077) := cut_append hcolon (by simp)
  unfold parseTitleFakelibRule at h
  rw [hcopy, hcut] at h
  simp only at h
  split at h
  · cases h
  · split at h
    · rename_i title' mode htitle' hmode
      rw [parseSupportedTitle_self htitle] at htitle'
      cases htitle'
      cases h
      refine ⟨rfl, ?_⟩
      have hshort := length_of_parseFakelibMode hmode
      rw [List.length_take] at hshort
      rw [List.take_of_length_le (by omega)] at hmode
      exact hmode
    · cases h

theorem parseImageSectorRuleValue_flat {text : Text} {rule : Text × Nat}
    (h : parseImageSectorRuleValue (strlcpy maxFlatValue text) = some rule) :
    parseImageSectorRuleValue text = some rule := by
  have hlength : (strlcpy maxFlatValue text).length < maxPath := by
    unfold parseImageSectorRuleValue at h
    split at h
    · cases h
    · omega
  unfold strlcpy maxFlatValue at hlength
  rw [List.length_take] at hlength
  have hpath : maxPath = 1024 := rfl
  rw [strlcpy_of_lt (by unfold maxFlatValue; omega)] at h
  exact h

theorem parseImageSectorRuleValue_append {filename value : Text} {rule : Text × Nat}
    (hcolon : ':' ∉ value) (h : parseImageSectorRuleValue (filename ++ ':' :: value) = some rule) :
    normalizeImageFilenameValue filename = some rule.1 ∧
      parseSectorSize (trimAscii value) = some rule.2 := by
  unfold parseImageSectorRuleValue at h
  split at h
  · cases h
  · rename_i hlength
    rw [List.length_append, List.length_cons] at hlength
    rw [if_neg (by simp)] at h
    simp only [afterLast_append hcolon] at h
    have htake : (filename ++ ':' :: value).take
        ((filename ++ ':' :: value).length - value.length - 1) = filename := by
      rw [List.length_append, List.length_cons]
      exact List.take_left' (by omega)
    rw [htake, normalizeImageFilenameValue_trimAscii (by omega)] at h
    split at h
    · rename_i name size hname hsize
      cases h
      exact ⟨hname, hsize⟩
    · cases h

theorem identity_game (htag : hasTag "game:" sect = true)
    (htitle : parseSupportedTitle (sect.drop 5) = some title) :
    ProfileKey.fakelib.identity sect = some title ∧
      ProfileKey.ignoreGlobalFakelib.identity sect = some title := by
  have hif : (if hasTag "game:" sect then parseSupportedTitle (sect.drop 5) else none) =
      some title := by
    rw [if_pos htag, htitle]
  exact ⟨hif, hif⟩

theorem hasTag_of_identity_game
    (h : (if hasTag "game:" sect then parseSupportedTitle (sect.drop 5) else none) = some title) :
    hasTag "game:" sect = true ∧ parseSupportedTitle (sect.drop 5) = some title := by
  split at h
  · exact ⟨‹_›, h⟩
  · cases h

theorem imageSection_eq_some {filename : Text} (h : imageSection sect = some filename) :
    hasTag "image:" sect = true ∧ '/' ∉ sect.drop 6 ∧
      normalizeImageFilenameValue (sect.drop 6) = some filename := by
  unfold imageSection at h
  split at h
  · rename_i htag
    exact ⟨htag.1, htag.2, h⟩
  · cases h

section
variable {l : Line} {after : Document} {value : Text}

theorem lineRule_fakelib (hforce : InForce .fakelib value l after) (hl : AcceptedLine l after) :
    ∃ identity o, ProfileKey.fakelib.identity l.sect = some identity ∧
      ProfileKey.fakelib.parseValue value = some o ∧
      lineRule l after = some ⟨.fakelib, identity, o⟩ := by
  obtain ⟨k, hcontent, hk, hsome, hget⟩ := hforce
  obtain ⟨title, hidentity⟩ := Option.isSome_iff_exists.mp hsome
  obtain ⟨htag, htitle⟩ := hasTag_of_identity_game hidentity
  have hflat : flattenProfileLine l after =
      .setting "fakelib_mode".toList (strlcpy maxFlatValue (title ++ ':' :: value)) := by
    rw [flattenProfileLine_game hcontent hget htag]
    unfold flattenGameLine
    rw [htitle]
    exact if_pos hk
  have hfind : findSetting "fakelib_mode".toList = some .fakelibMode := by decide +kernel
  have hrule := hl.isRule _ _ hflat
  rw [lineRule_of_setting hflat]
  unfold ruleOf at hrule ⊢
  simp only [hfind, Option.isSome_map] at hrule ⊢
  obtain ⟨rule, hparse⟩ := Option.isSome_iff_exists.mp hrule
  obtain ⟨hsame, hmode⟩ := parseTitleFakelibRule_flat htitle hparse
  refine ⟨title, fakelibOverride rule.2, hidentity, ?_, ?_⟩
  · simp [ProfileKey.parseValue, hmode]
  · rw [hparse, Option.map_some, hsame]

/-- An ignored global fakelib is a rule for the title of its section, unless it is
switched off. -/
theorem lineRule_ignoreGlobalFakelib (hforce : InForce .ignoreGlobalFakelib value l after)
    (hl : AcceptedLine l after) :
    ∃ identity, ProfileKey.ignoreGlobalFakelib.identity l.sect = some identity ∧
      ((ProfileKey.ignoreGlobalFakelib.parseValue value = some none ∧ lineRule l after = none) ∨
        (ProfileKey.ignoreGlobalFakelib.parseValue value = some (some .excluded) ∧
          lineRule l after = some ⟨.ignoreGlobalFakelib, identity, some .excluded⟩)) := by
  obtain ⟨k, hcontent, hk, hsome, hget⟩ := hforce
  obtain ⟨title, hidentity⟩ := Option.isSome_iff_exists.mp hsome
  obtain ⟨htag, htitle⟩ := hasTag_of_identity_game hidentity
  refine ⟨title, hidentity, ?_⟩
  have hnotFakelib : sameNoCase k "fakelib".toList = false := by
    rw [sameNoCase_congr_left hk]
    decide
  have hflat := flattenProfileLine_game hcontent hget htag
  unfold flattenGameLine at hflat
  rw [htitle] at hflat
  simp only [hnotFakelib] at hflat
  have hkey : sameNoCase k "ignore_global_fakelib".toList = true := hk
  rw [if_neg Bool.false_ne_true, if_pos hkey] at hflat
  unfold ProfileKey.parseValue
  simp only
  by_cases hdefault : sameNoCase value "default".toList = true
  · rw [if_pos hdefault] at hflat ⊢
    exact .inl ⟨rfl, lineRule_of_skip hflat⟩
  · rw [if_neg hdefault] at hflat ⊢
    cases hbool : parseBoolIni value with
    | none =>
      rw [hbool] at hflat
      exact absurd hflat hl.noError
    | some excluded =>
      rw [hbool] at hflat
      cases excluded with
      | false => exact .inl ⟨rfl, lineRule_of_skip hflat⟩
      | true =>
        refine .inr ⟨rfl, ?_⟩
        have hfind : findSetting "global_fakelib_exclude".toList =
            some .globalFakelibExclude := by decide +kernel
        rw [lineRule_of_setting hflat]
        unfold ruleOf
        rw [hfind]
        simp only
        rw [normalizeTitleIdValue_self (parseSupportedTitle_eq_some htitle).1]
        rfl

/-- A mount mode in force is a rule for the image of its section, unless it is the
default. -/
theorem lineRule_mountMode (hforce : InForce .mountMode value l after)
    (hl : AcceptedLine l after) :
    ∃ identity, ProfileKey.mountMode.identity l.sect = some identity ∧
      ((ProfileKey.mountMode.parseValue value = some none ∧ lineRule l after = none) ∨
        ∃ readOnly, ProfileKey.mountMode.parseValue value = some (some (.readOnly readOnly)) ∧
          lineRule l after = some ⟨.mountMode, identity, some (.readOnly readOnly)⟩) := by
  obtain ⟨k, hcontent, hk, hsome, hget⟩ := hforce
  obtain ⟨identity, hidentity⟩ := Option.isSome_iff_exists.mp hsome
  obtain ⟨filename, hsect, hnormal⟩ := Option.bind_eq_some_iff.mp hidentity
  obtain ⟨htag, hslash, hfilename⟩ := imageSection_eq_some hsect
  refine ⟨identity, hidentity, ?_⟩
  have hflat := flattenProfileLine_image hcontent hget htag
  have hkey : sameNoCase k "mount_mode".toList = true := hk
  have hline : flattenImageLine l.sect k value =
      if sameNoCase value "default".toList then .skip
      else if sameNoCase value "ro".toList then .setting "image_ro".toList filename
      else if sameNoCase value "rw".toList then .setting "image_rw".toList filename
      else .error := by
    unfold flattenImageLine
    rw [if_neg hslash, hfilename]
    simp only
    rw [if_pos hkey]
  rw [hline] at hflat
  have hro : findSetting "image_ro".toList = some (.imageMode true) := by decide +kernel
  have hrw : findSetting "image_rw".toList = some (.imageMode false) := by decide +kernel
  unfold ProfileKey.parseValue
  simp only
  by_cases hdefault : sameNoCase value "default".toList = true
  · rw [if_pos hdefault] at hflat ⊢
    exact .inl ⟨rfl, lineRule_of_skip hflat⟩
  · rw [if_neg hdefault] at hflat ⊢
    by_cases hvalue : sameNoCase value "ro".toList = true
    · rw [if_pos hvalue] at hflat ⊢
      refine .inr ⟨true, rfl, ?_⟩
      rw [lineRule_of_setting hflat]
      simp only [ruleOf, hro, hnormal, Option.map_some]
    · rw [if_neg hvalue] at hflat ⊢
      by_cases hvalue' : sameNoCase value "rw".toList = true
      · rw [if_pos hvalue'] at hflat ⊢
        refine .inr ⟨false, rfl, ?_⟩
        rw [lineRule_of_setting hflat]
        simp only [ruleOf, hrw, hnormal, Option.map_some]
      · rw [if_neg hvalue'] at hflat
        exact absurd hflat hl.noError

/-- A sector size in force is a rule for the image that its text names when cut at
the last colon, unless it is the default. -/
theorem lineRule_sectorSize (hforce : InForce .sectorSize value l after)
    (hl : AcceptedLine l after) :
    ∃ filename, imageSection l.sect = some filename ∧
      ((sameNoCase value "default".toList = true ∧ lineRule l after = none) ∨
        (sameNoCase value "default".toList = false ∧
          ∃ rule, parseImageSectorRuleValue (filename ++ ':' :: value) = some rule ∧
            lineRule l after = some ⟨.sectorSize, rule.1, some (.sectorSize rule.2)⟩)) := by
  obtain ⟨k, hcontent, hk, hsome, hget⟩ := hforce
  obtain ⟨identity, hidentity⟩ := Option.isSome_iff_exists.mp hsome
  obtain ⟨filename, hsect, hnormal⟩ := Option.bind_eq_some_iff.mp hidentity
  obtain ⟨htag, hslash, hfilename⟩ := imageSection_eq_some hsect
  refine ⟨filename, hsect, ?_⟩
  have hnotMode : sameNoCase k "mount_mode".toList = false := by
    rw [sameNoCase_congr_left hk]
    decide
  have hflat := flattenProfileLine_image hcontent hget htag
  have hkey : sameNoCase k "sector_size".toList = true := hk
  have hline : flattenImageLine l.sect k value =
      if sameNoCase value "default".toList then .skip
      else .setting "image_sector".toList (strlcpy maxFlatValue (filename ++ ':' :: value)) := by
    unfold flattenImageLine
    rw [if_neg hslash, hfilename]
    simp only [hnotMode]
    rw [if_pos hkey]
    rfl
  rw [hline] at hflat
  by_cases hdefault : sameNoCase value "default".toList = true
  · rw [if_pos hdefault] at hflat
    exact .inl ⟨hdefault, lineRule_of_skip hflat⟩
  · rw [if_neg hdefault] at hflat
    rw [Bool.not_eq_true] at hdefault
    have hfind : findSetting "image_sector".toList = some .imageSector := by decide +kernel
    have hrule := hl.isRule _ _ hflat
    rw [lineRule_of_setting hflat]
    unfold ruleOf at hrule ⊢
    simp only [hfind, Option.isSome_map] at hrule ⊢
    obtain ⟨rule, hparse⟩ := Option.isSome_iff_exists.mp hrule
    refine .inr ⟨hdefault, rule, parseImageSectorRuleValue_flat hparse, ?_⟩
    rw [hparse, Option.map_some]

/-- The line of a game that is in force is a rule of its key. -/
theorem inForce_of_game {k : Text} {setting : Text × Text} (hcontent : l.content = .entry k value)
    (hget : Ini.get after l.sect k = none) (htag : hasTag "game:" l.sect = true)
    (hline : flattenGameLine l.sect k value = .setting setting.1 setting.2)
    (hrule : ruleOf setting.1 setting.2 = some rule) : InForce rule.key value l after := by
  unfold flattenGameLine at hline
  split at hline
  · cases hline
  · rename_i title htitle
    obtain ⟨hfakelib, hignore⟩ := identity_game htag htitle
    split at hline
    · rename_i hk
      have hkey : rule.key = .fakelib := by
        rw [Flattened.setting.injEq] at hline
        rw [← hline.1] at hrule
        exact ruleOf_key hrule (by decide +kernel)
      rw [hkey]
      exact ⟨k, hcontent, hk, by rw [hfakelib]; rfl, hget⟩
    · split at hline
      · rename_i hk
        have hkey : rule.key = .ignoreGlobalFakelib := by
          split at hline
          · cases hline
          · split at hline
            · cases hline
            · cases hline
            · rw [Flattened.setting.injEq] at hline
              rw [← hline.1] at hrule
              exact ruleOf_key hrule (by decide +kernel)
        rw [hkey]
        exact ⟨k, hcontent, hk, by rw [hignore]; rfl, hget⟩
      · cases hline

/-- The line of an image that is in force is a rule of its key. -/
theorem inForce_of_image {k : Text} {setting : Text × Text} (hcontent : l.content = .entry k value)
    (hget : Ini.get after l.sect k = none) (htag : hasTag "image:" l.sect = true)
    (hline : flattenImageLine l.sect k value = .setting setting.1 setting.2)
    (hrule : ruleOf setting.1 setting.2 = some rule) : InForce rule.key value l after := by
  unfold flattenImageLine at hline
  split at hline
  · cases hline
  · rename_i hslash
    split at hline
    · cases hline
    · rename_i filename hfilename
      have hidentity : (imageSection l.sect).bind normalizeImageFilenameValue =
          some (trimAscii filename) := by
        unfold imageSection
        rw [if_pos ⟨htag, hslash⟩, hfilename]
        exact normalizeImageFilenameValue_again hslash hfilename
      split at hline
      · cases hline
      · split at hline
        · rename_i hk
          have hkey : rule.key = .mountMode := by
            split at hline
            · rw [Flattened.setting.injEq] at hline
              rw [← hline.1] at hrule
              exact ruleOf_key hrule (by decide +kernel)
            · split at hline
              · rw [Flattened.setting.injEq] at hline
                rw [← hline.1] at hrule
                exact ruleOf_key hrule (by decide +kernel)
              · cases hline
          rw [hkey]
          exact ⟨k, hcontent, hk, Option.isSome_of_eq_some hidentity, hget⟩
        · split at hline
          · rename_i hk
            have hkey : rule.key = .sectorSize := by
              rw [Flattened.setting.injEq] at hline
              rw [← hline.1] at hrule
              exact ruleOf_key hrule (by decide +kernel)
            rw [hkey]
            exact ⟨k, hcontent, hk, Option.isSome_of_eq_some hidentity, hget⟩
          · cases hline

theorem inForce_of_lineRule (h : lineRule l after = some rule) :
    ∃ value, InForce rule.key value l after := by
  obtain ⟨setting, hemission, hrule⟩ := Option.bind_eq_some_iff.mp h
  rw [emission_eq_some] at hemission
  unfold flattenProfileLine at hemission
  split at hemission
  · rename_i k value hcontent
    split at hemission
    · cases hemission
    · split at hemission
      · cases hemission
      · rename_i hget
        rw [Bool.not_eq_true, Option.isSome_eq_false_iff, Option.isNone_iff_eq_none] at hget
        split at hemission
        · rename_i htag
          exact ⟨value, inForce_of_game hcontent hget htag hemission hrule⟩
        · split at hemission
          · rename_i htag
            exact ⟨value, inForce_of_image hcontent hget htag hemission hrule⟩
          · cases hemission
  · cases hemission

/-- A line in force is either a reset that is dropped, or a rule.  The rule is the
one that the line asks for, except that a sector size with a colon may be another. -/
theorem lineRule_spec {key : ProfileKey} (hforce : InForce key value l after)
    (hl : AcceptedLine l after) :
    ∃ identity, key.identity l.sect = some identity ∧
      ((key ≠ .fakelib ∧ key.parseValue value = some none ∧ lineRule l after = none) ∨
        ∃ rule, lineRule l after = some rule ∧ rule.key = key ∧
          (key ≠ .fakelib → rule.value ≠ none ∧ key.parseValue value ≠ some none) ∧
          ((key = .sectorSize → ':' ∉ value) →
            rule.identity = identity ∧ key.parseValue value = some rule.value)) := by
  cases key with
  | fakelib =>
    obtain ⟨identity, o, hidentity, hvalue, hrule⟩ := lineRule_fakelib hforce hl
    exact ⟨identity, hidentity, .inr ⟨_, hrule, rfl, fun h => absurd rfl h,
      fun _ => ⟨rfl, hvalue⟩⟩⟩
  | ignoreGlobalFakelib =>
    obtain ⟨identity, hidentity, hreset | ⟨hvalue, hrule⟩⟩ :=
      lineRule_ignoreGlobalFakelib hforce hl
    · exact ⟨identity, hidentity, .inl ⟨by decide, hreset⟩⟩
    · exact ⟨identity, hidentity, .inr ⟨_, hrule, rfl, fun _ => ⟨by simp, by simp [hvalue]⟩,
        fun _ => ⟨rfl, hvalue⟩⟩⟩
  | mountMode =>
    obtain ⟨identity, hidentity, hreset | ⟨readOnly, hvalue, hrule⟩⟩ :=
      lineRule_mountMode hforce hl
    · exact ⟨identity, hidentity, .inl ⟨by decide, hreset⟩⟩
    · exact ⟨identity, hidentity, .inr ⟨_, hrule, rfl, fun _ => ⟨by simp, by simp [hvalue]⟩,
        fun _ => ⟨rfl, hvalue⟩⟩⟩
  | sectorSize =>
    obtain ⟨identity, hidentity⟩ := Option.isSome_iff_exists.mp hforce.choose_spec.2.2.1
    obtain ⟨filename, hsect, ⟨hdefault, hrule⟩ | ⟨hdefault, rule, hparse, hrule⟩⟩ :=
      lineRule_sectorSize hforce hl
    · refine ⟨identity, hidentity, .inl ⟨by decide, ?_, hrule⟩⟩
      unfold ProfileKey.parseValue
      exact if_pos hdefault
    · have hvalue : ProfileKey.sectorSize.parseValue value =
          (parseSectorSize (trimAscii value)).map fun size => some (.sectorSize size) := by
        unfold ProfileKey.parseValue
        simp only [hdefault]
        rfl
      refine ⟨identity, hidentity, .inr ⟨_, hrule, rfl, fun _ => ⟨by simp, ?_⟩, ?_⟩⟩
      · rw [hvalue]
        cases parseSectorSize (trimAscii value) <;> simp
      · intro hcolon
        obtain ⟨hname, hsize⟩ := parseImageSectorRuleValue_append (hcolon rfl) hparse
        have hnormal : normalizeImageFilenameValue filename = some identity := by
          have hbind : (imageSection l.sect).bind normalizeImageFilenameValue = some identity :=
            hidentity
          rw [hsect] at hbind
          exact hbind
        rw [hname] at hnormal
        refine ⟨Option.some.inj hnormal, ?_⟩
        rw [hvalue, hsize]
        rfl

end

end ShadowMount.Config
