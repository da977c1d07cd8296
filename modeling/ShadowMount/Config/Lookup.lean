import ShadowMount.Config.Profiles

/-!
# Configuration - overrides follow the profiles

The last line for an identity and a key should decide, in the order of the document,
and a line of one identity should leave the others alone.  The loader drops the
lines that are overridden within their own section, and it drops the resets, so that
two sections with different spellings of one identity lead it astray; and a sector
size with a colon is cut elsewhere than it was put together.

Main results:

- Theorem {lit}`followsProfiles_iff`: of every accepted pair of documents, exactly
  when the overrides in force are those of the profiles.
- Theorem {lit}`mode_survives_reset`: a pair where they are not.
-/

namespace ShadowMount.Config

open Foundation Ini

variable {value : Text} {o : Option Override} {rule : Rule} {before : Document}

/-- The overrides of a state are those of a profiles document. -/
structure FollowsProfiles (profiles : Document) (s : RuntimeState) : Prop where
  /-- The last line for a target decides. -/
  lastLine : ∀ key target, override s key target = specified profiles key target
  /-- A line changes no override of another identity than that of its section. -/
  ownIdentity : ∀ before l after key value, profiles = before ++ l :: after →
    flattenProfileLine l after = .setting key value →
    ∀ ld, TablesOk ld → (applySetting ld key value).invalid = false →
    ∀ question target, ProfileKey.isFor question target l.sect = false →
      override (applySetting ld key value).state question target = override ld.state question target

/-- The document leads the loader to the overrides it asks for. -/
structure Unambiguous (profiles : Document) : Prop where
  /-- Where the last line for a target is a reset, no section with another spelling of
  its name still asks for something. -/
  resets : ∀ before l after key value target, profiles = before ++ l :: after →
    key ≠ .fakelib → InForce key value l after → key.isFor target l.sect = true →
    key.parseValue value ≠ some none →
    (lastSome (lineValue key target) profiles).bind key.parseValue ≠ some none
  /-- The last sector size for an image has no colon. -/
  sizes : ∀ target value, lastSome (lineValue .sectorSize target) profiles = some value →
    ':' ∉ value
  /-- A sector size in force, cut at its last colon, is for the image of its section. -/
  images : ∀ before l after value filename rule, profiles = before ++ l :: after →
    InForce .sectorSize value l after → imageSection l.sect = some filename →
    sameNoCase value "default".toList = false →
    parseImageSectorRuleValue (filename ++ ':' :: value) = some rule →
    (ProfileKey.sectorSize.identity l.sect).any (sameNoCase rule.1) = true

/-- Every line of an accepted document is accepted. -/
def AcceptedLines (profiles : Document) : Prop :=
  ∀ before l after, profiles = before ++ l :: after → AcceptedLine l after

/-- A profile line gives a setting that answers a question. -/
theorem findSetting_of_profile {l : Line} {after : Document} {key : Text}
    (h : flattenProfileLine l after = .setting key value) :
    ∃ question, (findSetting key).bind Setting.profileKey = some question := by
  unfold flattenProfileLine at h
  split at h
  · split at h
    · cases h
    · split at h
      · cases h
      · split at h
        · unfold flattenGameLine at h
          split at h
          · cases h
          · split at h
            · cases h
              exact ⟨.fakelib, by decide +kernel⟩
            · split at h
              · split at h
                · cases h
                · split at h
                  · cases h
                  · cases h
                  · cases h
                    exact ⟨.ignoreGlobalFakelib, by decide +kernel⟩
              · cases h
        · split at h
          · unfold flattenImageLine at h
            split at h
            · cases h
            · split at h
              · cases h
              · split at h
                · cases h
                · split at h
                  · split at h
                    · cases h
                      exact ⟨.mountMode, by decide +kernel⟩
                    · split at h
                      · cases h
                        exact ⟨.mountMode, by decide +kernel⟩
                      · cases h
                  · split at h
                    · cases h
                      exact ⟨.sectorSize, by decide +kernel⟩
                    · cases h
          · cases h
  · cases h

theorem acceptedLines_of_parse {main profiles : Document} {s : RuntimeState}
    (h : parseRuntimeConfigState main profiles = some s) : AcceptedLines profiles := by
  obtain ⟨smb, -, -, hvalid, herror⟩ := parseRuntimeConfigState_eq_some h
  intro before l after hprofiles
  refine ⟨herror before l after hprofiles, ?_⟩
  intro key value hsetting
  have hmem : (key, value) ∈ emitted flattenProfileLine profiles :=
    mem_filterMapTails.mpr ⟨before, l, after, hprofiles, emission_eq_some.mpr hsetting⟩
  obtain ⟨ld, hld⟩ := exists_valid_of_mem hvalid (List.mem_append_right _ hmem)
  obtain ⟨question, hquestion⟩ := findSetting_of_profile hsetting
  rcases ruleOf_isSome_of_valid hld with hsome | hnone | hscan | ⟨k, hscalar⟩
  · exact hsome
  · rw [hnone] at hquestion
    cases hquestion
  · rw [hscan] at hquestion
    cases hquestion
  · rw [hscalar] at hquestion
    cases hquestion

/-- What a line writes to an answer. -/
def lineWrite (key : ProfileKey) (target : Text) (l : Line) (after : Document) :
    Option (Option Override) :=
  (lineRule l after).bind (Rule.write key target)

theorem emission_bind_settingWrite (key : ProfileKey) (target : Text) (l : Line)
    (after : Document) :
    (emission flattenProfileLine l after).bind (settingWrite key target) =
      lineWrite key target l after := by
  unfold lineWrite lineRule settingWrite
  cases emission flattenProfileLine l after <;> rfl

/-- A line is a rule for the identity of its own section only. -/
def OwnRule (l : Line) (after : Document) : Prop :=
  ∀ rule, lineRule l after = some rule →
    ∃ identity, rule.key.identity l.sect = some identity ∧ fold rule.identity = fold identity

section
variable {l : Line} {after : Document} {key : ProfileKey} {target : Text}

theorem lineValue_of_lineWrite (hown : OwnRule l after)
    (h : lineWrite key target l after = some o) :
    ∃ value rule, lineValue key target l = some value ∧ InForce key value l after ∧
      lineRule l after = some rule ∧ rule.key = key ∧ rule.value = o := by
  obtain ⟨rule, hrule, hwrite⟩ := Option.bind_eq_some_iff.mp h
  unfold Rule.write at hwrite
  split at hwrite
  · rename_i hmatch
    obtain ⟨rfl, hnames⟩ := hmatch
    obtain ⟨value, hforce⟩ := inForce_of_lineRule hrule
    obtain ⟨identity, hidentity, hfold⟩ := hown rule hrule
    obtain ⟨k, hcontent, hk, -, -⟩ := id hforce
    refine ⟨value, rule, lineValue_eq_some.mpr ⟨k, hcontent, hk, ?_⟩, hforce, hrule, rfl,
      Option.some.inj hwrite⟩
    unfold ProfileKey.isFor
    rw [hidentity, Option.any_some, ← names_congr hfold]
    exact hnames
  · cases hwrite

theorem lineWrite_of_isFor (hown : OwnRule l after) (hrule : lineRule l after = some rule)
    (hfor : rule.key.isFor target l.sect = true) :
    lineWrite rule.key target l after = some rule.value := by
  obtain ⟨identity, hidentity, hfold⟩ := hown rule hrule
  unfold ProfileKey.isFor at hfor
  rw [hidentity, Option.any_some, ← names_congr hfold] at hfor
  unfold lineWrite
  rw [hrule, Option.bind_some]
  exact if_pos ⟨rfl, hfor⟩

theorem override_of_ownRule (hown : OwnRule l after) {name : Text}
    (hsetting : flattenProfileLine l after = .setting name value) {ld : Loading} (hok : TablesOk ld)
    (hvalid : (applySetting ld name value).invalid = false)
    (hother : key.isFor target l.sect = false) :
    override (applySetting ld name value).state key target = override ld.state key target := by
  have hnone : lineWrite key target l after = none := by
    by_contra hsome
    obtain ⟨o, ho⟩ := Option.ne_none_iff_exists'.mp hsome
    obtain ⟨v, rule, hvalue, -⟩ := lineValue_of_lineWrite hown ho
    obtain ⟨k, -, -, hfor⟩ := lineValue_eq_some.mp hvalue
    rw [hother] at hfor
    cases hfor
  unfold lineWrite at hnone
  rw [lineRule_of_setting hsetting] at hnone
  rw [(override_applySetting hok hvalid).2 key target]
  unfold afterRule
  rw [hnone]
  rfl

end

section
variable {profiles : Document} {key : ProfileKey} {target : Text}

/-- The override that the loader puts in force for a target. -/
def loaded (profiles : Document) (key : ProfileKey) (target : Text) : Option (Option Override) :=
  lastSome (settingWrite key target) (emitted flattenProfileLine profiles)

theorem loaded_append (before : Document) (l : Line) (after : Document) (key : ProfileKey)
    (target : Text) :
    ∃ earlier, loaded (before ++ l :: after) key target =
      ((loaded after key target).or (lineWrite key target l after)).or earlier := by
  refine ⟨lastSome (settingWrite key target) (filterMapTails (fun x rest =>
    emission flattenProfileLine x (rest ++ l :: after)) before), ?_⟩
  rw [← emission_bind_settingWrite]
  exact lastSome_filterMapTails_append _ _ _ _ _

theorem exists_of_loaded (h : loaded profiles key target = some o) :
    ∃ before l after, profiles = before ++ l :: after ∧ lineWrite key target l after = some o := by
  obtain ⟨setting, hmem, hwrite⟩ := exists_of_lastSome h
  obtain ⟨before, l, after, hprofiles, hemission⟩ := mem_filterMapTails.mp hmem
  refine ⟨before, l, after, hprofiles, ?_⟩
  rw [← emission_bind_settingWrite, hemission]
  exact hwrite

theorem loaded_ne_none {after : Document} {l : Line} (h : lineWrite key target l after = some o) :
    loaded (before ++ l :: after) key target ≠ none := by
  obtain ⟨earlier, heq⟩ := loaded_append before l after key target
  rw [heq, h]
  cases loaded after key target <;> simp

theorem loaded_of_last {after : Document} {l : Line}
    (hown : ∀ before' x after', after = before' ++ x :: after' → OwnRule x after')
    (hafter : ∀ x ∈ after, lineValue key target x = none)
    (h : lineWrite key target l after = some o) :
    loaded (before ++ l :: after) key target = some o := by
  have hnone : loaded after key target = none := by
    by_contra hsome
    obtain ⟨o', ho'⟩ := Option.ne_none_iff_exists'.mp hsome
    obtain ⟨before', x, after', hsplit, hwrite⟩ := exists_of_loaded ho'
    obtain ⟨v, rule, hvalue, -⟩ := lineValue_of_lineWrite (hown before' x after' hsplit) hwrite
    rw [hafter x (by rw [hsplit]; simp)] at hvalue
    cases hvalue
  obtain ⟨earlier, heq⟩ := loaded_append before l after key target
  rw [heq, h, hnone]
  rfl

end

theorem digitsValue_of_mem {base : Nat} {digits : Text} {c : Char} (hc : digitValue c = none)
    (hmem : c ∈ digits) : digitsValue base digits = none := by
  obtain ⟨front, back, rfl⟩ := List.append_of_mem hmem
  unfold digitsValue
  rw [if_neg (by simp), List.foldl_append, List.foldl_cons]
  have habsorb : ∀ {f : Option Nat → Char → Option Nat}, (∀ d, f none d = none) →
      ∀ l : Text, l.foldl f none = none := by
    intro f hnone l
    induction l with
    | nil => rfl
    | cons d l ih => rw [List.foldl_cons, hnone, ih]
  rw [hc]
  generalize front.foldl _ (some 0) = total
  cases total <;> exact habsorb (fun _ => rfl) back

theorem prefixedValue_of_colon {digits : Text} (h : ':' ∈ digits) :
    prefixedValue digits = none := by
  unfold prefixedValue
  split
  · exact digitsValue_of_mem (c := ':') rfl (by simpa using h)
  · exact digitsValue_of_mem (c := ':') rfl (by simpa using h)
  · rename_i rest _ _
    have hrest : ':' ∈ rest := by simpa using h
    rw [if_neg (List.ne_nil_of_mem hrest)]
    exact digitsValue_of_mem (c := ':') rfl hrest
  · exact digitsValue_of_mem (c := ':') rfl h

theorem mem_dropWhile_of_not {p : Char → Bool} {s : Text} {c : Char} (hc : p c = false)
    (h : c ∈ s) : c ∈ s.dropWhile p := by
  induction s with
  | nil => cases h
  | cons d s ih =>
    rw [List.dropWhile_cons]
    split
    · rename_i hd
      rcases List.mem_cons.mp h with rfl | hs
      · rw [hc] at hd
        cases hd
      · exact ih hs
    · exact h

theorem parseSectorSize_of_colon (h : ':' ∈ value) : parseSectorSize (trimAscii value) = none := by
  have htrim : ':' ∈ trimAscii value := by
    have hdrop := mem_dropWhile_of_not (p := isAsciiBlank) rfl h
    unfold trimAscii trim List.rdropWhile
    rw [List.mem_reverse]
    exact mem_dropWhile_of_not rfl (List.mem_reverse.mpr hdrop)
  have hspace := mem_dropWhile_of_not (p := isSpace) (c := ':') rfl htrim
  have hwhole : strtoulWhole (trimAscii value) = none := by
    unfold strtoulWhole
    simp only
    split
    · rename_i rest heq
      rw [heq] at hspace
      rw [prefixedValue_of_colon (by simpa using hspace)]
    · rename_i rest heq
      rw [heq] at hspace
      rw [prefixedValue_of_colon (by simpa using hspace)]
    · rw [prefixedValue_of_colon hspace]
  unfold parseSectorSize parseU32Ini
  rw [hwhole]

section
variable {profiles : Document}

/-- All lines are rules for the identity of their own section. -/
def OwnRules (profiles : Document) : Prop :=
  ∀ before l after, profiles = before ++ l :: after → OwnRule l after

/-- The condition on rules, said of the lines that are in force. -/
theorem ownRules_iff (haccepted : AcceptedLines profiles) :
    OwnRules profiles ↔ ∀ before l after value filename rule,
      profiles = before ++ l :: after → InForce .sectorSize value l after →
      imageSection l.sect = some filename → sameNoCase value "default".toList = false →
      parseImageSectorRuleValue (filename ++ ':' :: value) = some rule →
      (ProfileKey.sectorSize.identity l.sect).any (sameNoCase rule.1) = true := by
  constructor
  · intro hown before l after value filename rule hprofiles hforce hsect hdefault hparse
    obtain ⟨filename', hsect', ⟨hdefault', -⟩ | ⟨-, rule', hparse', hrule⟩⟩ :=
      lineRule_sectorSize hforce (haccepted before l after hprofiles)
    · rw [hdefault] at hdefault'
      cases hdefault'
    · rw [hsect] at hsect'
      cases hsect'
      rw [hparse] at hparse'
      cases hparse'
      obtain ⟨identity, hidentity, hfold⟩ := hown before l after hprofiles _ hrule
      rw [hidentity, Option.any_some, sameNoCase_iff]
      exact hfold
  · intro himages before l after hprofiles rule hrule
    have hl := haccepted before l after hprofiles
    obtain ⟨value, hforce⟩ := inForce_of_lineRule hrule
    by_cases hsector : rule.key = .sectorSize
    · rw [hsector] at hforce ⊢
      obtain ⟨filename, hsect, ⟨-, hnone⟩ | ⟨hdefault, parsed, hparse, hrule'⟩⟩ :=
        lineRule_sectorSize hforce hl
      · rw [hrule] at hnone
        cases hnone
      · rw [hrule] at hrule'
        cases hrule'
        have himage := himages before l after value filename parsed hprofiles hforce hsect
          hdefault hparse
        cases hidentity : ProfileKey.sectorSize.identity l.sect with
        | none => rw [hidentity] at himage; cases himage
        | some identity =>
          rw [hidentity, Option.any_some, sameNoCase_iff] at himage
          exact ⟨identity, rfl, himage⟩
    · obtain ⟨identity, hidentity, ⟨-, -, hnone⟩ | ⟨rule', hrule', -, -, hown⟩⟩ :=
        lineRule_spec hforce hl
      · rw [hrule] at hnone
        cases hnone
      · rw [hrule] at hrule'
        cases hrule'
        exact ⟨identity, hidentity, by rw [(hown (fun h => absurd h hsector)).1]⟩

theorem valid_applySetting_sector {key : Text} (hrule : ruleOf key value = some rule)
    (hkey : rule.key = .sectorSize) :
    (applySetting (initialLoading []) key value).invalid = false := by
  unfold ruleOf at hrule
  unfold applySetting
  split at hrule
  · obtain ⟨name, -, rfl⟩ := Option.map_eq_some_iff.mp hrule
    cases hkey
  · rename_i hsetting
    obtain ⟨parsed, hparsed, -⟩ := Option.map_eq_some_iff.mp hrule
    rw [hsetting]
    simp only [setImageSectorRule, hparsed]
    rfl
  · obtain ⟨name, -, rfl⟩ := Option.map_eq_some_iff.mp hrule
    cases hkey
  · obtain ⟨name, -, rfl⟩ := Option.map_eq_some_iff.mp hrule
    cases hkey
  · obtain ⟨name, -, rfl⟩ := Option.map_eq_some_iff.mp hrule
    cases hkey
  · cases hrule
  · cases hrule
  · cases hrule

theorem exists_normalize_of_sectorRule {text : Text} {rule : Text × Nat}
    (h : parseImageSectorRuleValue text = some rule) :
    ∃ target, normalizeImageFilenameValue target = some rule.1 := by
  unfold parseImageSectorRuleValue at h
  split at h
  · cases h
  · split at h
    · cases h
    · simp only at h
      split at h
      · rename_i name size hname hsize
        cases h
        exact ⟨_, hname⟩
      · cases h

/-- The rules are for their own sections exactly when no line changes another
identity. -/
theorem ownRules_iff_ownIdentity (haccepted : AcceptedLines profiles) :
    OwnRules profiles ↔ ∀ before l after key value, profiles = before ++ l :: after →
      flattenProfileLine l after = .setting key value →
      ∀ ld, TablesOk ld → (applySetting ld key value).invalid = false →
      ∀ question target, ProfileKey.isFor question target l.sect = false →
        override (applySetting ld key value).state question target =
          override ld.state question target := by
  constructor
  · intro hown before l after key value hprofiles hsetting ld hok hvalid question target hother
    exact override_of_ownRule (hown before l after hprofiles) hsetting hok hvalid hother
  · intro hisolated
    rw [ownRules_iff haccepted]
    intro before l after value filename rule hprofiles hforce hsect hdefault hparse
    by_contra hother
    rw [Bool.not_eq_true] at hother
    obtain ⟨filename', hsect', ⟨hdefault', -⟩ | ⟨-, rule', hparse', hrule⟩⟩ :=
      lineRule_sectorSize hforce (haccepted before l after hprofiles)
    · rw [hdefault] at hdefault'
      cases hdefault'
    · rw [hsect] at hsect'
      cases hsect'
      rw [hparse] at hparse'
      cases hparse'
      -- the line is applied to empty tables and asked about the image it names
      obtain ⟨setting, hemission, hruleOf⟩ := Option.bind_eq_some_iff.mp hrule
      obtain ⟨target, htarget⟩ := exists_normalize_of_sectorRule hparse
      have hvalid := valid_applySetting_sector hruleOf rfl
      have hok := tablesOk_initialLoading []
      have hnot : ProfileKey.sectorSize.isFor target l.sect = false := by
        unfold ProfileKey.isFor
        cases hidentity : ProfileKey.sectorSize.identity l.sect with
        | none => rfl
        | some identity =>
          rw [hidentity, Option.any_some] at hother
          rw [Option.any_some]
          simp only [ProfileKey.names, ProfileKey.resolve, htarget]
          rw [Bool.eq_false_iff] at hother ⊢
          exact fun h => hother (sameNoCase_symm h)
      have hsame := hisolated before l after setting.1 setting.2 hprofiles
        (emission_eq_some.mp hemission) (initialLoading []) hok hvalid .sectorSize target hnot
      rw [override_initialLoading, (override_applySetting hok hvalid).2, hruleOf,
        afterRule_same _ ⟨.sectorSize, rule.1, some (.sectorSize rule.2)⟩] at hsame
      have hnames : ProfileKey.sectorSize.names rule.1 target = true := by
        simp only [ProfileKey.names, ProfileKey.resolve, htarget]
        exact sameNoCase_refl _
      rw [if_pos hnames] at hsame
      cases hsame

/-- A rule for another key than the fakelib mode never removes an override, and its
line is no reset. -/
theorem value_of_lineWrite (haccepted : AcceptedLines profiles) (hown : OwnRules profiles)
    {after : Document} {l : Line} {key : ProfileKey} {target : Text}
    (hprofiles : profiles = before ++ l :: after) (hkey : key ≠ .fakelib)
    (h : lineWrite key target l after = some o) :
    o ≠ none ∧ ∃ value, InForce key value l after ∧ key.isFor target l.sect = true ∧
      key.parseValue value ≠ some none := by
  obtain ⟨value, rule, hvalue, hforce, hrule, -, rfl⟩ :=
    lineValue_of_lineWrite (hown before l after hprofiles) h
  obtain ⟨k, -, -, hfor⟩ := lineValue_eq_some.mp hvalue
  obtain ⟨identity, -, ⟨-, -, hnone⟩ | ⟨rule', hrule', -, hreset, -⟩⟩ :=
    lineRule_spec hforce (haccepted before l after hprofiles)
  · rw [hrule] at hnone
    cases hnone
  · rw [hrule] at hrule'
    cases hrule'
    exact ⟨(hreset hkey).1, value, hforce, hfor, (hreset hkey).2⟩

theorem loaded_of_lastLine (hown : OwnRules profiles) {after : Document} {l : Line} {target : Text}
    (hprofiles : profiles = before ++ l :: after)
    (hvalue : lineValue rule.key target l = some value)
    (hafter : ∀ x ∈ after, lineValue rule.key target x = none)
    (hrule : lineRule l after = some rule) : loaded profiles rule.key target = some rule.value := by
  obtain ⟨k, -, -, hfor⟩ := lineValue_eq_some.mp hvalue
  rw [hprofiles]
  refine loaded_of_last ?_ hafter
    (lineWrite_of_isFor (hown before l after hprofiles) hrule hfor)
  intro before' x after' hsplit
  refine hown (before ++ l :: before') x after' ?_
  rw [hprofiles, hsplit]
  simp

theorem loaded_eq_none (hown : OwnRules profiles) {key : ProfileKey} {target : Text}
    (h : lastSome (lineValue key target) profiles = none) : loaded profiles key target = none := by
  by_contra hsome
  obtain ⟨o, ho⟩ := Option.ne_none_iff_exists'.mp hsome
  obtain ⟨before, l, after, hprofiles, hwrite⟩ := exists_of_loaded ho
  obtain ⟨value, rule, hvalue, -⟩ :=
    lineValue_of_lineWrite (hown before l after hprofiles) hwrite
  rw [lastSome_eq_none_iff.mp h l (by rw [hprofiles]; simp)] at hvalue
  cases hvalue

/-- The two conditions are enough. -/
theorem loaded_eq_specified (haccepted : AcceptedLines profiles) (hown : OwnRules profiles)
    (h : Unambiguous profiles) (key : ProfileKey) (target : Text) :
    (loaded profiles key target).join = specified profiles key target := by
  unfold specified
  cases hlast : lastSome (lineValue key target) profiles with
  | none =>
    rw [loaded_eq_none hown hlast]
    rfl
  | some value =>
    obtain ⟨before, l, after, hprofiles, hvalue, hafter⟩ := lastSome_eq_some_iff.mp hlast
    have hforce := inForce_of_last hvalue hafter
    obtain ⟨identity, -, ⟨hkey, hreset, -⟩ | ⟨rule, hrule, hkey, -, hplain⟩⟩ :=
      lineRule_spec hforce (haccepted before l after hprofiles)
    · -- the last line is a reset, so no line is a rule for the target
      have hnone : loaded profiles key target = none := by
        by_contra hsome
        obtain ⟨o, ho⟩ := Option.ne_none_iff_exists'.mp hsome
        obtain ⟨before', x, after', hprofiles', hwrite⟩ := exists_of_loaded ho
        obtain ⟨-, v, hforce', hfor', hv⟩ :=
          value_of_lineWrite haccepted hown hprofiles' hkey hwrite
        refine h.resets before' x after' key v target hprofiles' hkey hforce' hfor' hv ?_
        rw [hlast, Option.bind_some, hreset]
      rw [hnone, Option.bind_some, hreset]
      rfl
    · subst hkey
      have hsize : rule.key = .sectorSize → ':' ∉ value := by
        intro hsector
        rw [hsector] at hlast
        exact h.sizes target value hlast
      rw [loaded_of_lastLine hown hprofiles hvalue hafter hrule, Option.bind_some,
        (hplain hsize).2]

/-- The two conditions are needed. -/
theorem unambiguous_of_loaded (haccepted : AcceptedLines profiles) (hown : OwnRules profiles)
    (h : ∀ key target, (loaded profiles key target).join = specified profiles key target) :
    Unambiguous profiles where
  resets := by
    intro before l after key value target hprofiles hkey hforce hfor hvalue hreset
    have hspecified : specified profiles key target = none := by
      unfold specified
      rw [hreset]
      rfl
    obtain ⟨identity, -, ⟨-, hreset', -⟩ | ⟨rule, hrule, rfl, -, -⟩⟩ :=
      lineRule_spec hforce (haccepted before l after hprofiles)
    · exact hvalue hreset'
    · have hwrite := lineWrite_of_isFor (hown before l after hprofiles) hrule hfor
      have hsome : loaded profiles rule.key target ≠ none := by
        rw [hprofiles]
        exact loaded_ne_none hwrite
      obtain ⟨o, ho⟩ := Option.ne_none_iff_exists'.mp hsome
      obtain ⟨before', x, after', hprofiles', hwrite'⟩ := exists_of_loaded ho
      have hne := (value_of_lineWrite haccepted hown hprofiles' hkey hwrite').1
      have heq := h rule.key target
      rw [hspecified, ho] at heq
      exact hne heq
  sizes := by
    intro target value hlast hcolon
    obtain ⟨before, l, after, hprofiles, hvalue, hafter⟩ := lastSome_eq_some_iff.mp hlast
    have hforce := inForce_of_last hvalue hafter
    have hdefault : sameNoCase value "default".toList = false := by
      rw [Bool.eq_false_iff]
      intro hsame
      have hmem := mem_of_fold_eq (sameNoCase_iff.mp hsame) (d := ':') rfl hcolon
      exact absurd hmem (by decide)
    have hspecified : specified profiles .sectorSize target = none := by
      unfold specified
      rw [hlast]
      simp only [Option.bind_some, ProfileKey.parseValue, hdefault,
        parseSectorSize_of_colon hcolon]
      rfl
    obtain ⟨filename, -, ⟨hdefault', -⟩ | ⟨-, rule, -, hrule⟩⟩ :=
      lineRule_sectorSize hforce (haccepted before l after hprofiles)
    · rw [hdefault] at hdefault'
      cases hdefault'
    · have heq := h .sectorSize target
      have hloaded := loaded_of_lastLine hown hprofiles hvalue hafter hrule
      simp only at hloaded
      rw [hspecified, hloaded] at heq
      cases heq
  images := (ownRules_iff haccepted).mp hown

end

/-- Of every accepted pair of documents, exactly when the overrides in force are those
of the profiles. -/
theorem followsProfiles_iff {main profiles : Document} {s : RuntimeState}
    (h : parseRuntimeConfigState main profiles = some s) :
    FollowsProfiles profiles s ↔ Unambiguous profiles := by
  have haccepted := acceptedLines_of_parse h
  constructor
  · intro hfollows
    have hown := (ownRules_iff_ownIdentity haccepted).mpr hfollows.ownIdentity
    refine unambiguous_of_loaded haccepted hown ?_
    intro key target
    rw [← hfollows.lastLine, override_of_accepted h]
    rfl
  · intro hunambiguous
    have hown := (ownRules_iff haccepted).mpr hunambiguous.images
    refine ⟨?_, (ownRules_iff_ownIdentity haccepted).mp hown⟩
    intro key target
    rw [override_of_accepted h]
    exact loaded_eq_specified haccepted hown hunambiguous key target

/-- No line is a reset, and no value has a colon. -/
def plainLine (l : Line) : Bool :=
  match l.content with
  | .entry k value =>
    [ProfileKey.fakelib, .ignoreGlobalFakelib, .mountMode, .sectorSize].all fun key =>
      !sameNoCase k key.name || (key.parseValue value ≠ some none && ':' ∉ value)
  | _ => true

theorem plainLine_entry {l : Line} {k : Text} {key : ProfileKey} (h : plainLine l = true)
    (hcontent : l.content = .entry k value) (hk : sameNoCase k key.name = true) :
    key.parseValue value ≠ some none ∧ ':' ∉ value := by
  unfold plainLine at h
  rw [hcontent] at h
  have hkey := List.all_eq_true.mp h key (by cases key <;> simp)
  rw [hk] at hkey
  simpa using hkey

/-- Plain lines leave nothing open. -/
theorem unambiguous_of_plain {profiles : Document} (h : ∀ l ∈ profiles, plainLine l = true) :
    Unambiguous profiles where
  resets := by
    intro before l after key value target hprofiles hkey hforce hfor hvalue hlast
    obtain ⟨v, hv, hparse⟩ := Option.bind_eq_some_iff.mp hlast
    obtain ⟨x, hx, hline⟩ := exists_of_lastSome hv
    obtain ⟨k, hcontent, hk, -⟩ := lineValue_eq_some.mp hline
    exact (plainLine_entry (h x hx) hcontent hk).1 hparse
  sizes := by
    intro target value hlast
    obtain ⟨x, hx, hline⟩ := exists_of_lastSome hlast
    obtain ⟨k, hcontent, hk, -⟩ := lineValue_eq_some.mp hline
    exact (plainLine_entry (h x hx) hcontent hk).2
  images := by
    intro before l after value filename rule hprofiles hforce hsect hdefault hparse
    obtain ⟨k, hcontent, hk, -, -⟩ := hforce
    have hcolon := (plainLine_entry (h l (by rw [hprofiles]; simp)) hcontent hk).2
    obtain ⟨hname, -⟩ := parseImageSectorRuleValue_append hcolon hparse
    have hidentity : ProfileKey.sectorSize.identity l.sect = some rule.1 := by
      unfold ProfileKey.identity
      rw [hsect]
      exact hname
    rw [hidentity, Option.any_some]
    exact sameNoCase_refl _

/-- The lines of a document of the second format. -/
def documentOf (text : String) : Document :=
  (Ini.read false ("[config]\nversion = 2\n" ++ text).toList).getD []

theorem followsProfiles_of_one_mode :
    ∃ s, parseRuntimeConfigState (documentOf "") (documentOf "[image:a.img]\nmount_mode = rw\n") =
        some s ∧
      override s .mountMode "/data/A.IMG".toList = some (.readOnly false) ∧
      FollowsProfiles (documentOf "[image:a.img]\nmount_mode = rw\n") s := by
  have hmode : (parseRuntimeConfigState (documentOf "")
      (documentOf "[image:a.img]\nmount_mode = rw\n")).map
        (fun s => override s .mountMode "/data/A.IMG".toList) = some (some (.readOnly false)) := by
    decide +kernel
  obtain ⟨s, hs, hoverride⟩ := Option.map_eq_some_iff.mp hmode
  have hplain : ∀ l ∈ documentOf "[image:a.img]\nmount_mode = rw\n", plainLine l = true := by
    decide +kernel
  exact ⟨s, hs, hoverride, (followsProfiles_iff hs).mpr (unambiguous_of_plain hplain)⟩

/-- A second spelling of the image resets its mode, and the first one stays in force. -/
theorem mode_survives_reset :
    ∃ s, parseRuntimeConfigState (documentOf "") (documentOf
        "[image:a.img]\nmount_mode = rw\n[image: a.img]\nmount_mode = default\n") = some s ∧
      version (documentOf "") = true ∧
      version (documentOf
        "[image:a.img]\nmount_mode = rw\n[image: a.img]\nmount_mode = default\n") = true ∧
      ¬ FollowsProfiles (documentOf
        "[image:a.img]\nmount_mode = rw\n[image: a.img]\nmount_mode = default\n") s := by
  have hmode : (parseRuntimeConfigState (documentOf "") (documentOf
      "[image:a.img]\nmount_mode = rw\n[image: a.img]\nmount_mode = default\n")).map
        (fun s => override s .mountMode "a.img".toList) = some (some (.readOnly false)) := by
    decide +kernel
  obtain ⟨s, hs, hoverride⟩ := Option.map_eq_some_iff.mp hmode
  refine ⟨s, hs, by decide +kernel, by decide +kernel, ?_⟩
  intro hfollows
  have hasked : specified (documentOf
      "[image:a.img]\nmount_mode = rw\n[image: a.img]\nmount_mode = default\n")
      .mountMode "a.img".toList = none := by
    decide +kernel
  rw [hfollows.lastLine, hasked] at hoverride
  cases hoverride

end ShadowMount.Config
