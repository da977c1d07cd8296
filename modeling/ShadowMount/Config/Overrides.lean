import ShadowMount.Config.Identity
import ShadowMount.Foundation.LastWrite

/-!
# Configuration - the overrides in force

The rule tables of the runtime state answer four questions: the fakelib mode of a
title, whether a title ignores the global fakelib, and the mount mode and the
sector size of an image.  A flat setting is at most one rule, and the tables are
described by what applying one rule does to every answer.
-/

namespace ShadowMount.Config

open Foundation Ini

variable {value : Text} {ld : Loading} {s : RuntimeState}

/-- The per-title and per-image settings. -/
inductive ProfileKey where
  | fakelib | ignoreGlobalFakelib | mountMode | sectorSize
deriving DecidableEq

/-- The answer of a rule table. -/
inductive Override where
  | fakelib (mode : FakelibMode)
  | excluded
  | readOnly (readOnly : Bool)
  | sectorSize (size : Nat)
deriving DecidableEq

/-- A fakelib mode as an override; the default mode is none. -/
def fakelibOverride (mode : FakelibMode) : Option Override :=
  if mode = .default then none else some (.fakelib mode)

/-- The override in force for a title or an image. -/
def override (s : RuntimeState) (key : ProfileKey) (target : Text) : Option Override :=
  match key with
  | .fakelib => fakelibOverride (titleFakelibOverride s target)
  | .ignoreGlobalFakelib =>
    if isGlobalFakelibExcludedForTitle s target then some .excluded else none
  | .mountMode => (getImageModeOverride s target).map .readOnly
  | .sectorSize => (getImageSectorSizeOverride s target).map .sectorSize

/-- What the lookup of a key does to the name it is asked about. -/
def ProfileKey.resolve (key : ProfileKey) (target : Text) : Option Text :=
  match key with
  | .fakelib => some target
  | .ignoreGlobalFakelib => normalizeTitleIdValue target
  | .mountMode | .sectorSize => normalizeImageFilenameValue target

/-- A stored identity is the one asked about. -/
def ProfileKey.names (key : ProfileKey) (identity target : Text) : Bool :=
  match key.resolve target with
  | some name => sameNoCase identity name
  | none => false

/-- One rule; no value removes the override. -/
structure Rule where
  key : ProfileKey
  identity : Text
  value : Option Override
deriving DecidableEq

/-- What a rule writes to the answer for a target. -/
def Rule.write (key : ProfileKey) (target : Text) (rule : Rule) : Option (Option Override) :=
  if rule.key = key ∧ key.names rule.identity target = true then some rule.value else none

/-- The rule that a flat setting is, if it is one. -/
def ruleOf (key value : Text) : Option Rule :=
  match findSetting key with
  | some (.imageMode readOnly) =>
    (normalizeImageFilenameValue value).map
      fun name => ⟨.mountMode, name, some (.readOnly readOnly)⟩
  | some .imageSector =>
    (parseImageSectorRuleValue value).map fun rule =>
      ⟨.sectorSize, rule.1, some (.sectorSize rule.2)⟩
  | some .fakelibExclude =>
    (parseSupportedTitle value).map fun title => ⟨.fakelib, title, fakelibOverride .disabled⟩
  | some .fakelibMode =>
    (parseTitleFakelibRule value).map fun rule => ⟨.fakelib, rule.1, fakelibOverride rule.2⟩
  | some .globalFakelibExclude =>
    (normalizeTitleIdValue value).map fun title => ⟨.ignoreGlobalFakelib, title, some .excluded⟩
  | some (.scalar _) | some .scanpath | none => none

/-- A lookup in the image table. -/
def imageRuleValue {β : Type} (pick : ImageModeRule → Option β) (rules : List ImageModeRule)
    (name : Text) : Option β :=
  rules.findSome? fun rule => if sameNoCase rule.filename name then pick rule else none

theorem imageRuleValue_cons {β : Type} (pick : ImageModeRule → Option β) (rule : ImageModeRule)
    (rules : List ImageModeRule) (name : Text) :
    imageRuleValue pick (rule :: rules) name =
      (if sameNoCase rule.filename name then pick rule else none).or
        (imageRuleValue pick rules name) := by
  unfold imageRuleValue
  rw [List.findSome?_cons]
  cases (if sameNoCase rule.filename name then pick rule else none) <;> rfl

section
variable {β : Type} {pick : ImageModeRule → Option β} {change : ImageModeRule → ImageModeRule}
variable {name target : Text} {rules rules' : List ImageModeRule} {used : Nat}

theorem imageRuleValue_update_other (hupdate : updateImageRule name change rules used = some rules')
    (hfilename : ∀ rule, (change rule).filename = rule.filename)
    (hpick : ∀ rule, pick (change rule) = pick rule) (hnew : pick ⟨name, none, none⟩ = none) :
    imageRuleValue pick rules' target = imageRuleValue pick rules target := by
  induction rules generalizing used rules' with
  | nil =>
    unfold updateImageRule at hupdate
    split at hupdate
    · cases hupdate
      rw [imageRuleValue_cons, hpick, hnew, ite_self]
      rfl
    · cases hupdate
  | cons rule rules ih =>
    unfold updateImageRule at hupdate
    split at hupdate
    · cases hupdate
      rw [imageRuleValue_cons, imageRuleValue_cons, hfilename, hpick]
    · obtain ⟨rest, hrest, rfl⟩ := Option.map_eq_some_iff.mp hupdate
      rw [imageRuleValue_cons, imageRuleValue_cons, ih hrest]

theorem imageRuleValue_update {value : β}
    (hupdate : updateImageRule name change rules used = some rules')
    (hfilename : ∀ rule, (change rule).filename = rule.filename)
    (hpick : ∀ rule, pick (change rule) = some value) :
    imageRuleValue pick rules' target =
      if sameNoCase name target then some value else imageRuleValue pick rules target := by
  induction rules generalizing used rules' with
  | nil =>
    unfold updateImageRule at hupdate
    split at hupdate
    · cases hupdate
      rw [imageRuleValue_cons, hfilename, hpick]
      split <;> rfl
    · cases hupdate
  | cons rule rules ih =>
    unfold updateImageRule at hupdate
    split at hupdate
    · rename_i hsame
      cases hupdate
      rw [imageRuleValue_cons, imageRuleValue_cons, hfilename, hpick,
        sameNoCase_congr_left hsame]
      split <;> rfl
    · rename_i hother
      obtain ⟨rest, hrest, rfl⟩ := Option.map_eq_some_iff.mp hupdate
      rw [imageRuleValue_cons, imageRuleValue_cons, ih hrest]
      by_cases hname : sameNoCase name target = true
      · have hrule : sameNoCase rule.filename target = false := by
          rw [Bool.eq_false_iff]
          intro h
          rw [sameNoCase_iff] at h hname
          exact hother (sameNoCase_iff.mpr (h.trans hname.symm))
        rw [hrule, if_pos hname, if_pos hname]
        rfl
      · rw [if_neg hname, if_neg hname]

end

/-- The mode a fakelib table gives a title. -/
def fakelibRuleMode (rules : List FakelibRule) (title : Text) : FakelibMode :=
  match rules.find? fun rule => sameNoCase rule.titleId title with
  | some rule => rule.mode
  | none => .default

/-- The titles of a fakelib table are normalized and distinct. -/
structure FakelibTableOk (rules : List FakelibRule) : Prop where
  distinct : (rules.map (·.titleId)).Nodup
  upper : ∀ rule ∈ rules, IsUpper rule.titleId

theorem FakelibTableOk.tail {rule : FakelibRule} {rules : List FakelibRule}
    (h : FakelibTableOk (rule :: rules)) : FakelibTableOk rules :=
  ⟨(List.nodup_cons.mp h.distinct).2, fun r hr => h.upper r (List.mem_cons_of_mem _ hr)⟩

theorem fakelibRuleMode_cons (rule : FakelibRule) (rules : List FakelibRule) (title : Text) :
    fakelibRuleMode (rule :: rules) title =
      if sameNoCase rule.titleId title then rule.mode else fakelibRuleMode rules title := by
  unfold fakelibRuleMode
  rw [List.find?_cons]
  cases sameNoCase rule.titleId title <;> rfl

section
variable {title target : Text} {mode : FakelibMode} {rules rules' : List FakelibRule} {used : Nat}

theorem titleId_of_mem_set (hset : setTitleFakelibRule title mode rules used = some rules')
    {rule : FakelibRule} (hrule : rule ∈ rules') :
    rule.titleId = title ∨ ∃ old ∈ rules, old.titleId = rule.titleId := by
  induction rules generalizing used rules' with
  | nil =>
    unfold setTitleFakelibRule at hset
    split at hset
    · cases hset
      cases hrule
    · split at hset
      · cases hset
        rw [List.mem_singleton.mp hrule]
        exact .inl rfl
      · cases hset
  | cons first rules ih =>
    unfold setTitleFakelibRule at hset
    split at hset
    · rename_i hfirst
      cases hset
      split at hrule
      · exact .inr ⟨rule, List.mem_cons_of_mem _ hrule, rfl⟩
      · rcases List.mem_cons.mp hrule with rfl | hrest
        · exact .inl hfirst
        · exact .inr ⟨rule, List.mem_cons_of_mem _ hrest, rfl⟩
    · obtain ⟨rest, hrest, rfl⟩ := Option.map_eq_some_iff.mp hset
      rcases List.mem_cons.mp hrule with rfl | hmem
      · exact .inr ⟨rule, List.mem_cons_self, rfl⟩
      · rcases ih hrest hmem with htitle | ⟨old, hold, heq⟩
        · exact .inl htitle
        · exact .inr ⟨old, List.mem_cons_of_mem _ hold, heq⟩

theorem fakelibTableOk_set (hset : setTitleFakelibRule title mode rules used = some rules')
    (htitle : IsUpper title) (hok : FakelibTableOk rules) : FakelibTableOk rules' := by
  refine ⟨?_, ?_⟩
  · induction rules generalizing used rules' with
    | nil =>
      unfold setTitleFakelibRule at hset
      split at hset
      · cases hset
        exact List.nodup_nil
      · split at hset
        · cases hset
          exact List.nodup_singleton _
        · cases hset
    | cons first rules ih =>
      have hdistinct := hok.distinct
      rw [List.map_cons, List.nodup_cons] at hdistinct
      unfold setTitleFakelibRule at hset
      split at hset
      · cases hset
        split
        · exact hdistinct.2
        · exact List.nodup_cons.mpr hdistinct
      · rename_i hfirst
        obtain ⟨rest, hrest, rfl⟩ := Option.map_eq_some_iff.mp hset
        rw [List.map_cons, List.nodup_cons]
        refine ⟨?_, ih hrest hok.tail⟩
        intro hmem
        obtain ⟨rule, hrule, heq⟩ := List.mem_map.mp hmem
        rcases titleId_of_mem_set hrest hrule with htitle | ⟨old, hold, hsame⟩
        · exact hfirst (heq.symm.trans htitle)
        · exact hdistinct.1 (List.mem_map.mpr ⟨old, hold, hsame.trans heq⟩)
  · intro rule hrule
    rcases titleId_of_mem_set hset hrule with heq | ⟨old, hold, heq⟩
    · rw [heq]
      exact htitle
    · rw [← heq]
      exact hok.upper old hold

/-- The mode of a title after a rule was set. -/
theorem fakelibRuleMode_set (hset : setTitleFakelibRule title mode rules used = some rules')
    (htitle : IsUpper title) (hok : FakelibTableOk rules) :
    fakelibRuleMode rules' target =
      if sameNoCase title target then mode else fakelibRuleMode rules target := by
  induction rules generalizing used rules' with
  | nil =>
    unfold setTitleFakelibRule at hset
    split at hset
    · rename_i hmode
      cases hset
      rw [hmode]
      exact (ite_self _).symm
    · split at hset
      · cases hset
        rw [fakelibRuleMode_cons]
      · cases hset
  | cons first rules ih =>
    unfold setTitleFakelibRule at hset
    split at hset
    · rename_i hfirst
      cases hset
      rw [fakelibRuleMode_cons first, hfirst]
      split
      · rename_i hmode
        -- the rule is removed, and no other rule is for this title
        split
        · rename_i hsame
          have hnone : rules.find? (fun rule => sameNoCase rule.titleId target) = none := by
            rw [List.find?_eq_none]
            intro rule hrule hmatch
            have heq : rule.titleId = first.titleId := by
              refine eq_of_sameNoCase (hok.tail.upper rule hrule)
                (hok.upper first List.mem_cons_self) ?_
              rw [sameNoCase_iff] at hmatch hsame ⊢
              rw [hmatch, hfirst, hsame]
            exact (List.nodup_cons.mp hok.distinct).1 (List.mem_map.mpr ⟨rule, hrule, heq⟩)
          rw [fakelibRuleMode, hnone, hmode]
        · rfl
      · rw [fakelibRuleMode_cons]
        split <;> rfl
    · rename_i hfirst
      obtain ⟨rest, hrest, rfl⟩ := Option.map_eq_some_iff.mp hset
      rw [fakelibRuleMode_cons, fakelibRuleMode_cons, ih hrest hok.tail]
      by_cases hsame : sameNoCase title target = true
      · have hother : sameNoCase first.titleId target = false := by
          rw [Bool.eq_false_iff]
          intro h
          refine hfirst (eq_of_sameNoCase (hok.upper first List.mem_cons_self) htitle ?_)
          rw [sameNoCase_iff] at h hsame ⊢
          rw [h, hsame]
        rw [hother, if_pos hsame, if_pos hsame]
        rfl
      · rw [if_neg hsame, if_neg hsame]

end

/-- The invariant of the loop over the settings. -/
def TablesOk (ld : Loading) : Prop := FakelibTableOk ld.state.fakelibRules

theorem invalid_store {α : Type} (ld : Loading) (result : Option α)
    (put : RuntimeState → α → RuntimeState) :
    (ld.store result put).invalid = (ld.invalid || result.isNone) := by
  cases result with
  | none => simp [Loading.store]
  | some value => simp [Loading.store]

/-- A table update that was accepted. -/
theorem store_of_valid {α : Type} {result : Option α} {put : RuntimeState → α → RuntimeState}
    (h : (ld.store result put).invalid = false) :
    ∃ value, result = some value ∧
      ld.store result put = { ld with state := put ld.state value } := by
  cases result with
  | none =>
    rw [invalid_store] at h
    simp at h
  | some value => exact ⟨value, rfl, rfl⟩

/-- A failure is never forgotten. -/
theorem valid_of_applySetting {key : Text} (h : (applySetting ld key value).invalid = false) :
    ld.invalid = false := by
  unfold applySetting at h
  split at h
  case h_8 =>
    simp only at h
    split at h
    · exact h
    · cases h
  case h_1 => exact h
  all_goals
    rw [invalid_store, Bool.or_eq_false_iff] at h
    exact h.1

/-- The answers depend on the tables only. -/
theorem override_congr {s' : RuntimeState} (himage : s.imageModeRules = s'.imageModeRules)
    (hfakelib : s.fakelibRules = s'.fakelibRules)
    (hexclude : s.globalFakelibExcludeTitleIds = s'.globalFakelibExcludeTitleIds) (key : ProfileKey)
    (target : Text) : override s key target = override s' key target := by
  cases key with
  | fakelib => simp only [override, titleFakelibOverride, hfakelib]
  | ignoreGlobalFakelib =>
    unfold override isGlobalFakelibExcludedForTitle
    simp only
    rw [hexclude]
  | mountMode => simp only [override, getImageModeOverride, himage]
  | sectorSize => simp only [override, getImageSectorSizeOverride, himage]

theorem override_fakelib (s : RuntimeState) (target : Text) :
    override s .fakelib target = fakelibOverride (fakelibRuleMode s.fakelibRules target) := rfl

theorem override_mountMode (s : RuntimeState) (target : Text) :
    override s .mountMode target = (normalizeImageFilenameValue target).bind fun name =>
      (imageRuleValue (·.mountReadOnly) s.imageModeRules name).map .readOnly := by
  simp only [override, getImageModeOverride]
  cases normalizeImageFilenameValue target <;> rfl

theorem override_sectorSize (s : RuntimeState) (target : Text) :
    override s .sectorSize target = (normalizeImageFilenameValue target).bind fun name =>
      (imageRuleValue (·.sectorSize) s.imageModeRules name).map .sectorSize := by
  simp only [override, getImageSectorSizeOverride]
  cases normalizeImageFilenameValue target <;> rfl

/-- The answer after a rule. -/
def afterRule (s : RuntimeState) (rule : Option Rule) (key : ProfileKey) (target : Text) :
    Option Override :=
  (rule.bind (Rule.write key target)).getD (override s key target)

theorem afterRule_other {rule : Rule} {key : ProfileKey} (target : Text) (h : rule.key ≠ key) :
    afterRule s (some rule) key target = override s key target := by
  simp [afterRule, Rule.write, h]

theorem afterRule_same (s : RuntimeState) (rule : Rule) (target : Text) :
    afterRule s (some rule) rule.key target =
      if rule.key.names rule.identity target then rule.value
      else override s rule.key target := by
  by_cases hnames : rule.key.names rule.identity target = true <;>
    simp [afterRule, Rule.write, hnames]

/-- A mode rule changes the override of its image only. -/
theorem override_setImageModeRule {readOnly : Bool} {rules : List ImageModeRule}
    (h : setImageModeRule s.imageModeRules value readOnly = some rules) (key : ProfileKey)
    (target : Text) :
    override { s with imageModeRules := rules } key target =
      afterRule s ((normalizeImageFilenameValue value).map fun name =>
        ⟨.mountMode, name, some (.readOnly readOnly)⟩) key target := by
  unfold setImageModeRule at h
  split at h
  · cases h
  · rename_i name hname
    rw [hname, Option.map_some]
    cases key with
    | fakelib => exact (afterRule_other target (by simp)).symm
    | ignoreGlobalFakelib => exact (afterRule_other target (by simp)).symm
    | sectorSize =>
      rw [afterRule_other target (by simp), override_sectorSize, override_sectorSize]
      cases normalizeImageFilenameValue target with
      | none => rfl
      | some t =>
        simp only [Option.bind_some]
        rw [imageRuleValue_update_other h (fun _ => rfl) (fun _ => rfl) rfl]
    | mountMode =>
      rw [afterRule_same s ⟨.mountMode, name, some (.readOnly readOnly)⟩, override_mountMode,
        override_mountMode]
      cases htarget : normalizeImageFilenameValue target with
      | none => simp [ProfileKey.names, ProfileKey.resolve, htarget]
      | some t =>
        simp only [ProfileKey.names, ProfileKey.resolve, htarget, Option.bind_some]
        rw [imageRuleValue_update h (fun _ => rfl) (fun _ => rfl)]
        split <;> rfl

theorem override_setImageSectorRule {rules : List ImageModeRule}
    (h : setImageSectorRule s.imageModeRules value = some rules) (key : ProfileKey)
    (target : Text) :
    override { s with imageModeRules := rules } key target =
      afterRule s ((parseImageSectorRuleValue value).map fun rule =>
        ⟨.sectorSize, rule.1, some (.sectorSize rule.2)⟩) key target := by
  unfold setImageSectorRule at h
  split at h
  · cases h
  · rename_i name size hrule
    rw [hrule, Option.map_some]
    cases key with
    | fakelib => exact (afterRule_other target (by simp)).symm
    | ignoreGlobalFakelib => exact (afterRule_other target (by simp)).symm
    | mountMode =>
      rw [afterRule_other target (by simp), override_mountMode, override_mountMode]
      cases normalizeImageFilenameValue target with
      | none => rfl
      | some t =>
        simp only [Option.bind_some]
        rw [imageRuleValue_update_other h (fun _ => rfl) (fun _ => rfl) rfl]
    | sectorSize =>
      rw [afterRule_same s ⟨.sectorSize, name, some (.sectorSize size)⟩, override_sectorSize,
        override_sectorSize]
      cases htarget : normalizeImageFilenameValue target with
      | none => simp [ProfileKey.names, ProfileKey.resolve, htarget]
      | some t =>
        simp only [ProfileKey.names, ProfileKey.resolve, htarget, Option.bind_some]
        rw [imageRuleValue_update h (fun _ => rfl) (fun _ => rfl)]
        split <;> rfl

theorem override_setTitleFakelibRule {title : Text} {mode : FakelibMode} {rules : List FakelibRule}
    (h : setTitleFakelibRule title mode s.fakelibRules 0 = some rules) (htitle : IsUpper title)
    (hok : FakelibTableOk s.fakelibRules) (key : ProfileKey) (target : Text) :
    override { s with fakelibRules := rules } key target =
      afterRule s (some ⟨.fakelib, title, fakelibOverride mode⟩) key target := by
  cases key with
  | fakelib =>
    rw [afterRule_same s ⟨.fakelib, title, fakelibOverride mode⟩, override_fakelib,
      override_fakelib, fakelibRuleMode_set h htitle hok]
    exact apply_ite fakelibOverride _ _ _
  | ignoreGlobalFakelib => exact (afterRule_other target (by simp)).symm
  | mountMode => exact (afterRule_other target (by simp)).symm
  | sectorSize => exact (afterRule_other target (by simp)).symm

/-- A title excluded from the fakelib changes no other override. -/
theorem override_addGlobalFakelibExcludeRule {titles : List Text}
    (h : addGlobalFakelibExcludeRule s.globalFakelibExcludeTitleIds value = some titles)
    (key : ProfileKey) (target : Text) :
    override { s with globalFakelibExcludeTitleIds := titles } key target =
      afterRule s ((normalizeTitleIdValue value).map fun title =>
        ⟨.ignoreGlobalFakelib, title, some .excluded⟩) key target := by
  unfold addGlobalFakelibExcludeRule at h
  split at h
  · cases h
  · rename_i title htitle
    rw [htitle, Option.map_some]
    have hany : ∀ name, titles.any (fun id => sameNoCase id name) =
        (sameNoCase title name ||
          s.globalFakelibExcludeTitleIds.any (fun id => sameNoCase id name)) := by
      intro name
      split at h
      · rename_i hmem
        cases h
        by_cases hsame : sameNoCase title name = true
        · rw [hsame, Bool.true_or, List.any_eq_true]
          exact ⟨title, hmem, hsame⟩
        · rw [Bool.not_eq_true] at hsame
          rw [hsame, Bool.false_or]
      · split at h
        · cases h
          rw [List.any_append, Bool.or_comm]
          simp
        · cases h
    cases key with
    | fakelib => exact (afterRule_other target (by simp)).symm
    | mountMode => exact (afterRule_other target (by simp)).symm
    | sectorSize => exact (afterRule_other target (by simp)).symm
    | ignoreGlobalFakelib =>
      rw [afterRule_same s ⟨.ignoreGlobalFakelib, title, some .excluded⟩]
      cases hname : normalizeTitleIdValue target with
      | none =>
        simp [override, isGlobalFakelibExcludedForTitle, ProfileKey.names, ProfileKey.resolve,
          hname]
      | some name =>
        simp only [override, isGlobalFakelibExcludedForTitle, ProfileKey.names,
          ProfileKey.resolve, hname, hany]
        cases sameNoCase title name <;> rfl

/-- A setting that is accepted changes the answer it is a rule for, and no other. -/
theorem override_applySetting {key : Text} (hok : TablesOk ld)
    (hvalid : (applySetting ld key value).invalid = false) :
    TablesOk (applySetting ld key value) ∧ ∀ (question : ProfileKey) (target : Text),
      override (applySetting ld key value).state question target =
        afterRule ld.state (ruleOf key value) question target := by
  unfold applySetting at hvalid ⊢
  unfold ruleOf
  cases hsetting : findSetting key with
  | none => exact ⟨hok, fun _ _ => rfl⟩
  | some setting =>
    simp only [hsetting] at hvalid
    cases setting with
    | scalar k =>
      obtain ⟨v, hv, hstore⟩ := store_of_valid hvalid
      simp only
      rw [hstore]
      exact ⟨hok, fun q t => override_congr rfl rfl rfl q t⟩
    | imageMode readOnly =>
      obtain ⟨rules, hrules, hstore⟩ := store_of_valid hvalid
      simp only
      rw [hstore]
      exact ⟨hok, override_setImageModeRule hrules⟩
    | imageSector =>
      obtain ⟨rules, hrules, hstore⟩ := store_of_valid hvalid
      simp only
      rw [hstore]
      exact ⟨hok, override_setImageSectorRule hrules⟩
    | fakelibExclude =>
      obtain ⟨rules, hrules, hstore⟩ := store_of_valid hvalid
      obtain ⟨title, htitle, hset⟩ := Option.bind_eq_some_iff.mp hrules
      have hupper := normalizeTitleIdValue_upper (parseSupportedTitle_eq_some htitle).1
      simp only
      rw [hstore, htitle]
      exact ⟨fakelibTableOk_set hset hupper hok, override_setTitleFakelibRule hset hupper hok⟩
    | fakelibMode =>
      obtain ⟨rules, hrules, hstore⟩ := store_of_valid hvalid
      obtain ⟨rule, hrule, hset⟩ := Option.bind_eq_some_iff.mp hrules
      have hupper : IsUpper rule.1 := by
        unfold parseTitleFakelibRule at hrule
        split at hrule
        · cases hrule
        · split at hrule
          · cases hrule
          · split at hrule
            · rename_i title mode htitle hmode
              cases hrule
              exact normalizeTitleIdValue_upper (parseSupportedTitle_eq_some htitle).1
            · cases hrule
      simp only
      rw [hstore, hrule]
      exact ⟨fakelibTableOk_set hset hupper hok, override_setTitleFakelibRule hset hupper hok⟩
    | globalFakelibExclude =>
      obtain ⟨titles, htitles, hstore⟩ := store_of_valid hvalid
      simp only
      rw [hstore]
      exact ⟨hok, override_addGlobalFakelibExcludeRule htitles⟩
    | scanpath =>
      simp only at hvalid ⊢
      split
      · exact ⟨hok, fun q t => override_congr rfl rfl rfl q t⟩
      · exact ⟨hok, fun q t => override_congr rfl rfl rfl q t⟩

/-- What a setting writes to an answer. -/
def settingWrite (key : ProfileKey) (target : Text) (setting : Text × Text) :
    Option (Option Override) :=
  (ruleOf setting.1 setting.2).bind (Rule.write key target)

/-- After a run of settings, every answer is that of the last rule for it. -/
theorem override_applySettings {settings : List (Text × Text)} (hok : TablesOk ld)
    (hvalid : (applySettings ld settings).invalid = false) (key : ProfileKey) (target : Text) :
    override (applySettings ld settings).state key target =
      (lastSome (settingWrite key target) settings).getD (override ld.state key target) := by
  refine look_foldl (fun ld : Loading => override ld.state key target) (settingWrite key target)
    (fun ld : Loading => ld.invalid = false) TablesOk
    (fun ld setting h => valid_of_applySetting h) ?_ hok hvalid
  intro ld setting hvalid hok
  obtain ⟨hok', hoverride⟩ := override_applySetting hok hvalid
  exact ⟨hok', hoverride key target⟩

end ShadowMount.Config
