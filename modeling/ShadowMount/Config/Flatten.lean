import ShadowMount.Config.Overrides

/-!
# Configuration - the flat settings of two documents

The loader writes the settings of both documents into a third one and reads them
back from there.  That document plays no part: the settings come back in the order
of the lines they come from.
-/

namespace ShadowMount.Config

open Foundation Ini

variable {setting : Text × Text} {flat main profiles : Document}

/-- The setting a line emits. -/
def emission (flattenLine : Line → Document → Flattened) (l : Line) (after : Document) :
    Option (Text × Text) :=
  match flattenLine l after with
  | .setting key value => some (key, value)
  | _ => none

/-- The settings a document emits. -/
def emitted (flattenLine : Line → Document → Flattened) (d : Document) : List (Text × Text) :=
  filterMapTails (emission flattenLine) d

theorem emission_eq_some {flattenLine : Line → Document → Flattened} {l : Line} {after : Document} :
    emission flattenLine l after = some setting ↔
      flattenLine l after = .setting setting.1 setting.2 := by
  unfold emission
  split
  · rename_i key value h
    rw [h, Option.some.injEq, Flattened.setting.injEq, Prod.ext_iff]
  · rename_i h
    simp only [reduceCtorEq, false_iff]
    exact h setting.1 setting.2

/-- All lines belong to the one section of a flat document. -/
def AllRuntime (flat : Document) : Prop := ∀ l ∈ flat, l.sect = "runtime".toList

theorem sectionEnd_of_allRuntime (h : AllRuntime flat) (hne : flat ≠ []) :
    sectionEnd "runtime".toList flat = some flat.length := by
  induction flat with
  | nil => exact absurd rfl hne
  | cons l flat ih =>
    have hl : l.sect = "runtime".toList := h l List.mem_cons_self
    have hrest : AllRuntime flat := fun x hx => h x (List.mem_cons_of_mem _ hx)
    unfold sectionEnd
    cases flat with
    | nil => simp [sectionEnd, hl, sameNoCase]
    | cons x flat =>
      rw [ih hrest (List.cons_ne_nil _ _)]
      rfl

/-- One more setting of the flat document. -/
theorem append_runtime {flat' : Document} {key value : Text} (h : AllRuntime flat)
    (happend : append flat "runtime".toList key value = (flat', true)) :
    AllRuntime flat' ∧ flatSettings flat' = flatSettings flat ++ [(key, value)] := by
  unfold append at happend
  split at happend
  · cases happend
  · simp only at happend
    cases flat with
    | nil =>
      cases happend
      refine ⟨?_, rfl⟩
      intro l hl
      rcases List.mem_cons.mp hl with rfl | hl
      · rfl
      · rw [List.mem_singleton.mp hl]
    | cons x flat =>
      simp only [sectionEnd_of_allRuntime h (List.cons_ne_nil _ _), insertLine] at happend
      by_cases hfull : maxLines ≤ (x :: flat).length
      · rw [if_pos hfull] at happend
        cases happend
      · rw [if_neg hfull, List.take_length, List.drop_length] at happend
        cases happend
        constructor
        · intro l hl
          rcases List.mem_append.mp hl with hl | hl
          · exact h l hl
          · rw [List.mem_singleton.mp hl]
        · unfold flatSettings
          rw [List.filterMap_append]
          rfl

/-- A document is flattened without an error, and its settings come out in order. -/
theorem flattenLines_eq_some {flattenLine : Line → Document → Flattened} {d flat' : Document}
    (h : flattenLines flattenLine d flat = some flat') (hflat : AllRuntime flat) :
    AllRuntime flat' ∧ flatSettings flat' = flatSettings flat ++ emitted flattenLine d ∧
      ∀ before l after, d = before ++ l :: after → flattenLine l after ≠ .error := by
  induction d generalizing flat with
  | nil =>
    cases h
    refine ⟨hflat, (List.append_nil _).symm, ?_⟩
    intro before l after heq
    exact absurd heq (by simp)
  | cons l d ih =>
    have hcons : ∀ (_ : flattenLine l d ≠ .error)
        (_ : ∀ before x after, d = before ++ x :: after → flattenLine x after ≠ .error),
        ∀ before x after, l :: d = before ++ x :: after → flattenLine x after ≠ .error := by
      intro hl hd before x after heq
      cases before with
      | nil =>
        obtain ⟨rfl, rfl⟩ := List.cons_eq_cons.mp heq
        exact hl
      | cons b before =>
        exact hd before x after (List.cons_eq_cons.mp heq).2
    unfold flattenLines at h
    split at h
    · rename_i hskip
      obtain ⟨hall, hsettings, herror⟩ := ih h hflat
      refine ⟨hall, ?_, hcons (by simp [hskip]) herror⟩
      rw [hsettings]
      simp [emitted, filterMapTails, emission, hskip]
    · cases h
    · rename_i key value hsetting
      split at h
      · rename_i appended happend
        obtain ⟨hall, hadded⟩ := append_runtime hflat happend
        obtain ⟨hall', hsettings, herror⟩ := ih h hall
        refine ⟨hall', ?_, hcons (by simp [hsetting]) herror⟩
        rw [hsettings, hadded]
        simp [emitted, filterMapTails, emission, hsetting]
      · cases h

theorem flattenDocuments_eq_some (h : flattenDocuments main profiles = some flat) :
    flatSettings flat = emitted flattenMainLine main ++ emitted flattenProfileLine profiles ∧
      ∀ before l after, profiles = before ++ l :: after →
        flattenProfileLine l after ≠ .error := by
  unfold flattenDocuments at h
  split at h
  · cases h
  · rename_i flat' hmain
    obtain ⟨hall, hsettings, -⟩ := flattenLines_eq_some hmain nofun
    obtain ⟨-, hsettings', herror⟩ := flattenLines_eq_some h hall
    refine ⟨?_, herror⟩
    rw [hsettings', hsettings]
    rfl

/-- The state before the first setting. -/
def initialLoading (smb : List Smb.Connection) : Loading :=
  ⟨{ initRuntimeConfigDefaults with smb := smb }, false, false⟩

theorem tablesOk_initialLoading (smb : List Smb.Connection) : TablesOk (initialLoading smb) :=
  ⟨List.nodup_nil, nofun⟩

theorem override_initialLoading (smb : List Smb.Connection) (key : ProfileKey) (target : Text) :
    override (initialLoading smb).state key target = none := by
  cases key with
  | fakelib => rfl
  | ignoreGlobalFakelib =>
    have hnone : isGlobalFakelibExcludedForTitle (initialLoading smb).state target = false := by
      unfold isGlobalFakelibExcludedForTitle
      split <;> rfl
    simp [override, hnone]
  | mountMode =>
    rw [override_mountMode]
    cases normalizeImageFilenameValue target <;> rfl
  | sectorSize =>
    rw [override_sectorSize]
    cases normalizeImageFilenameValue target <;> rfl

theorem override_scanPaths (s : RuntimeState) (paths : List Text) (count : Nat) (key : ProfileKey)
    (target : Text) :
    override { s with scanPaths := paths, customScanPathCount := count } key target =
      override s key target :=
  override_congr rfl rfl rfl key target

theorem override_finishScanPaths (ld : Loading) (key : ProfileKey) (target : Text) :
    override (finishScanPaths ld) key target = override ld.state key target := by
  unfold finishScanPaths
  split
  · exact override_scanPaths ld.state _ ld.state.customScanPathCount key target
  · exact override_scanPaths ld.state _ _ key target

/-- An accepted pair of documents. -/
theorem parseRuntimeConfigState_eq_some {s : RuntimeState}
    (h : parseRuntimeConfigState main profiles = some s) :
    ∃ smb, readSmbConnections main = some smb ∧
      s = finishScanPaths (applySettings (initialLoading smb)
        (emitted flattenMainLine main ++ emitted flattenProfileLine profiles)) ∧
      (applySettings (initialLoading smb)
        (emitted flattenMainLine main ++ emitted flattenProfileLine profiles)).invalid = false ∧
      ∀ before l after, profiles = before ++ l :: after →
        flattenProfileLine l after ≠ .error := by
  unfold parseRuntimeConfigState at h
  split at h
  · rename_i flat smb hflat hsmb
    obtain ⟨hsettings, herror⟩ := flattenDocuments_eq_some hflat
    simp only [hsettings] at h
    split at h
    · cases h
    · rename_i hvalid
      cases h
      rw [Bool.not_eq_true] at hvalid
      exact ⟨smb, hsmb, rfl, hvalid, herror⟩
  · cases h

/-- A valid setting of a rule key is a rule. -/
theorem ruleOf_isSome_of_valid {ld : Loading} {key value : Text}
    (hvalid : (applySetting ld key value).invalid = false) :
    (ruleOf key value).isSome = true ∨ findSetting key = none ∨ findSetting key = some .scanpath ∨
      ∃ k, findSetting key = some (.scalar k) := by
  unfold applySetting at hvalid
  unfold ruleOf
  cases hsetting : findSetting key with
  | none => simp
  | some setting =>
    simp only [hsetting] at hvalid
    cases setting with
    | scalar k => simp
    | scanpath => simp
    | imageMode readOnly =>
      obtain ⟨rules, hrules, -⟩ := store_of_valid hvalid
      unfold setImageModeRule at hrules
      cases hname : normalizeImageFilenameValue value with
      | none => rw [hname] at hrules; cases hrules
      | some name => exact Or.inl rfl
    | imageSector =>
      obtain ⟨rules, hrules, -⟩ := store_of_valid hvalid
      unfold setImageSectorRule at hrules
      cases hrule : parseImageSectorRuleValue value with
      | none => rw [hrule] at hrules; cases hrules
      | some rule => exact Or.inl rfl
    | fakelibExclude =>
      obtain ⟨rules, hrules, -⟩ := store_of_valid hvalid
      obtain ⟨title, htitle, -⟩ := Option.bind_eq_some_iff.mp hrules
      rw [htitle]
      exact Or.inl rfl
    | fakelibMode =>
      obtain ⟨rules, hrules, -⟩ := store_of_valid hvalid
      obtain ⟨rule, hrule, -⟩ := Option.bind_eq_some_iff.mp hrules
      rw [hrule]
      exact Or.inl rfl
    | globalFakelibExclude =>
      obtain ⟨titles, htitles, -⟩ := store_of_valid hvalid
      unfold addGlobalFakelibExcludeRule at htitles
      cases htitle : normalizeTitleIdValue value with
      | none => rw [htitle] at htitles; cases htitles
      | some title => exact Or.inl rfl

theorem exists_valid_of_mem {ld : Loading} {settings : List (Text × Text)}
    (hvalid : (applySettings ld settings).invalid = false) (hmem : setting ∈ settings) :
    ∃ ld', (applySetting ld' setting.1 setting.2).invalid = false := by
  obtain ⟨front, back, rfl⟩ := List.append_of_mem hmem
  unfold applySettings at hvalid
  rw [List.foldl_append, List.foldl_cons] at hvalid
  refine ⟨_, good_of_foldl (fun ld : Loading => ld.invalid = false)
    (fun ld setting h => valid_of_applySetting h) hvalid⟩

theorem ruleOf_of_mem_emitted_main (h : setting ∈ emitted flattenMainLine main) :
    ruleOf setting.1 setting.2 = none := by
  have htable : ∀ k ∈ configKeys, findSetting k.legacy ∉ [some (.imageMode true),
      some (.imageMode false), some .imageSector, some .fakelibExclude, some .fakelibMode,
      some .globalFakelibExclude] := by decide +kernel
  obtain ⟨before, l, after, rfl, hl⟩ := mem_filterMapTails.mp h
  rw [emission_eq_some] at hl
  unfold flattenMainLine at hl
  split at hl
  · split at hl
    · cases hl
    · split at hl
      · cases hl
      · rename_i k hfind
        split at hl
        · cases hl
        · rw [Flattened.setting.injEq] at hl
          unfold ruleOf
          rw [← hl.1]
          have hkey := htable k (List.mem_of_find?_eq_some hfind)
          split
          · rename_i readOnly hset
            cases readOnly <;> simp [hset] at hkey
          all_goals first
            | rfl
            | rename_i hset
              simp [hset] at hkey
  · cases hl

theorem override_of_accepted {s : RuntimeState} (h : parseRuntimeConfigState main profiles = some s)
    (key : ProfileKey) (target : Text) :
    override s key target =
      (lastSome (settingWrite key target) (emitted flattenProfileLine profiles)).join := by
  obtain ⟨smb, -, rfl, hvalid, -⟩ := parseRuntimeConfigState_eq_some h
  have hmain : lastSome (settingWrite key target) (emitted flattenMainLine main) = none := by
    rw [lastSome_eq_none_iff]
    intro setting hmem
    unfold settingWrite
    rw [ruleOf_of_mem_emitted_main hmem]
    rfl
  rw [override_finishScanPaths, override_applySettings (tablesOk_initialLoading smb) hvalid,
    override_initialLoading, lastSome_append, hmain, Option.or_none]
  cases lastSome (settingWrite key target) (emitted flattenProfileLine profiles) with
  | none => rfl
  | some value => rfl

end ShadowMount.Config
