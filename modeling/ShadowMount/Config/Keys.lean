import ShadowMount.Smb

/-!
# Configuration - settings, identities and the names of their sections

The table {lit}`sm_config_keys` relates each setting of the configuration file to
its section, its key and its name in the first format.  Per-game and per-image
settings live in sections named after a title or an image file, and both kinds of
identity are normalized before they are compared or written.
-/

namespace ShadowMount.Config

open Foundation

/-- `sm_config_key_t`. -/
structure ConfigKey where
  sect : Text
  key : Text
  legacy : Text
deriving DecidableEq

def ConfigKey.ofStrings (sect key legacy : String) : ConfigKey :=
  ⟨sect.toList, key.toList, legacy.toList⟩

/-- `sm_config_keys`. -/
def configKeys : List ConfigKey :=
  [ .ofStrings "general" "debug" "debug",
    .ofStrings "general" "quiet_mode" "quiet_mode",
    .ofStrings "general" "library_sync_notification" "library_sync_notification",
    .ofStrings "general" "language" "language",
    .ofStrings "api" "enabled" "api_enabled",
    .ofStrings "api" "bind_address" "api_bind_address",
    .ofStrings "api" "port" "api_port",
    .ofStrings "scan" "depth" "scan_depth",
    .ofStrings "scan" "path" "scanpath",
    .ofStrings "scan" "interval_seconds" "scan_interval_seconds",
    .ofStrings "scan" "stability_wait_seconds" "stability_wait_seconds",
    .ofStrings "mount" "mode" "mount_read_only",
    .ofStrings "mount" "force" "force_mount",
    .ofStrings "mount" "persistent_images" "persistent_image_mounts",
    .ofStrings "mount" "exfat_backend" "exfat_backend",
    .ofStrings "mount" "ufs_backend" "ufs_backend",
    .ofStrings "mount" "nested_pfs_index_cache" "nested_pfs_index_cache",
    .ofStrings "library" "install_all" "app_install_all",
    .ofStrings "library" "remove_missing" "auto_remove_missing_games",
    .ofStrings "library" "remove_with_dlc" "auto_remove_games_with_dlc",
    .ofStrings "library" "remove_delay_seconds" "auto_remove_missing_delay_seconds",
    .ofStrings "fakelib" "enabled" "backport_fakelib",
    .ofStrings "fakelib" "default_mode" "fakelib_default_mode",
    .ofStrings "fakelib" "global_enabled" "global_fakelib",
    .ofStrings "fakelib" "global_path" "global_fakelib_path",
    .ofStrings "fakelib" "global_priority" "global_fakelib_priority",
    .ofStrings "emulators" "update_enabled" "update_emulators",
    .ofStrings "emulators" "path" "emulators_path",
    .ofStrings "emulators" "auto_update_ampr" "auto_update_ampr",
    .ofStrings "emulators" "ampr_update_url" "ampr_update_url",
    .ofStrings "fan" "target_temperature" "fan_target_temperature",
    .ofStrings "sectors" "lvd_exfat" "lvd_exfat_sector_size",
    .ofStrings "sectors" "lvd_ufs" "lvd_ufs_sector_size",
    .ofStrings "sectors" "lvd_pfs" "lvd_pfs_sector_size",
    .ofStrings "sectors" "md_exfat" "md_exfat_sector_size",
    .ofStrings "sectors" "md_ufs" "md_ufs_sector_size" ]

/-- The spaces of `trim_ascii`. -/
def isAsciiBlank (c : Char) : Bool :=
  c = ' ' || c = '\t' || c = '\r' || c = '\n'

/-- `trim_ascii`. -/
def trimAscii (s : Text) : Text := trim isAsciiBlank s

/-- The part behind the last separator. -/
def afterLast (stop : Char) (s : Text) : Text :=
  s.rtakeWhile fun c => c ≠ stop

/-- `get_filename_component`. -/
def getFilenameComponent (path : Text) : Text :=
  if '/' ∈ path then afterLast '/' path else afterLast '\\' path

/-- `normalize_title_id_value`. -/
def normalizeTitleIdValue (value : Text) : Option Text :=
  if maxTitleId ≤ value.length then none
  else if trimAscii value = [] then none
  else if (trimAscii value).all (fun c => c.isAlphanum) then
    some ((trimAscii value).map Char.toUpper)
  else none

/-- `normalize_image_filename_value`. -/
def normalizeImageFilenameValue (value : Text) : Option Text :=
  if maxPath ≤ value.length then none
  else if getFilenameComponent (trimAscii value) = [] then none
  else some (getFilenameComponent (trimAscii value))

/-- The section names that the program's own writers build. -/
inductive CallerSection : Text → Prop where
  | version : CallerSection "config".toList
  | setting {k : ConfigKey} : k ∈ configKeys → CallerSection k.sect
  | game {id : Text} : isSupportedGameTitleId id = true → CallerSection ("game:".toList ++ id)
  | image {value name : Text} : normalizeImageFilenameValue value = some name →
      CallerSection ("image:".toList ++ name)
  | smb {c : Smb.Connection} : Smb.validate c = true → CallerSection ("smb:".toList ++ c.name)

/-- The keys that the program's own writers use. -/
def callerKeys : List Text :=
  "version".toList :: configKeys.map (·.key) ++
    ["fakelib", "ignore_global_fakelib", "mount_mode", "sector_size",
      "path", "username", "password", "active", "read_only"].map String.toList

/-- A name that starts with a character that is neither a space nor a bracket,
ends with no space, and fits the reader's buffer for section names. -/
structure CleanName (name : Text) : Prop where
  first : ∃ c rest, name = c :: rest ∧ isSpace c = false ∧ c ≠ ']'
  last : ∀ c ∈ name.getLast?, isSpace c = false
  short : name.length < maxPath + 32

/-- A tagged name can be written as a section. -/
theorem cleanName_append {tag name : Text}
    (htag : ∃ c rest, tag = c :: rest ∧ isSpace c = false ∧ c ≠ ']') (hne : name ≠ [])
    (hlast : ∀ c ∈ name.getLast?, isSpace c = false)
    (hshort : tag.length + name.length < maxPath + 32) : CleanName (tag ++ name) where
  first := by
    obtain ⟨c, rest, rfl, hspace, hbracket⟩ := htag
    exact ⟨c, rest ++ name, rfl, hspace, hbracket⟩
  last := by
    intro a ha
    rw [List.getLast?_append_of_ne_nil _ hne] at ha
    exact hlast a ha
  short := by
    rw [List.length_append]
    exact hshort

theorem isSpace_of_isAsciiBlank {c : Char} (h : isAsciiBlank c = false)
    (hspace : isSpace c = true) : c = '\x0b' ∨ c = '\x0c' := by
  simp only [isAsciiBlank, Bool.or_eq_false_iff, decide_eq_false_iff_not] at h
  simp only [isSpace, Bool.or_eq_true, decide_eq_true_eq] at hspace
  tauto

theorem afterLast_suffix (stop : Char) (s : Text) : afterLast stop s <:+ s :=
  List.rtakeWhile_suffix _ s

theorem getFilenameComponent_suffix (path : Text) : getFilenameComponent path <:+ path := by
  unfold getFilenameComponent
  split <;> exact afterLast_suffix _ path

/-- A normalised file name fits and has no blank at its end. -/
theorem normalizeImageFilenameValue_eq_some {value name : Text}
    (h : normalizeImageFilenameValue value = some name) :
    name ≠ [] ∧ name.length < maxPath ∧ ∀ c ∈ name.getLast?, isAsciiBlank c = false := by
  unfold normalizeImageFilenameValue at h
  split at h
  · cases h
  · rename_i hlength
    split at h
    · cases h
    · rename_i hne
      cases h
      obtain ⟨front, hfront⟩ := getFilenameComponent_suffix (trimAscii value)
      have hsuffix := (getFilenameComponent_suffix (trimAscii value)).length_le
      have htrim := length_trim_le isAsciiBlank value
      refine ⟨hne, by unfold trimAscii at *; omega, ?_⟩
      intro c hc
      refine trim_last (p := isAsciiBlank) (l := value) ?_
      show (trimAscii value).getLast? = some c
      rw [← hfront, List.getLast?_append_of_ne_nil _ hne]
      exact hc

/-- Every section name that the program writes is clean. -/
theorem CallerSection.clean {name : Text} (h : CallerSection name)
    (hcontrol : ∀ c ∈ name, isControl c = false) : CleanName name := by
  cases h with
  | version =>
    have hlast : ("config".toList.getLast?.all fun c => !isSpace c) = true := by decide
    rw [Option.all_eq_true] at hlast
    exact ⟨⟨'c', _, rfl, rfl, by decide⟩, fun c hc => by simpa using hlast c hc, by decide⟩
  | @setting k hk =>
    have hall : ∀ k ∈ configKeys, (k.sect.head?.all fun c => !isSpace c && c != ']') = true ∧
        k.sect ≠ [] ∧ (k.sect.getLast?.all fun c => !isSpace c) = true ∧
        k.sect.length < maxPath + 32 := by decide
    obtain ⟨hhead, hne, hlast, hshort⟩ := hall k hk
    rw [Option.all_eq_true] at hhead hlast
    obtain ⟨c, rest, hcons⟩ := List.exists_cons_of_ne_nil hne
    have hfirst := hhead c (by rw [hcons]; rfl)
    exact ⟨⟨c, rest, hcons, by simpa using hfirst⟩, fun c hc => by simpa using hlast c hc,
      hshort⟩
  | @game id hid =>
    simp only [isSupportedGameTitleId, Bool.and_eq_true, decide_eq_true_eq] at hid
    obtain ⟨⟨⟨hlength, -⟩, hdigits⟩, -⟩ := hid
    refine cleanName_append ⟨'g', _, rfl, rfl, by decide⟩ ?_ ?_ ?_
    · rintro rfl
      cases hlength
    · intro c hc
      have hsplit : id.getLast? = (id.drop 4).getLast? := by
        rw [List.getLast?_drop, if_neg (by omega)]
      rw [hsplit] at hc
      have hdigit := List.all_eq_true.mp hdigits c (List.mem_of_mem_getLast? hc)
      simp only [Bool.and_eq_true, decide_eq_true_eq] at hdigit
      by_contra hspace
      rw [Bool.not_eq_false] at hspace
      simp only [isSpace, Bool.or_eq_true, decide_eq_true_eq] at hspace
      rcases hspace with ((((rfl | rfl) | rfl) | rfl) | rfl) | rfl <;>
        exact absurd hdigit.1 (by decide)
    · rw [hlength]
      decide
  | @image value name hname =>
    obtain ⟨hne, hshort, hlast⟩ := normalizeImageFilenameValue_eq_some hname
    refine cleanName_append ⟨'i', _, rfl, rfl, by decide⟩ hne ?_ ?_
    · intro c hc
      by_contra hspace
      rw [Bool.not_eq_false] at hspace
      have hmem : c ∈ "image:".toList ++ name :=
        List.mem_append_right _ (List.mem_of_mem_getLast? hc)
      rcases isSpace_of_isAsciiBlank (hlast c hc) hspace with rfl | rfl <;>
        exact absurd (hcontrol _ hmem) (by decide)
    · have htag : "image:".toList.length = 6 := rfl
      omega
  | @smb c hc =>
    have hname : Smb.validateName c.name = true := by
      simp only [Smb.validate, Bool.and_eq_true] at hc
      exact hc.1.1.1.2
    simp only [Smb.validateName, Bool.and_eq_true, decide_eq_true_eq] at hname
    obtain ⟨⟨⟨⟨⟨⟨hshort, hne⟩, -⟩, -⟩, -⟩, hlast⟩, -⟩ := hname
    refine cleanName_append ⟨'s', _, rfl, rfl, by decide⟩ hne ?_ ?_
    · intro a ha
      rw [Option.mem_def.mp ha] at hlast
      simpa using hlast
    · have htag : "smb:".toList.length = 4 := rfl
      have hpath : maxPath = 1024 := rfl
      omega

end ShadowMount.Config
