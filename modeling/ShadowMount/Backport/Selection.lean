import Mathlib.Data.Char
import Mathlib.Order.Lex
import Mathlib.Data.List.Lex
import ShadowMount.Config.Runtime
import ShadowMount.Foundation.RunningLeast

/-!
# Selection of a backport

{lit}`resolve_backport_path_for_title` of {lit}`sm_scan.c`: the directory with the backport of a
title is looked for below one scan root after another.  A root that has no directory with exactly
the name of the title is searched for names that begin with it, in whatever order the kernel lists
them.

Main results:

- Theorem {lit}`backport_choice`: what all roots give, and that the order of the listings is of no
  consequence.
-/

namespace ShadowMount.Backport

open Foundation

variable {path scanPath : Text}

/-- `d_type`, as far as it is told apart. -/
inductive EntryType where
  | directory | link | unknown | other
deriving DecidableEq

/-- `struct dirent`. -/
structure Dirent where
  name : Text
  type : EntryType
deriving DecidableEq

/-- What `opendir`, `readdir` and `closedir` answer for a directory. -/
inductive Listing where
  | unopened
  /-- The entries, in the order of the kernel, and whether an error ended the listing. -/
  | entries (list : List Dirent) (failed : Bool)
deriving DecidableEq

/-- The directories during one lookup. -/
structure Directories where
  /-- `backport_path_is_dir`. -/
  isDir : Text → Bool
  listing : Text → Listing

/-- `build_backports_root_path`. -/
def buildBackportsRootPath (scanPath : Text) : Option Text :=
  if isUnderImageMountBase scanPath then none
  else
    let path := scanPath ++ "/backports".toList
    if path.length < maxPath then some path else none

/-- `backport_name_matches_title`. -/
def backportNameMatchesTitle (title name : Text) : Bool :=
  title ≠ [] && title.isPrefixOf name && !decide ('/' ∈ name)

/-- `snprintf` of a directory and a name. -/
def joinPath (directory name : Text) : Text := directory ++ '/' :: name

/-- A turn of the loop over the entries; the candidate is empty before the first. -/
def considerEntry (view : Directories) (title root : Text) (candidate : Text) (entry : Dirent) :
    Text :=
  if !backportNameMatchesTitle title entry.name then candidate
  else if entry.type = .other then candidate
  else if candidate ≠ [] ∧ candidate.drop (root.length + 1) ≤ entry.name then candidate
  else if maxPath ≤ (joinPath root entry.name).length then candidate
  else if view.isDir (joinPath root entry.name) then joinPath root entry.name
  else candidate

/-- The search of `resolve_backport_path_for_scan_root` in a directory with backports. -/
def searchRoot (view : Directories) (title root : Text) : Option Text :=
  match view.listing root with
  | .unopened => none
  | .entries list failed =>
    let candidate := list.foldl (considerEntry view title root) []
    if failed ∨ candidate = [] then none else some candidate

/-- `resolve_backport_path_for_scan_root`. -/
def resolveInRoot (view : Directories) (title scanPath : Text) : Option Text :=
  if title = [] ∨ scanPath = [] then none
  else match buildBackportsRootPath scanPath with
    | none => none
    | some root =>
      if maxPath ≤ (joinPath root title).length then none
      else if view.isDir (joinPath root title) then some (joinPath root title)
      else searchRoot view title root

/-- `DEFAULT_BACKPORT_SCAN_PATH`. -/
def defaultBackportScanPath : Text := "/data/homebrew".toList

/-- The paths of `get_backport_scan_path`. -/
def backportScanPaths (config : Config.RuntimeState) : List Text :=
  config.scanPaths ++ [defaultBackportScanPath]

/-- `resolve_backport_path_for_title`; the owning path may be missing. -/
def resolveForTitle (view : Directories) (config : Config.RuntimeState) (title : Text)
    (owning : Option Text) : Option Text :=
  if title = [] then none
  else
    (owning.bind (resolveInRoot view title)).or
      ((backportScanPaths config).findSome? fun scanPath =>
        if owning = some scanPath then none else resolveInRoot view title scanPath)

/-- An entry that is a directory with a backport of the title. -/
structure Matches (view : Directories) (title root : Text) (entry : Dirent) : Prop where
  name : backportNameMatchesTitle title entry.name = true
  type : entry.type ≠ .other
  fits : (joinPath root entry.name).length < maxPath
  isDir : view.isDir (joinPath root entry.name) = true

/-- The names of a directory that was listed to its end. -/
def names (view : Directories) (title root : Text) : Set Text :=
  {name | ∃ list, view.listing root = .entries list false ∧
    ∃ entry ∈ list, Matches view title root entry ∧ entry.name = name}

/-- The directory of a scan root in which backports of a title are looked for. -/
def BackportsRoot (title scanPath root : Text) : Prop :=
  title ≠ [] ∧ scanPath ≠ [] ∧ buildBackportsRootPath scanPath = some root

/-- The choice in one root: the exact directory if there is one, or else the least name. -/
inductive Chosen (view : Directories) (title scanPath : Text) : Text → Prop where
  | exact {root : Text} (hroot : BackportsRoot title scanPath root)
      (hfits : (joinPath root title).length < maxPath)
      (hdir : view.isDir (joinPath root title) = true) :
      Chosen view title scanPath (joinPath root title)
  | least {root name : Text} (hroot : BackportsRoot title scanPath root)
      (hexact : view.isDir (joinPath root title) = false)
      (hname : IsLeast (names view title root) name) :
      Chosen view title scanPath (joinPath root name)

/-- The choice over several roots: the first one that has any. -/
def FirstChosen (view : Directories) (title : Text) (roots : List Text) (path : Text) : Prop :=
  ∃ before scanPath after, roots = before ++ scanPath :: after ∧
    (∀ earlier ∈ before, ∀ other, ¬Chosen view title earlier other) ∧
    Chosen view title scanPath path

/-- The roots of a lookup in their order. -/
def lookupOrder (config : Config.RuntimeState) (owning : Option Text) : List Text :=
  owning.toList ++ backportScanPaths config

/-- The same directories, listed in another order. -/
def SameDirectories (view view' : Directories) : Prop :=
  view.isDir = view'.isDir ∧ ∀ path, match view.listing path, view'.listing path with
    | .unopened, .unopened => True
    | .entries list failed, .entries list' failed' => list.Perm list' ∧ failed = failed'
    | _, _ => False

variable {view : Directories} {title root : Text}

/-- The path of the candidate. -/
def candidatePath (root : Text) (name : Option Text) : Text := name.elim [] (joinPath root)

/-- Does the loop compare the entry? -/
def eligible (title : Text) (entry : Dirent) : Bool :=
  backportNameMatchesTitle title entry.name && entry.type ≠ .other

/-- Is the directory there, with a path that fits? -/
def present (view : Directories) (root name : Text) : Bool :=
  decide ((joinPath root name).length < maxPath) && view.isDir (joinPath root name)

@[simp]
theorem joinPath_ne_nil (directory name : Text) : joinPath directory name ≠ [] := by
  simp [joinPath]

@[simp]
theorem drop_joinPath (directory name : Text) :
    (joinPath directory name).drop (directory.length + 1) = name := by
  simp [joinPath]

@[simp]
theorem candidatePath_eq_nil_iff (root : Text) (name : Option Text) :
    candidatePath root name = [] ↔ name = none := by
  cases name <;> simp [candidatePath]

theorem considerEntry_of_not_eligible {candidate : Text} {entry : Dirent}
    (h : eligible title entry = false) :
    considerEntry view title root candidate entry = candidate := by
  simp only [eligible, Bool.and_eq_false_iff, decide_eq_false_iff_not, not_not] at h
  unfold considerEntry
  rcases h with h | h
  · simp [h]
  · simp [h]

theorem considerEntry_of_eligible {name : Option Text} {entry : Dirent}
    (h : eligible title entry = true) :
    considerEntry view title root (candidatePath root name) entry =
      candidatePath root (keepLeast (present view root) name entry.name) := by
  simp only [eligible, Bool.and_eq_true, decide_eq_true_eq] at h
  unfold considerEntry keepLeast present
  cases name with
  | none =>
    by_cases hfits : (joinPath root entry.name).length < maxPath
    · by_cases hdir : view.isDir (joinPath root entry.name) = true <;>
        simp [candidatePath, h, hfits, hdir, Nat.not_le.mpr hfits]
    · simp [candidatePath, h, hfits, Nat.not_lt.mp hfits]
  | some best =>
    by_cases hle : best ≤ entry.name
    · simp [candidatePath, h, hle]
    · by_cases hfits : (joinPath root entry.name).length < maxPath
      · by_cases hdir : view.isDir (joinPath root entry.name) = true <;>
          simp [candidatePath, h, hfits, hdir, hle, Nat.not_le.mpr hfits]
      · simp [candidatePath, h, hfits, hle, Nat.not_lt.mp hfits]

theorem foldl_considerEntry (list : List Dirent) (name : Option Text) :
    list.foldl (considerEntry view title root) (candidatePath root name) =
      candidatePath root
        (((list.filter (eligible title)).map Dirent.name).foldl (keepLeast (present view root))
          name) := by
  induction list generalizing name with
  | nil => rfl
  | cons entry list ih =>
    rw [List.foldl_cons]
    cases heligible : eligible title entry with
    | false => simp [considerEntry_of_not_eligible heligible, heligible, ih]
    | true => simp [considerEntry_of_eligible heligible, heligible, ih]

theorem mem_names_iff {list : List Dirent} (hlist : view.listing root = .entries list false)
    (name : Text) :
    name ∈ names view title root ↔
      name ∈ (list.filter (eligible title)).map Dirent.name ∧ present view root name = true := by
  constructor
  · rintro ⟨list', hlist', entry, hmem, hmatch, rfl⟩
    rw [hlist] at hlist'
    cases hlist'
    refine ⟨List.mem_map.mpr ⟨entry, List.mem_filter.mpr ⟨hmem, ?_⟩, rfl⟩, ?_⟩
    · simp [eligible, hmatch.name, hmatch.type]
    · simp [present, hmatch.fits, hmatch.isDir]
  · rintro ⟨hname, hpresent⟩
    obtain ⟨entry, hentry, rfl⟩ := List.mem_map.mp hname
    obtain ⟨hmem, heligible⟩ := List.mem_filter.mp hentry
    simp only [eligible, Bool.and_eq_true, decide_eq_true_eq] at heligible
    simp only [present, Bool.and_eq_true, decide_eq_true_eq] at hpresent
    exact ⟨list, hlist, entry, hmem, ⟨heligible.1, heligible.2, hpresent.1, hpresent.2⟩, rfl⟩

/-- A root gives its least accepted name. -/
theorem searchRoot_eq_some_iff :
    searchRoot view title root = some path ↔
      ∃ name, IsLeast (names view title root) name ∧ path = joinPath root name := by
  have hunlisted : (∀ list, view.listing root ≠ .entries list false) →
      ∀ name, ¬IsLeast (names view title root) name := by
    rintro hnone name ⟨⟨list, hlist, -⟩, -⟩
    exact hnone list hlist
  unfold searchRoot
  cases hlisting : view.listing root with
  | unopened =>
    simp [hunlisted fun list h => by rw [hlisting] at h; cases h]
  | entries list failed =>
    cases failed with
    | true => simp [hunlisted fun list h => by rw [hlisting] at h; cases h]
    | false =>
      have hset : names view title root =
          {name | name ∈ (list.filter (eligible title)).map Dirent.name ∧
            present view root name = true} := by
        ext name
        exact mem_names_iff hlisting name
      have hfold : list.foldl (considerEntry view title root) [] =
          candidatePath root (leastAccepted (present view root)
            ((list.filter (eligible title)).map Dirent.name)) :=
        foldl_considerEntry list none
      simp only [hset, hfold, ← leastAccepted_eq_some_iff]
      cases leastAccepted (present view root)
          ((list.filter (eligible title)).map Dirent.name) with
      | none => simp
      | some name =>
        simp [candidatePath]
        exact eq_comm

/-- A root gives the exact directory, or else the least name. -/
theorem resolveInRoot_eq_some_iff :
    resolveInRoot view title scanPath = some path ↔ Chosen view title scanPath path := by
  unfold resolveInRoot
  constructor
  · intro h
    split at h
    next => cases h
    next hgiven =>
      rw [not_or] at hgiven
      split at h
      next => cases h
      next root hroot =>
        have hbackports : BackportsRoot title scanPath root := ⟨hgiven.1, hgiven.2, hroot⟩
        split at h
        next => cases h
        next hfits =>
          split at h
          next hdir =>
            cases h
            exact .exact hbackports (Nat.not_le.mp hfits) hdir
          next hdir =>
            obtain ⟨name, hname, rfl⟩ := searchRoot_eq_some_iff.mp h
            exact .least hbackports (by simpa using hdir) hname
  · rintro (⟨⟨htitle, hscan, hroot⟩, hfits, hdir⟩ | ⟨⟨htitle, hscan, hroot⟩, hexact, hname⟩)
    · simp [htitle, hscan, hroot, hdir, Nat.not_le.mpr hfits]
    · -- A name that fits is no shorter than the title it begins with.
      rename_i root name
      have hfits : (joinPath root title).length < maxPath := by
        obtain ⟨list, -, entry, -, hmatch, rfl⟩ := hname.1
        have hmatches := hmatch.name
        simp only [backportNameMatchesTitle, Bool.and_eq_true, List.isPrefixOf_iff_prefix]
          at hmatches
        have hshort := hmatches.1.2.length_le
        have hlong := hmatch.fits
        simp only [joinPath, List.length_append, List.length_cons] at hlong ⊢
        omega
      simp only [htitle, hscan, hroot, hexact, Nat.not_le.mpr hfits, or_self, if_false,
        Bool.false_eq_true]
      exact searchRoot_eq_some_iff.mpr ⟨name, hname, rfl⟩

theorem resolveInRoot_eq_none_iff :
    resolveInRoot view title scanPath = none ↔ ∀ path, ¬Chosen view title scanPath path := by
  simp only [← resolveInRoot_eq_some_iff, Option.eq_none_iff_forall_ne_some]

theorem firstChosen_nil : ¬FirstChosen view title [] path := by
  rintro ⟨before, scanPath, after, hroots, -, -⟩
  simp at hroots

theorem firstChosen_cons {roots : List Text} :
    FirstChosen view title (scanPath :: roots) path ↔
      Chosen view title scanPath path ∨
        (∀ other, ¬Chosen view title scanPath other) ∧ FirstChosen view title roots path := by
  constructor
  · rintro ⟨before, found, after, hroots, hearlier, hchosen⟩
    cases before with
    | nil =>
      cases hroots
      exact .inl hchosen
    | cons first before =>
      cases hroots
      exact .inr ⟨hearlier scanPath (by simp), before, found, after, rfl,
        fun earlier hmem => hearlier earlier (by simp [hmem]), hchosen⟩
  · rintro (hchosen | ⟨hnone, before, found, after, rfl, hearlier, hchosen⟩)
    · exact ⟨[], scanPath, roots, rfl, by simp, hchosen⟩
    · refine ⟨scanPath :: before, found, after, rfl, ?_, hchosen⟩
      intro earlier hmem
      rcases List.mem_cons.mp hmem with rfl | hmem
      · exact hnone
      · exact hearlier earlier hmem

theorem findSome_skip (owning : Option Text) (roots : List Text)
    (howning : ∀ own, owning = some own → resolveInRoot view title own = none) :
    roots.findSome? (fun scanPath =>
        if owning = some scanPath then none else resolveInRoot view title scanPath) = some path ↔
      FirstChosen view title roots path := by
  induction roots with
  | nil => simp [firstChosen_nil]
  | cons scanPath roots ih =>
    have hskip : (if owning = some scanPath then none else resolveInRoot view title scanPath) =
        resolveInRoot view title scanPath := by
      split
      next hown => exact (howning scanPath hown).symm
      next => rfl
    rw [List.findSome?_cons, hskip, firstChosen_cons, ← ih]
    cases hfound : resolveInRoot view title scanPath with
    | none =>
      have hnone := resolveInRoot_eq_none_iff.mp hfound
      simp [hnone]
    | some found =>
      have hchosen := resolveInRoot_eq_some_iff.mp hfound
      simp only [← resolveInRoot_eq_some_iff, hfound]
      simp

/-- The choice is that of the first root in order that has one. -/
theorem resolveForTitle_eq_some_iff {config : Config.RuntimeState} {owning : Option Text} :
    resolveForTitle view config title owning = some path ↔
      FirstChosen view title (lookupOrder config owning) path := by
  unfold resolveForTitle lookupOrder
  split
  next htitle =>
    -- No root has a choice for the empty title.
    subst htitle
    have hnone : ∀ scanPath path, ¬Chosen view [] scanPath path := by
      intro scanPath path hchosen
      cases hchosen with
      | exact hroot => exact hroot.1 rfl
      | least hroot => exact hroot.1 rfl
    simp only [reduceCtorEq, false_iff]
    rintro ⟨before, scanPath, after, -, -, hchosen⟩
    exact hnone scanPath path hchosen
  next =>
    cases owning with
    | none => simpa using findSome_skip none (backportScanPaths config) (by simp)
    | some own =>
      rw [Option.bind_some, Option.toList_some, List.singleton_append, firstChosen_cons]
      cases hfound : resolveInRoot view title own with
      | none =>
        have hnone := resolveInRoot_eq_none_iff.mp hfound
        rw [Option.none_or, findSome_skip _ _ (by simpa using hfound)]
        simp [hnone]
      | some found =>
        simp only [← resolveInRoot_eq_some_iff, hfound]
        simp

variable {view' : Directories}

theorem SameDirectories.matches_iff (h : SameDirectories view view') (entry : Dirent) :
    Matches view title root entry ↔ Matches view' title root entry := by
  constructor
  · rintro ⟨hname, htype, hfits, hdir⟩
    exact ⟨hname, htype, hfits, h.1 ▸ hdir⟩
  · rintro ⟨hname, htype, hfits, hdir⟩
    exact ⟨hname, htype, hfits, h.1 ▸ hdir⟩

theorem SameDirectories.names_eq (h : SameDirectories view view') :
    names view title root = names view' title root := by
  have hlisting := h.2 root
  ext name
  simp only [names, Set.mem_ofPred_eq, h.matches_iff]
  cases hlist : view.listing root with
  | unopened =>
    cases hlist' : view'.listing root with
    | unopened => simp
    | entries list' failed' => simp [hlist, hlist'] at hlisting
  | entries list failed =>
    cases hlist' : view'.listing root with
    | unopened => simp [hlist, hlist'] at hlisting
    | entries list' failed' =>
      simp only [hlist, hlist'] at hlisting
      obtain ⟨hperm, rfl⟩ := hlisting
      simp [hperm.mem_iff]

theorem SameDirectories.chosen_iff (h : SameDirectories view view') :
    Chosen view title scanPath path ↔ Chosen view' title scanPath path := by
  constructor
  · rintro (⟨hroot, hfits, hdir⟩ | ⟨hroot, hexact, hname⟩)
    · exact .exact hroot hfits (h.1 ▸ hdir)
    · exact .least hroot (h.1 ▸ hexact) (h.names_eq ▸ hname)
  · rintro (⟨hroot, hfits, hdir⟩ | ⟨hroot, hexact, hname⟩)
    · exact .exact hroot hfits (h.1 ▸ hdir)
    · exact .least hroot (h.1 ▸ hexact) (h.names_eq ▸ hname)

/-- Whatever directories there are and in whatever order they are listed, the lookup finds the
exact directory of the title, or else the directory with the least name that begins with it, in
the first root that has one: the owning root, the configured ones in their order, the fallback.
So directories that are listed in another order give the same answer. -/
theorem backport_choice (view : Directories) (config : Config.RuntimeState) (title : Text)
    (owning : Option Text) :
    (∀ path, resolveForTitle view config title owning = some path ↔
      FirstChosen view title (lookupOrder config owning) path) ∧
    ∀ view', SameDirectories view view' →
      resolveForTitle view' config title owning = resolveForTitle view config title owning := by
  refine ⟨fun path => resolveForTitle_eq_some_iff, fun view' h => ?_⟩
  apply Option.ext
  intro path
  simp only [resolveForTitle_eq_some_iff, FirstChosen, h.chosen_iff]

/-- Two listings of one directory with two backports. -/
theorem backport_choice_two :
    let config := { Config.initRuntimeConfigDefaults with scanPaths := ["/data/games".toList] }
    let first : Dirent := ⟨"PPSA12345 a".toList, .directory⟩
    let second : Dirent := ⟨"PPSA12345 b".toList, .unknown⟩
    let view (list : List Dirent) : Directories :=
      { isDir := fun path => path.getLast? = some 'a' || path.getLast? = some 'b'
        listing := fun _ => .entries list false }
    resolveForTitle (view [first, second]) config "PPSA12345".toList none =
      some "/data/games/backports/PPSA12345 a".toList ∧
    resolveForTitle (view [second, first]) config "PPSA12345".toList none =
      resolveForTitle (view [first, second]) config "PPSA12345".toList none := by
  refine ⟨by decide +kernel, ?_⟩
  refine (backport_choice _ _ _ _).2 _ ⟨rfl, fun path => ⟨?_, rfl⟩⟩
  exact List.Perm.swap _ _ _

/-- A root below the image mount base has no backports: the exact directory of the title is there,
in the game's own root, and nothing is found. -/
theorem backport_below_image_mount_base :
    let config := { Config.initRuntimeConfigDefaults with
      scanPaths := Config.addRuntimeManagedScanPaths [] }
    let view : Directories :=
      { isDir := fun path => path = "/mnt/shadowmnt/pfsc/backports/PPSA12345".toList
        listing := fun _ => .unopened }
    "/mnt/shadowmnt/pfsc".toList ∈ config.scanPaths ∧
    view.isDir "/mnt/shadowmnt/pfsc/backports/PPSA12345".toList = true ∧
    resolveForTitle view config "PPSA12345".toList (some "/mnt/shadowmnt/pfsc".toList) = none := by
  decide +kernel

end ShadowMount.Backport
