import ShadowMount.Config.ScanRoots
import ShadowMount.WatchTree.Plan

/-!
# What a full rebuild watches

A full rebuild watches the planned directories of the scan root and the nearest directory above it
that exists.  With the scan depths that a configuration can have, the planned directories are the
scan root and directories in it.
-/

namespace ShadowMount.WatchTree

open Foundation Config WatchRegistry

variable {path : Text} {depth : Nat}

/-- The watches of planned directories. -/
def planWatches (plan : List (Text × Nat)) : Set (Text × WatchKind × Nat) :=
  {d | ∃ p ∈ plan, d = treeWatch p}

theorem planWatches_append (a b : List (Text × Nat)) :
    planWatches (a ++ b) = planWatches a ∪ planWatches b := by
  ext d
  simp only [planWatches, List.mem_append, Set.mem_ofPred_eq, Set.mem_union]
  grind

/-- The watch on the directory above a scan root, or a failure to register it. -/
def parentWatches (v : View) (scanRoot : Text) : Option (Set (Text × WatchKind × Nat)) :=
  match resolveExistingParentDirectoryPath v.stat scanRoot with
  | none => some ∅
  | some parent =>
    (registers v parent).map fun watched =>
      if watched then {(parent, WatchKind.scanRootParent, 0)} else ∅

/-- The plan of a full rebuild. -/
def rootPlan (v : View) (config : RuntimeState) (scanRoot : Text) : Option (List (Text × Nat)) :=
  if isDirectoryAt v.stat scanRoot then
    let scanDepth := getScanDepthForRoot config scanRoot
    watchPlan v config scanRoot scanDepth scanDepth scanRoot 0
  else some []

/-- What a full rebuild watches, or its failure. -/
def fullWatches (v : View) (config : RuntimeState) (scanRoot : Text) :
    Option (Set (Text × WatchKind × Nat)) :=
  (rootPlan v config scanRoot).bind fun plan =>
    (parentWatches v scanRoot).map fun parents => planWatches plan ∪ parents

variable {v : View} {config : RuntimeState} {root : Text} {watches : List Subscription}

theorem length_lt_of_buildParentDirectoryPath {parent : Text}
    (h : buildParentDirectoryPath path = some parent) (hne : parent ≠ path) :
    parent.length < path.length := by
  unfold buildParentDirectoryPath at h
  split at h
  next => cases h
  next hslash =>
    simp only [not_not] at hslash
    have hpos : 0 < path.length := List.length_pos_of_mem hslash
    dsimp only at h
    split at h
    next =>
      cases h
      have hone : path.length ≠ 1 := by
        intro hlen
        obtain ⟨c, rfl⟩ := List.length_eq_one_iff.mp hlen
        rw [List.mem_singleton.mp hslash] at hne
        exact hne rfl
      simp only [List.length_cons, List.length_nil]
      omega
    next =>
      cases h
      have hbegins := (List.rdropWhile_prefix (fun c => decide (c ≠ '/')) path).length_le
      simp only [List.length_take, List.length_dropLast]
      omega

theorem length_lt_of_findExistingParent {stat : StatView} {rounds : Nat} {parent : Text}
    (h : findExistingParent stat rounds path = some parent) : parent.length < path.length := by
  induction rounds generalizing path with
  | zero => cases h
  | succ rounds ih =>
    unfold findExistingParent at h
    split at h
    next => cases h
    next candidate hbuild =>
      split at h
      next => cases h
      next hne =>
        have hlen := length_lt_of_buildParentDirectoryPath hbuild hne
        split at h
        next =>
          cases h
          exact hlen
        next => exact (ih h).trans hlen

theorem findExistingParent_congr {stat stat' : StatView} {rounds : Nat}
    (h : ∀ p, p.length < path.length → stat' p = stat p) :
    findExistingParent stat' rounds path = findExistingParent stat rounds path := by
  induction rounds generalizing path with
  | zero => rfl
  | succ rounds ih =>
    unfold findExistingParent
    cases hbuild : buildParentDirectoryPath path with
    | none => rfl
    | some candidate =>
      by_cases hne : candidate = path
      · simp [hne]
      · have hlen := length_lt_of_buildParentDirectoryPath hbuild hne
        have hdirectory : isDirectoryAt stat' candidate = isDirectoryAt stat candidate := by
          unfold isDirectoryAt
          rw [h candidate hlen]
        simp only [if_neg hne, hdirectory, ih fun p hp => h p (hp.trans hlen)]

/-- The watch of the parent follows its plan. -/
theorem registerScanRootParentWatch_follows
    (htree : ∀ e ∈ watches, root.length ≤ e.path.length) :
    match parentWatches v root with
    | none => (registerScanRootParentWatch v root watches).1 = false
    | some parents => (registerScanRootParentWatch v root watches).1 = true ∧
        directories (registerScanRootParentWatch v root watches).2 =
          directories watches ∪ parents := by
  unfold parentWatches registerScanRootParentWatch
  cases hparent : resolveExistingParentDirectoryPath v.stat root with
  | none => simp
  | some parent =>
    have hlen := length_lt_of_findExistingParent hparent
    have hfind : ∀ fd : Nat, (watches.find? fun e =>
        decide (e.path = parent) && v.sameDirectory e.fd parent) = none := by
      intro _
      rw [List.find?_eq_none]
      intro e he hsame
      simp only [Bool.and_eq_true, decide_eq_true_eq] at hsame
      have htree := htree e he
      rw [hsame.1] at htree
      omega
    simp only [registers, registerScannerWatchEntry]
    cases v.grows parent with
    | false => simp
    | true =>
      cases v.openDirectory parent with
      | none => simp
      | some fd =>
        cases v.accepts parent with
        | false => simp [hfind fd]
        | true =>
          have hnew : directories [⟨parent, .scanRootParent, 0, fd⟩] =
              {(parent, WatchKind.scanRootParent, 0)} := by
            ext d
            simp [directories]
          simp only [hfind fd, directories_append, hnew, Bool.not_true, Bool.false_eq_true,
            if_false, if_true, Option.isNone_some, Option.map_some, and_self]

theorem fits_nil (start : Text) : Fits v root start [] := by
  intro e he
  cases he

theorem length_le_of_adds {start : Text} {plan : List (Text × Nat)}
    {watches' : List Subscription} (h : Adds v root start plan [] watches')
    (hplan : ∀ d ∈ plan, Descends root d.1 d.2) :
    ∀ e ∈ watches', root.length ≤ e.path.length := by
  intro e he
  have hmem : (e.path, e.kind, e.depth) ∈ directories watches' := ⟨e, he, rfl⟩
  rw [h.directories, directories_nil, Set.empty_union] at hmem
  obtain ⟨d, hd, heq⟩ := hmem
  have hpath : e.path = d.1 := congrArg Prod.fst heq
  rw [hpath]
  exact (hplan d hd).length_le

theorem rootPlan_placed (hroot : root ≠ []) (hlen : root.length < maxPath)
    {plan : List (Text × Nat)} (h : rootPlan v config root = some plan) :
    ∀ d ∈ plan, Placed root (getScanDepthForRoot config root) root 0 d := by
  unfold rootPlan at h
  split at h
  next => exact watchPlan_placed hroot (Descends.refl root) hlen h
  next =>
    cases h
    simp

/-- A full rebuild watches what `fullWatches` says. -/
theorem watchScanRoot_follows (hidle : v.Idle) (hroot : root ≠ []) (hlen : root.length < maxPath) :
    match fullWatches v config root with
    | none => (watchScanRoot v config root []).1 = false
    | some all => (watchScanRoot v config root []).1 = true ∧
        directories (watchScanRoot v config root []).2 = all := by
  have hplaced : ∀ plan, rootPlan v config root = some plan →
      ∀ d ∈ plan, Placed root (getScanDepthForRoot config root) root 0 d :=
    fun plan => rootPlan_placed hroot hlen
  unfold fullWatches watchScanRoot
  unfold rootPlan at hplaced ⊢
  cases hpresent : isDirectoryAt v.stat root with
  | false =>
    have hparent := @registerScanRootParentWatch_follows v root [] (by simp)
    simp only [Bool.not_false, Bool.false_eq_true, if_false, if_true, Option.bind_some]
    cases hparents : parentWatches v root with
    | none =>
      rw [hparents] at hparent
      exact hparent
    | some parents =>
      rw [hparents] at hparent
      refine ⟨hparent.1, ?_⟩
      rw [hparent.2]
      simp [planWatches]
  | true =>
    simp only [hpresent, if_true] at hplaced
    simp only [Bool.not_true, Bool.false_eq_true, if_false, if_true]
    have hwalk := @walk_follows v config root root hidle hroot (getScanDepthForRoot config root)
      (getScanDepthForRoot config root) root 0 (Descends.refl root) (Under.refl root) ⟨0, []⟩
      (fits_nil root)
    generalize smScanTreeWalk v config _ root _ root 0 ⟨0, []⟩ = result at hwalk ⊢
    obtain ⟨ok, w⟩ := result
    cases hplan : watchPlan v config root (getScanDepthForRoot config root)
        (getScanDepthForRoot config root) root 0 with
    | none =>
      rw [hplan] at hwalk
      cases hwalk
      rfl
    | some plan =>
      rw [hplan] at hwalk
      obtain ⟨rfl, hadds⟩ := hwalk
      have htree := length_le_of_adds hadds fun d hd => (hplaced plan hplan d hd).descends
      have hparent := @registerScanRootParentWatch_follows v root w.data htree
      simp only [Option.bind_some]
      cases hparents : parentWatches v root with
      | none =>
        rw [hparents] at hparent
        exact hparent
      | some parents =>
        rw [hparents] at hparent
        refine ⟨hparent.1, ?_⟩
        rw [hparent.2, hadds.directories, directories_nil, Set.empty_union]
        rfl

theorem Descends.isPrefix (h : Descends root path depth) : root <+: path := by
  obtain ⟨names, -, -, rfl⟩ := h
  clear * -
  induction names generalizing root with
  | nil => exact List.prefix_rfl
  | cons name names ih => exact (List.prefix_append _ _).trans (@ih (WatchTree.child root name))

theorem isUnderImageMountBase_of_pfsc (hpfsc : isPfscImageMountBaseOrChild root = true)
    (h : Descends root path depth) : isUnderImageMountBase path = true := by
  have hbegins : pfscImageMountBase <+: path := by
    apply List.IsPrefix.trans _ h.isPrefix
    unfold isPfscImageMountBaseOrChild pathMatchesRootOrChild at hpfsc
    split at hpfsc
    next => cases hpfsc
    next =>
      split at hpfsc
      next => cases hpfsc
      next hnot => simpa [List.isPrefixOf_iff_prefix] using hnot
  obtain ⟨rest, rfl⟩ := hbegins
  rfl

/-- Planned directories are at most one level below the root. -/
theorem depth_le_one (hscans : Scans config) {dirPath : Text} {d : Text × Nat}
    (h : Placed root (getScanDepthForRoot config root) dirPath depth d) : d.2 ≤ 1 := by
  rcases Nat.eq_zero_or_pos d.2 with hzero | hpos
  · omega
  · obtain ⟨hbase, hlt⟩ := h.inner hpos
    have hconfigured : configuredDepth config ≤ 2 := by
      unfold configuredDepth
      rcases hscans.depth with hdepth | hdepth
      · simp [hdepth]
      · simp [hdepth]
    unfold getScanDepthForRoot at hlt
    dsimp only at hlt
    split at hlt
    next hpfsc =>
      rw [isUnderImageMountBase_of_pfsc hpfsc h.descends] at hbase
      cases hbase
    next =>
      unfold minScanDepth at hlt
      omega

section Congr

variable {before after : View}

theorem parentWatches_congr (h : ∀ path, path.length < root.length → SameAt before after path) :
    parentWatches after root = parentWatches before root := by
  have hresolve : resolveExistingParentDirectoryPath after.stat root =
      resolveExistingParentDirectoryPath before.stat root :=
    findExistingParent_congr fun path hpath => (h path hpath).stat
  unfold parentWatches
  rw [hresolve]
  cases hparent : resolveExistingParentDirectoryPath before.stat root with
  | none => rfl
  | some parent =>
    have hsame := h parent (length_lt_of_findExistingParent hparent)
    simp only [hsame.registers]

theorem isDirectoryAt_congr (h : SameAt before after path) :
    isDirectoryAt after.stat path = isDirectoryAt before.stat path := by
  unfold isDirectoryAt
  rw [h.stat]

/-- A full rebuild depends on the answers about the root, the directories below it and those above
it. -/
theorem fullWatches_congr (hroot : root ≠ []) (h : ∀ path, SameAt before after path) :
    fullWatches after config root = fullWatches before config root := by
  have hplan : rootPlan after config root = rootPlan before config root := by
    unfold rootPlan
    rw [isDirectoryAt_congr (h root),
      watchPlan_congr hroot (Descends.refl root) fun path _ => h path]
  unfold fullWatches
  rw [hplan, parentWatches_congr fun path _ => h path]

end Congr

end ShadowMount.WatchTree
