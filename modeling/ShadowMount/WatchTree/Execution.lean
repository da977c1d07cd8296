import ShadowMount.WatchTree.Merging

/-!
# Executing a merged request

The directory of a pending request is the scan root, where the execution is a full rebuild, or a
directory in it.  There a full rebuild would look at the same entries of the root, and the plans of
all but one of them are as they were.
-/

namespace ShadowMount.WatchTree

open Foundation Config WatchRegistry

variable {config : RuntimeState} {scanRootIndex : Nat} {root : Text}
variable {v : View} {d : Text × WatchKind × Nat} {name path : Text}

/-- The outcome of a full rebuild. -/
theorem rebuildScanRootWatchTree_full (hidle : v.Idle)
    (hpath : getScanPath config scanRootIndex = some root) (hroot : root ≠ [])
    (hlen : root.length < maxPath) (s : RootState) :
    (rebuildScanRootWatchTree v config scanRootIndex s).1 = true ↔
      (s.watches.isEmpty || v.indexRebuilds) = true ∧ (fullWatches v config root).isSome := by
  have hfull := @watchScanRoot_follows v config root hidle hroot hlen
  unfold rebuildScanRootWatchTree removeScanRootWatchEntries
  rw [hpath]
  dsimp only
  cases s.watches.isEmpty || v.indexRebuilds with
  | false => simp
  | true =>
    dsimp only
    generalize watchScanRoot v config root [] = result at hfull ⊢
    obtain ⟨ok, watches⟩ := result
    cases hall : fullWatches v config root with
    | none =>
      rw [hall] at hfull
      cases hfull
      simp [RootState.rebuilt]
    | some all =>
      rw [hall] at hfull
      obtain ⟨rfl, -⟩ := hfull
      simp [RootState.rebuilt]

theorem directories_of_full (hidle : v.Idle) (hpath : getScanPath config scanRootIndex = some root)
    (hroot : root ≠ []) (hlen : root.length < maxPath) {s : RootState}
    (hok : (rebuildScanRootWatchTree v config scanRootIndex s).1 = true) :
    fullWatches v config root =
      some (directories (rebuildScanRootWatchTree v config scanRootIndex s).2.watches) := by
  have hfull := @watchScanRoot_follows v config root hidle hroot hlen
  have hiff := (rebuildScanRootWatchTree_full hidle hpath hroot hlen s).mp hok
  obtain ⟨all, hall⟩ := Option.isSome_iff_exists.mp hiff.2
  rw [hall] at hfull ⊢
  unfold rebuildScanRootWatchTree removeScanRootWatchEntries
  rw [hpath]
  dsimp only
  rw [hiff.1]
  dsimp only
  generalize watchScanRoot v config root [] = result at hfull ⊢
  obtain ⟨ok, watches⟩ := result
  obtain ⟨rfl, hall⟩ := hfull
  rw [← hall]
  rfl

/-- A plan that goes below the root, taken apart. -/
structure Opened (v : View) (config : RuntimeState) (root : Text) (remaining : Nat)
    (listing : Listing) (children : List Text) (own : List (Text × Nat)) : Prop where
  present : isDirectoryAt v.stat root = true
  scanDepth : getScanDepthForRoot config root = remaining + 1
  own : ∃ watched, registers v root = some watched ∧ own = if watched then [(root, 0)] else []
  opendir : v.opendir root = .ok listing
  ends : (LoopEnd.ended listing.readError).result true listing.closeError = true
  children : childDirectories v (skipsBackports root 0) root listing.entries = some children

/-- The plans of the directories in the root. -/
def childPlan (v : View) (config : RuntimeState) (root : Text) (remaining : Nat) (path : Text) :
    Option (List (Text × Nat)) :=
  watchPlan v config root (remaining + 1) remaining path 1

theorem Opened.rootPlan {remaining : Nat} {listing : Listing} {children : List Text}
    {own : List (Text × Nat)} (h : Opened v config root remaining listing children own) :
    rootPlan v config root =
      (children.mapM (childPlan v config root remaining)).map
        fun plans => own ++ plans.flatten := by
  obtain ⟨watched, hregisters, hown⟩ := h.own
  unfold WatchTree.rootPlan
  rw [if_pos h.present, h.scanDepth]
  simp only [watchPlan, passedOver, Nat.lt_irrefl, decide_false, Bool.false_and,
    Bool.false_eq_true, if_false, hregisters, Option.bind_some, h.opendir, h.ends, if_true,
    h.children, hown]
  rfl

/-- A root whose plan goes deeper was opened. -/
theorem exists_opened {plan : List (Text × Nat)} (hplan : rootPlan v config root = some plan)
    {d : Text × Nat} (hd : d ∈ plan) (hdepth : d.2 ≠ 0) :
    ∃ remaining listing children own, Opened v config root remaining listing children own := by
  unfold rootPlan at hplan
  split at hplan
  next hpresent =>
    dsimp only at hplan
    have hpositive : 1 ≤ getScanDepthForRoot config root := by
      unfold getScanDepthForRoot minScanDepth
      dsimp only
      split <;> omega
    obtain ⟨remaining, hremaining⟩ := Nat.exists_eq_add_of_le' hpositive
    rw [hremaining] at hplan
    simp only [watchPlan, passedOver, Nat.lt_irrefl, decide_false, Bool.false_and,
      Bool.false_eq_true, if_false] at hplan
    obtain ⟨watched, hregisters, hplan⟩ := Option.bind_eq_some_iff.mp hplan
    have hown : d ∉ (if watched then [(root, 0)] else []) := by
      intro hmem
      cases watched with
      | false => cases hmem
      | true =>
        rw [List.mem_singleton.mp hmem] at hdepth
        exact hdepth rfl
    split at hplan
    next =>
      split at hplan
      next => cases hplan
      next =>
        cases hplan
        exact absurd hd hown
    next listing hopen =>
      split at hplan
      next hends =>
        obtain ⟨plans, hplans, rfl⟩ := Option.map_eq_some_iff.mp hplan
        obtain ⟨children, hchildren, -⟩ := Option.bind_eq_some_iff.mp hplans
        exact ⟨remaining, listing, children, _, hpresent, hremaining, ⟨watched, hregisters, rfl⟩,
          hopen, hends, hchildren⟩
      next => cases hplan
  next =>
    cases hplan
    cases hd

section Rest

variable {before after : View} {remaining : Nat} {listing : Listing} {children : List Text}
  {own : List (Text × Nat)}

/-- What is outside of a directory is as it was. -/
def SameOutside (before after : View) (dirPath : Text) : Prop :=
  ∀ path, ¬ LiesIn path dirPath → SameAt before after path

theorem Opened.transfer (h : Opened before config root remaining listing children own)
    (hsame : SameOutside before after (child root name)) :
    Opened after config root remaining listing children own := by
  have hself : SameAt before after root := by
    apply hsame
    intro hlies
    have hlen := length_le_of_liesIn hlies
    rw [length_child] at hlen
    omega
  obtain ⟨watched, hregisters, hown⟩ := h.own
  exact
    { present := (isDirectoryAt_congr hself).trans h.present
      scanDepth := h.scanDepth
      own := ⟨watched, hself.registers.trans hregisters, hown⟩
      opendir := hself.opendir.trans h.opendir
      ends := h.ends
      children := (childDirectories_congr (hself.types listing h.opendir)).trans h.children }

theorem under_of_childPlan (hroot : root ≠ []) (hpath : Descends root path 1)
    (hlen : path.length < maxPath) {plan : List (Text × Nat)}
    (h : childPlan v config root remaining path = some plan) (hd : d ∈ planWatches plan) :
    Under path d.1 := by
  obtain ⟨p, hp, rfl⟩ := hd
  exact (watchPlan_placed hroot hpath hlen h p hp).under

theorem mem_planWatches_root {plans : List (List (Text × Nat))}
    (hplans : children.mapM (childPlan v config root remaining) = some plans)
    (d : Text × WatchKind × Nat) :
    d ∈ planWatches (own ++ plans.flatten) ↔ d ∈ planWatches own ∨
      ∃ path ∈ children, ∃ plan, childPlan v config root remaining path = some plan ∧
        d ∈ planWatches plan := by
  rw [planWatches_append, Set.mem_union]
  apply or_congr_right
  simp only [planWatches, Set.mem_ofPred_eq, List.mem_flatten]
  constructor
  · rintro ⟨p, ⟨plan, hplan, hp⟩, rfl⟩
    obtain ⟨path, hpath, hchild⟩ := (mem_of_mapM_eq_some hplans plan).mp hplan
    exact ⟨path, hpath, plan, hchild, p, hp, rfl⟩
  · rintro ⟨path, hpath, plan, hchild, p, hp, rfl⟩
    exact ⟨p, ⟨plan, (mem_of_mapM_eq_some hplans plan).mpr ⟨path, hpath, hchild⟩, hp⟩, rfl⟩

theorem Opened.exists_name (h : Opened before config root remaining listing children own)
    (hpath : path ∈ children) :
    ∃ name, PlainName name ∧ path = child root name ∧ path.length < maxPath := by
  obtain ⟨entry, -, rfl, hlen⟩ := childDirectories_mem h.children hpath
  exact ⟨entry.name, entry.plain, rfl, hlen⟩

theorem Opened.childPlan_congr (h : Opened before config root remaining listing children own)
    (hroot : root ≠ []) (hname : PlainName name)
    (hsame : SameOutside before after (child root name)) (hpath : path ∈ children)
    (hne : path ≠ child root name) :
    childPlan after config root remaining path = childPlan before config root remaining path := by
  obtain ⟨other, hother, rfl, -⟩ := h.exists_name hpath
  apply watchPlan_congr hroot ((Descends.refl root).child hother)
  exact fun p hp => hsame p (apart_of_siblings hroot hother hname hne hp)

theorem directories_filter (watches : List Subscription) (path : Text) :
    directories (watches.filter fun e => !pathMatchesRootOrChild e.path path) =
      {d ∈ directories watches | ¬ LiesIn d.1 path} := by
  ext d
  simp only [directories, List.mem_filter, Bool.not_eq_true', Set.mem_ofPred_eq,
    pathMatchesRootOrChild_eq_false_iff]
  constructor
  · rintro ⟨e, ⟨he, hout⟩, rfl⟩
    exact ⟨⟨e, he, rfl⟩, hout⟩
  · rintro ⟨⟨e, he, rfl⟩, hout⟩
    exact ⟨e, ⟨he, hout⟩, rfl⟩

theorem fits_filter (watches : List Subscription) (hne : path ≠ []) :
    Fits v root path (watches.filter fun e => !pathMatchesRootOrChild e.path path) := by
  intro e he hunder
  have hout := (List.mem_filter.mp he).2
  simp only [Bool.not_eq_true', pathMatchesRootOrChild_eq_false_iff] at hout
  exact absurd (hunder.liesIn hne) hout

theorem Opened.own_path (h : Opened before config root remaining listing children own)
    (hd : d ∈ planWatches own) : d.1 = root := by
  obtain ⟨watched, -, hown⟩ := h.own
  obtain ⟨p, hp, rfl⟩ := hd
  rw [hown] at hp
  cases watched with
  | false => cases hp
  | true =>
    rw [List.mem_singleton.mp hp]
    rfl

theorem parentWatches_length {parents : Set (Text × WatchKind × Nat)}
    (h : parentWatches v root = some parents) (hd : d ∈ parents) : d.1.length < root.length := by
  unfold parentWatches at h
  split at h
  next =>
    cases h
    cases hd
  next parent hparent =>
    obtain ⟨watched, -, rfl⟩ := Option.map_eq_some_iff.mp h
    cases watched with
    | false => cases hd
    | true =>
      rw [Set.mem_singleton_iff.mp hd]
      exact length_lt_of_findExistingParent hparent

/-- The walk through one directory in the root follows its plan. -/
theorem Opened.subtree_follows (h : Opened before config root remaining listing children own)
    (hafter : after.Idle) (hroot : root ≠ []) (hname : PlainName name)
    (watches : List Subscription) :
    let kept := watches.filter fun e => !pathMatchesRootOrChild e.path (child root name)
    Follows after root (child root name) (childPlan after config root remaining (child root name))
      kept (watchSubtree after config root (child root name) 1 kept).1
      (watchSubtree after config root (child root name) 1 kept).2 := by
  intro kept
  unfold watchSubtree
  rw [h.scanDepth]
  simp only [Nat.not_lt.mpr (Nat.le_add_left 1 remaining), if_false, Nat.add_sub_cancel]
  exact @walk_follows after config root (child root name) hafter hroot (remaining + 1)
    remaining (child root name) 1 ((Descends.refl root).child hname) (Under.refl _) ⟨0, kept⟩
    (fits_filter watches (child_ne_nil _ _))

/-- The rebuild of one directory in the root leaves what a full rebuild would. -/
theorem subtree_exact (hafter : after.Idle) (hroot : root ≠ [])
    (h : Opened before config root remaining listing children own) (hname : PlainName name)
    (hmem : child root name ∈ children) (hsame : SameOutside before after (child root name))
    {watches : List Subscription}
    (hwatches : fullWatches before config root = some (directories watches))
    {all : Set (Text × WatchKind × Nat)} (hall : fullWatches after config root = some all) :
    ∃ watches', watchSubtree after config root (child root name) 1
        (watches.filter fun e => !pathMatchesRootOrChild e.path (child root name)) =
      (true, watches') ∧ directories watches' = all := by
  have hopened := h.transfer hsame
  have hlenRoot : ∀ path : Text, path.length ≤ root.length → ¬ LiesIn path (child root name) := by
    intro path hle hlies
    have hlen := length_le_of_liesIn hlies
    rw [length_child] at hlen
    omega
  obtain ⟨planBefore, hplanBefore, hbefore⟩ := Option.bind_eq_some_iff.mp hwatches
  obtain ⟨parents, hparents, hold⟩ := Option.map_eq_some_iff.mp hbefore
  obtain ⟨planAfter, hplanAfter, hafterAll⟩ := Option.bind_eq_some_iff.mp hall
  obtain ⟨parents', hparents', hnew⟩ := Option.map_eq_some_iff.mp hafterAll
  have hsameParents : parentWatches after root = parentWatches before root :=
    parentWatches_congr fun path hlt => hsame path (hlenRoot path (by omega))
  rw [hsameParents, hparents] at hparents'
  cases hparents'
  rw [h.rootPlan] at hplanBefore
  rw [hopened.rootPlan] at hplanAfter
  obtain ⟨plans, hplans, rfl⟩ := Option.map_eq_some_iff.mp hplanBefore
  obtain ⟨plans', hplans', rfl⟩ := Option.map_eq_some_iff.mp hplanAfter
  obtain ⟨plan, -, hplan⟩ := exists_of_mapM_eq_some hplans' hmem
  have hwalk := h.subtree_follows hafter hroot hname watches
  rw [hplan] at hwalk
  obtain ⟨hok, hadds⟩ := hwalk
  refine ⟨_, Prod.ext hok rfl, ?_⟩
  rw [hadds.directories, directories_filter, ← hold, ← hnew]
  ext d
  simp only [Set.mem_union, Set.mem_ofPred_eq, mem_planWatches_root hplans,
    mem_planWatches_root hplans']
  constructor
  · rintro (⟨(hown | ⟨path, hpath, other, hother, hd⟩) | hparent, hout⟩ | hd)
    · exact .inl (.inl hown)
    · obtain ⟨name', hname', rfl, hlen⟩ := h.exists_name hpath
      have hne : child root name' ≠ child root name := by
        intro heq
        have hunder := under_of_childPlan hroot ((Descends.refl root).child hname') hlen hother hd
        rw [heq] at hunder
        exact hout (hunder.liesIn (child_ne_nil _ _))
      rw [← h.childPlan_congr hroot hname hsame hpath hne] at hother
      exact .inl (.inr ⟨_, hpath, other, hother, hd⟩)
    · exact .inr hparent
    · exact .inl (.inr ⟨_, hmem, plan, hplan, hd⟩)
  · rintro ((hown | ⟨path, hpath, other, hother, hd⟩) | hparent)
    · refine .inl ⟨.inl (.inl hown), hlenRoot _ ?_⟩
      rw [h.own_path hown]
    · by_cases heq : path = child root name
      · rw [heq] at hother
        cases hplan.symm.trans hother
        exact .inr hd
      · obtain ⟨name', hname', rfl, hlen⟩ := h.exists_name hpath
        rw [h.childPlan_congr hroot hname hsame hpath heq] at hother
        have hunder := under_of_childPlan hroot ((Descends.refl root).child hname') hlen hother hd
        exact .inl ⟨.inl (.inr ⟨_, hpath, other, hother, hd⟩),
          apart_of_siblings hroot hname' hname heq hunder⟩
    · exact .inl ⟨.inr hparent, hlenRoot _ (parentWatches_length hparents hparent).le⟩

/-- The rebuild of one directory fails when a full rebuild would. -/
theorem subtree_fails (hafter : after.Idle) (hroot : root ≠ [])
    (h : Opened before config root remaining listing children own) (hname : PlainName name)
    (hsame : SameOutside before after (child root name))
    (hbefore : (fullWatches before config root).isSome)
    (hnone : fullWatches after config root = none) (watches : List Subscription) :
    (watchSubtree after config root (child root name) 1
      (watches.filter fun e => !pathMatchesRootOrChild e.path (child root name))).1 = false := by
  have hopened := h.transfer hsame
  obtain ⟨all, hall⟩ := Option.isSome_iff_exists.mp hbefore
  obtain ⟨planBefore, hplanBefore, hrest⟩ := Option.bind_eq_some_iff.mp hall
  obtain ⟨parents, hparents, -⟩ := Option.map_eq_some_iff.mp hrest
  have hsameParents : parentWatches after root = parentWatches before root := by
    apply parentWatches_congr
    intro path hlt
    apply hsame
    intro hlies
    have hlen := length_le_of_liesIn hlies
    rw [length_child] at hlen
    omega
  rw [h.rootPlan] at hplanBefore
  obtain ⟨plans, hplans, -⟩ := Option.map_eq_some_iff.mp hplanBefore
  unfold fullWatches at hnone
  rw [hsameParents, hparents, hopened.rootPlan] at hnone
  simp only [Option.map_some, Option.bind_eq_none_iff, Option.map_eq_some_iff] at hnone
  -- only the plan of the directory itself can have come to a failure
  have hplan : childPlan after config root remaining (child root name) = none := by
    by_contra hsome
    have hall : ∀ path ∈ children, (childPlan after config root remaining path).isSome := by
      intro path hpath
      by_cases heq : path = child root name
      · rw [heq]
        exact Option.isSome_iff_ne_none.mpr hsome
      · rw [h.childPlan_congr hroot hname hsame hpath heq]
        obtain ⟨plan, -, hplan⟩ := exists_of_mapM_eq_some hplans hpath
        rw [hplan]
        rfl
    obtain ⟨plans', hplans'⟩ := exists_mapM_eq_some hall
    cases hnone _ ⟨plans', hplans', rfl⟩
  have hwalk := h.subtree_follows hafter hroot hname watches
  rwa [hplan] at hwalk

end Rest

theorem rebuildScanRootWatchTree_pending (v : View) (s : RootState) (pending : Pending) :
    (rebuildScanRootWatchTree v config scanRootIndex { s with pending := pending }).1 =
        (rebuildScanRootWatchTree v config scanRootIndex s).1 ∧
      (rebuildScanRootWatchTree v config scanRootIndex { s with pending := pending }).2.watches =
        (rebuildScanRootWatchTree v config scanRootIndex s).2.watches := by
  unfold rebuildScanRootWatchTree removeScanRootWatchEntries RootState.rebuilt
  cases getScanPath config scanRootIndex with
  | none => exact ⟨rfl, rfl⟩
  | some scanRoot =>
    dsimp only
    cases s.watches.isEmpty || v.indexRebuilds with
    | false => exact ⟨rfl, rfl⟩
    | true =>
      dsimp only
      cases watchScanRoot v config scanRoot [] with
      | mk ok watches => cases ok <;> exact ⟨rfl, rfl⟩

/-- The execution of a request for a directory in the root. -/
theorem execute_child {before after : View} (hafter : after.Idle)
    (hpath : getScanPath config scanRootIndex = some root) (hroot : root ≠ [])
    (hlen : root.length < maxPath) {remaining : Nat} {listing : Listing} {children : List Text}
    {own : List (Text × Nat)} (h : Opened before config root remaining listing children own)
    (hname : PlainName name) (hmem : child root name ∈ children)
    (hsame : SameOutside before after (child root name)) {s : RootState}
    (hwatches : fullWatches before config root = some (directories s.watches)) {kind : WatchKind}
    (hkind : kind ≠ .scanRoot) (hwatched : ∃ e ∈ s.watches, e.path = child root name)
    (hpending : s.pending = ⟨true, child root name, 1, kind⟩) :
    (executePending after config scanRootIndex s).1 =
        (rebuildScanRootWatchTree after config scanRootIndex s).1 ∧
      ((rebuildScanRootWatchTree after config scanRootIndex s).1 = true →
        directories (executePending after config scanRootIndex s).2.watches =
          directories (rebuildScanRootWatchTree after config scanRootIndex s).2.watches) := by
  have hfull := rebuildScanRootWatchTree_full hafter hpath hroot hlen s
  have hne : child root name ≠ root := by
    intro heq
    have hlength := congrArg List.length heq
    rw [length_child] at hlength
    omega
  obtain ⟨e, he, hat⟩ := hwatched
  have hany : s.watches.any (fun e => pathMatchesRootOrChild e.path (child root name)) = true := by
    rw [List.any_eq_true]
    refine ⟨e, he, ?_⟩
    rw [pathMatchesRootOrChild_iff, hat]
    exact liesIn_self (child_ne_nil _ _)
  have hempty : s.watches.isEmpty = false := by
    cases hwatchesList : s.watches with
    | nil =>
      rw [hwatchesList] at he
      cases he
    | cons => rfl
  unfold executePending rebuildScanRootWatchSubtree removeScanRootWatchEntriesForPath
  rw [hpending]
  simp only [if_true, hpath, child_ne_nil, hkind, hne, decide_false, Bool.or_self,
    Bool.false_eq_true, if_false, hany, Bool.not_true, Bool.false_or]
  rw [hempty, Bool.false_or] at hfull
  cases hindex : after.indexRebuilds with
  | false =>
    rw [hindex] at hfull
    have hfails : (rebuildScanRootWatchTree after config scanRootIndex s).1 = false := by
      rw [← Bool.not_eq_true]
      exact fun htrue => by simpa using (hfull.mp htrue).1
    rw [hfails]
    exact ⟨rfl, fun h => by cases h⟩
  | true =>
    rw [hindex] at hfull
    dsimp only
    cases hall : fullWatches after config root with
    | none =>
      have hfails : (rebuildScanRootWatchTree after config scanRootIndex s).1 = false := by
        rw [← Bool.not_eq_true]
        intro htrue
        simpa [hall] using (hfull.mp htrue).2
      have hsubtree := subtree_fails hafter hroot h hname hsame (by rw [hwatches]; rfl) hall
        s.watches
      rw [hfails]
      refine ⟨?_, fun h => by cases h⟩
      generalize watchSubtree after config root (child root name) 1 _ = result at hsubtree ⊢
      obtain ⟨ok, watches⟩ := result
      cases hsubtree
      rfl
    | some all =>
      have hok : (rebuildScanRootWatchTree after config scanRootIndex s).1 = true :=
        hfull.mpr ⟨rfl, by rw [hall]; rfl⟩
      have hdirectories := directories_of_full hafter hpath hroot hlen hok
      obtain ⟨watches', hsubtree, hexact⟩ :=
        subtree_exact hafter hroot h hname hmem hsame hwatches hall
      rw [hok, hsubtree]
      refine ⟨rfl, fun _ => ?_⟩
      rw [hall, Option.some.injEq] at hdirectories
      rw [← hdirectories]
      exact hexact

end ShadowMount.WatchTree
