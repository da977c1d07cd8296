import ShadowMount.WatchTree.Execution

/-!
# Requests between two rebuilds

Every sequence of requests for directories that the last rebuild watches leaves a pending request
whose execution does what a full rebuild would do, so the watches of a root stay those of a full
rebuild from round to round.

Main results:

- Theorem {lit}`pending_rebuild_exact`: requests are not lost by merging.
-/

namespace ShadowMount.WatchTree

open Foundation Config WatchRegistry

variable {config : RuntimeState} {scanRootIndex : Nat} {root : Text}
variable {v : View} {s : RootState}

/-- The watches of a root are those that its last rebuild left, and nothing is pending. -/
def UpToDate (v : View) (config : RuntimeState) (scanRootIndex : Nat) (s : RootState) : Prop :=
  v.Idle ∧ s.pending = .cleared ∧
    ∃ s₀, (rebuildScanRootWatchTree v config scanRootIndex s₀).1 = true ∧
      directories s.watches =
        directories (rebuildScanRootWatchTree v config scanRootIndex s₀).2.watches

/-- The directories outside the requested subtrees did not change. -/
def SameElsewhere (config : RuntimeState) (scanRootIndex : Nat) (before after : View)
    (requests : List Subscription) : Prop :=
  ∀ path, (∀ request ∈ requests, ∀ dir ∈ target config scanRootIndex request,
    ¬ LiesIn path dir) → SameAt before after path

/-- The state after events on watched directories. -/
def RootState.requested (s : RootState) (config : RuntimeState) (scanRootIndex : Nat)
    (requests : List Subscription) : RootState :=
  { s with
    pending := requests.foldl (scheduleScanRootWatchTreeRebuild config scanRootIndex) s.pending }

/-- A watched directory is the one above the root, the root, or a planned directory. -/
theorem located_of_watched (hscans : Scans config)
    (hpath : getScanPath config scanRootIndex = some root) (hroot : root ≠ [])
    (hlen : root.length < maxPath) {plan : List (Text × Nat)}
    (hplan : rootPlan v config root = some plan) {parents : Set (Text × WatchKind × Nat)}
    (hparents : parentWatches v root = some parents) {r : Subscription}
    (hr : (r.path, r.kind, r.depth) ∈ planWatches plan ∪ parents) :
    ∃ path depth kind, resolveWatchTreeRebuildTarget config scanRootIndex r =
        some (path, depth, kind) ∧ Descends root path depth ∧ path.length < maxPath ∧
      (path = root ∨ depth = 1 ∧ (path, 1) ∈ plan) := by
  rcases hr with ⟨d, hd, heq⟩ | hparent
  · have hplaced := rootPlan_placed hroot hlen hplan d hd
    have hone := depth_le_one hscans hplaced
    simp only [treeWatch, Prod.mk.injEq] at heq
    obtain ⟨hat, hkind, hdepth⟩ := heq
    have hmod : d.2 % 256 = d.2 := Nat.mod_eq_of_lt (by omega)
    refine ⟨d.1, d.2, kindAt d.2, ?_, hplaced.descends, hplaced.length_lt, ?_⟩
    · unfold resolveWatchTreeRebuildTarget
      rw [hkind, hdepth, hat, hmod, strlcpy_of_lt hplaced.length_lt]
      by_cases hzero : d.2 = 0
      · simp [kindAt, hzero]
      · simp [kindAt, hzero]
    · rcases Nat.eq_zero_or_pos d.2 with hzero | hpos
      · exact .inl (hplaced.eq_of_depth hzero)
      · have hdepth : d.2 = 1 := by omega
        exact .inr ⟨hdepth, by rwa [← hdepth]⟩
  · refine ⟨root, 0, .scanRoot, ?_, Descends.refl root, hlen, .inl rfl⟩
    have hkind : r.kind = .scanRootParent := by
      unfold parentWatches at hparents
      split at hparents
      next =>
        cases hparents
        cases hparent
      next =>
        obtain ⟨watched, -, rfl⟩ := Option.map_eq_some_iff.mp hparents
        cases watched with
        | false => cases hparent
        | true =>
          have heq := Set.mem_singleton_iff.mp hparent
          simp only [Prod.mk.injEq] at heq
          exact heq.2.1
    unfold resolveWatchTreeRebuildTarget
    rw [hkind, hpath]
    rfl

theorem UpToDate.full (h : UpToDate v config scanRootIndex s)
    (hpath : getScanPath config scanRootIndex = some root) (hroot : root ≠ [])
    (hlen : root.length < maxPath) : fullWatches v config root = some (directories s.watches) := by
  obtain ⟨hidle, -, s₀, hok, hsame⟩ := h
  rw [hsame]
  exact directories_of_full hidle hpath hroot hlen hok

theorem scanPath_fits (hconfig : Loaded config)
    (hpath : getScanPath config scanRootIndex = some root) :
    root ≠ [] ∧ root.length < maxPath :=
  hconfig.scans.paths root (List.mem_of_getElem? hpath)

/-- The requests of an up-to-date tree are tracked. -/
theorem UpToDate.tracks (h : UpToDate v config scanRootIndex s) (hconfig : Loaded config)
    (hpath : getScanPath config scanRootIndex = some root) {requests : List Subscription}
    (hwatched : ∀ request ∈ requests, request ∈ s.watches) :
    Tracks config scanRootIndex root requests (s.requested config scanRootIndex requests).pending ∧
      ∀ request ∈ requests, ∃ path depth kind,
        resolveWatchTreeRebuildTarget config scanRootIndex request = some (path, depth, kind) ∧
          Descends root path depth ∧ path.length < maxPath ∧
          (path = root ∨ depth = 1 ∧
            ∃ plan, rootPlan v config root = some plan ∧ (path, 1) ∈ plan) := by
  obtain ⟨hroot, hlen⟩ := scanPath_fits hconfig hpath
  obtain ⟨plan, hplan, hrest⟩ := Option.bind_eq_some_iff.mp (h.full hpath hroot hlen)
  obtain ⟨parents, hparents, hall⟩ := Option.map_eq_some_iff.mp hrest
  have hwhere : ∀ request ∈ requests, ∃ path depth kind,
      resolveWatchTreeRebuildTarget config scanRootIndex request = some (path, depth, kind) ∧
        Descends root path depth ∧ path.length < maxPath ∧
        (path = root ∨ depth = 1 ∧ (path, 1) ∈ plan) := by
    intro request hrequest
    apply located_of_watched hconfig.scans hpath hroot hlen hplan hparents
    rw [hall]
    exact ⟨request, hwatched request hrequest, rfl⟩
  constructor
  · have hlocated : ∀ request ∈ requests, Located config scanRootIndex root request := by
      intro request hrequest
      obtain ⟨path, depth, kind, hresolve, hdescends, hfit, -⟩ := hwhere request hrequest
      exact ⟨path, depth, kind, hresolve, hdescends, hfit⟩
    have htracks := tracks_nil.foldl hroot hpath hlocated
    unfold RootState.requested
    rw [h.2.1]
    simpa using htracks
  · intro request hrequest
    obtain ⟨path, depth, kind, hresolve, hdescends, hfit, hat⟩ := hwhere request hrequest
    refine ⟨path, depth, kind, hresolve, hdescends, hfit, ?_⟩
    rcases hat with hat | ⟨hone, hmem⟩
    · exact .inl hat
    · exact .inr ⟨hone, plan, hplan, hmem⟩

theorem Opened.mem_children {remaining : Nat} {listing : Listing} {children : List Text}
    {own : List (Text × Nat)} (h : Opened v config root remaining listing children own)
    (hroot : root ≠ []) {plan : List (Text × Nat)}
    (hplan : WatchTree.rootPlan v config root = some plan) {path : Text} (hmem : (path, 1) ∈ plan) :
    path ∈ children := by
  rw [h.rootPlan] at hplan
  obtain ⟨plans, hplans, rfl⟩ := Option.map_eq_some_iff.mp hplan
  rcases List.mem_append.mp hmem with hown | hflat
  · obtain ⟨watched, -, hshape⟩ := h.own
    rw [hshape] at hown
    cases watched with
    | false => cases hown
    | true => simp at hown
  · obtain ⟨inner, hinner, hpath⟩ := List.mem_flatten.mp hflat
    obtain ⟨c, hc, hchild⟩ := (mem_of_mapM_eq_some hplans inner).mp hinner
    obtain ⟨name, hname, rfl, hlen⟩ := h.exists_name hc
    have hplaced := watchPlan_placed hroot ((Descends.refl root).child hname) hlen hchild _ hpath
    have hat : path = child root name := hplaced.eq_of_depth rfl
    rw [hat]
    exact hc

theorem execute_root (v : View) (hpath : getScanPath config scanRootIndex = some root)
    (hstale : s.pending.stale = true) (hat : s.pending.path = root ∨ s.pending.kind = .scanRoot) :
    (executePending v config scanRootIndex s).1 =
        (rebuildScanRootWatchTree v config scanRootIndex s).1 ∧
      (executePending v config scanRootIndex s).2.watches =
        (rebuildScanRootWatchTree v config scanRootIndex s).2.watches := by
  have hcondition : (decide (s.pending.path = []) || decide (s.pending.kind = .scanRoot) ||
      decide (s.pending.path = root)) = true := by
    rcases hat with hat | hat <;> simp [hat]
  unfold executePending rebuildScanRootWatchSubtree
  simp only [hstale, if_true, hpath, hcondition]
  exact rebuildScanRootWatchTree_pending v s .cleared

/-- Requests are not lost by merging: the pending path contains every requested directory, its depth
is the true one, and the execution succeeds exactly when a full rebuild would and leaves the same
watches.  `hafter` says that neither a stop nor sleep mode ends the rebuilds early. -/
theorem pending_rebuild_exact (hconfig : Loaded config)
    (hpath : getScanPath config scanRootIndex = some root) {before after : View}
    (hafter : after.Idle) {s : RootState} (hs : UpToDate before config scanRootIndex s)
    {requests : List Subscription} (hwatched : ∀ request ∈ requests, request ∈ s.watches)
    (hsame : SameElsewhere config scanRootIndex before after requests) :
    let t := s.requested config scanRootIndex requests
    (∀ request ∈ requests, ∃ dir ∈ target config scanRootIndex request,
        LiesIn dir t.pending.path) ∧
      (requests ≠ [] → t.pending.stale = true ∧ Descends root t.pending.path t.pending.depth ∧
        (executePending after config scanRootIndex t).1 =
          (rebuildScanRootWatchTree after config scanRootIndex t).1) ∧
      ((rebuildScanRootWatchTree after config scanRootIndex t).1 = true →
        (executePending after config scanRootIndex t).1 = true ∧
          directories (executePending after config scanRootIndex t).2.watches =
            directories (rebuildScanRootWatchTree after config scanRootIndex t).2.watches) := by
  intro t
  obtain ⟨hroot, hlen⟩ := scanPath_fits hconfig hpath
  obtain ⟨htracks, hwhere⟩ := hs.tracks hconfig hpath hwatched
  have hwatches := hs.full hpath hroot hlen
  refine ⟨?_, ?_⟩
  · intro request hrequest
    obtain ⟨path, depth, kind, hresolve, -⟩ := hwhere request hrequest
    have htarget := target_eq hresolve
    exact ⟨path, htarget, htracks.covers request hrequest path htarget⟩
  · by_cases hnone : requests = []
    · -- nothing is pending, and nothing has changed
      have hcleared : t.pending = .cleared := htracks.idle hnone
      have hexecute : executePending after config scanRootIndex t =
          (true, { t with pending := .cleared }) := by
        unfold executePending
        rw [hcleared]
        rfl
      refine ⟨fun hsome => absurd hnone hsome, fun hok => ?_⟩
      have hfull := directories_of_full hafter hpath hroot hlen hok
      have hall : ∀ path, SameAt before after path := by
        intro path
        apply hsame
        rw [hnone]
        exact fun _ h => absurd h List.not_mem_nil
      rw [fullWatches_congr hroot hall, hwatches, Option.some.injEq] at hfull
      rw [hexecute]
      exact ⟨rfl, hfull⟩
    · have hstale : t.pending.stale = true := htracks.stale hnone
      have hdescends : Descends root t.pending.path t.pending.depth := htracks.descends hstale
      have hequal : (executePending after config scanRootIndex t).1 =
            (rebuildScanRootWatchTree after config scanRootIndex t).1 ∧
          ((rebuildScanRootWatchTree after config scanRootIndex t).1 = true →
            directories (executePending after config scanRootIndex t).2.watches =
              directories (rebuildScanRootWatchTree after config scanRootIndex t).2.watches) := by
        by_cases hroots : t.pending.path = root ∨ t.pending.kind = .scanRoot
        · obtain ⟨hok, heq⟩ := execute_root after hpath hstale hroots
          exact ⟨hok, fun _ => by rw [heq]⟩
        · simp only [not_or] at hroots
          obtain ⟨hneRoot, hkind⟩ := hroots
          obtain ⟨request, hrequest, hmem⟩ := (htracks.origin hstale).resolve_left hneRoot
          obtain ⟨path, depth, kind, hresolve, hdepth, -, hat⟩ := hwhere request hrequest
          rw [target_eq hresolve] at hmem
          cases hmem
          obtain ⟨rfl, plan, hplan, hplanned⟩ := hat.resolve_left hneRoot
          obtain ⟨remaining, listing, children, own, hopened⟩ :=
            exists_opened hplan hplanned Nat.one_ne_zero
          have hchild := hopened.mem_children hroot hplan hplanned
          obtain ⟨name, hname, hpathName, -⟩ := hopened.exists_name hchild
          have hpending : t.pending = ⟨true, child root name, 1, t.pending.kind⟩ := by
            have hone := hdescends.depth_unique hdepth hroot
            rw [← hpathName, ← hone, ← hstale]
          have hsameOutside : SameOutside before after (child root name) := by
            intro p hp
            apply hsame
            intro r hr dir hdir hlies
            have hcover := htracks.covers r hr dir hdir
            rw [← hpathName] at hp
            exact hp (liesIn_trans hlies hcover)
          have hentry : ∃ e ∈ t.watches, e.path = child root name := by
            obtain ⟨plan', hplan', hrest⟩ := Option.bind_eq_some_iff.mp hwatches
            obtain ⟨parents, -, hall⟩ := Option.map_eq_some_iff.mp hrest
            cases hplan.symm.trans hplan'
            have hmem : treeWatch (t.pending.path, 1) ∈ directories s.watches := by
              rw [← hall]
              exact .inl ⟨_, hplanned, rfl⟩
            obtain ⟨e, he, heq⟩ := hmem
            have hat : t.pending.path = e.path := congrArg Prod.fst heq
            exact ⟨e, he, hat.symm.trans hpathName⟩
          rw [hpathName] at hchild
          exact execute_child hafter hpath hroot hlen hopened hname hchild hsameOutside hwatches
            hkind hentry hpending
      refine ⟨fun _ => ⟨hstale, hdescends, hequal.1⟩, fun hok => ?_⟩
      exact ⟨hequal.1.trans hok, hequal.2 hok⟩

/-- A configuration with the scan path `/d` and the scan depth two. -/
def depthTwoDocument : Ini.Document :=
  [ ⟨none, "scan".toList, .entry "path".toList "/d".toList, none⟩,
    ⟨none, "scan".toList, .entry "depth".toList "2".toList, none⟩ ]

def depthTwoConfig : RuntimeState :=
  (parseRuntimeConfigState depthTwoDocument []).getD initRuntimeConfigDefaults

/-- The folder `/d/a` in the scan path. -/
def folderView : View where
  stat path := if path = "/d".toList ∨ path = "/".toList then
      .found ⟨true, false, 1, 0, 0, 0, 0, 0⟩ else .missing
  lstat _ := .ok false
  opendir path := .ok ⟨if path = "/d".toList then
      [⟨['a'], .directory, by decide, by decide⟩, ⟨['b'], .directory, by decide, by decide⟩]
    else [], none, none⟩
  grows _ := true
  openDirectory _ := some 3
  sameDirectory _ _ := true
  accepts _ := true
  indexRebuilds := true
  halted _ := false
  gameActive _ := false

/-- The two folders after a game was copied into each of them. -/
def gameView : View where
  stat path := if pathMatchesRootOrChild path "/d/a".toList ||
      pathMatchesRootOrChild path "/d/b".toList then
      .found ⟨false, true, 2, 0, 0, 0, 0, 0⟩ else folderView.stat path
  lstat := folderView.lstat
  opendir := folderView.opendir
  grows := folderView.grows
  openDirectory := folderView.openDirectory
  sameDirectory := folderView.sameDirectory
  accepts := folderView.accepts
  indexRebuilds := folderView.indexRebuilds
  halted := folderView.halted
  gameActive := folderView.gameActive

def folderState : RootState :=
  (rebuildScanRootWatchTree folderView depthTwoConfig 0 ⟨[], .cleared⟩).2

def folderWatches : List Subscription :=
  [⟨"/d/a".toList, .scanSubdir, 1, 3⟩, ⟨"/d/b".toList, .scanSubdir, 1, 3⟩]

theorem depthTwoConfig_loaded : Loaded depthTwoConfig := by
  have hsome : (parseRuntimeConfigState depthTwoDocument []).isSome = true := by decide +kernel
  obtain ⟨config, hconfig⟩ := Option.isSome_iff_exists.mp hsome
  refine .inr ⟨depthTwoDocument, [], ?_⟩
  unfold depthTwoConfig
  rw [hconfig]
  rfl

example : (executePending gameView depthTwoConfig 0
    (folderState.requested depthTwoConfig 0 folderWatches)).2.watches.map (fun e => e.path) =
      ["/d".toList, "/".toList] := by
  decide +kernel

/-- The requests of two folders next to each other are merged to the folder above them, and the
rebuild drops both watches, as a full rebuild does. -/
theorem pending_rebuild_exact_merged :
    let t := folderState.requested depthTwoConfig 0 folderWatches
    t.pending.path = "/d".toList ∧
    (∀ request ∈ folderWatches, ∃ dir ∈ target depthTwoConfig 0 request,
        LiesIn dir t.pending.path) ∧
      (folderWatches ≠ [] → t.pending.stale = true ∧
        Descends "/d".toList t.pending.path t.pending.depth ∧
        (executePending gameView depthTwoConfig 0 t).1 =
          (rebuildScanRootWatchTree gameView depthTwoConfig 0 t).1) ∧
      ((rebuildScanRootWatchTree gameView depthTwoConfig 0 t).1 = true →
        (executePending gameView depthTwoConfig 0 t).1 = true ∧
          directories (executePending gameView depthTwoConfig 0 t).2.watches =
            directories (rebuildScanRootWatchTree gameView depthTwoConfig 0 t).2.watches) := by
  obtain ⟨hroot, hbuilt, hcleared, hwatched, htarget, hpending⟩ :
      getScanPath depthTwoConfig 0 = some "/d".toList ∧
        (rebuildScanRootWatchTree folderView depthTwoConfig 0 ⟨[], .cleared⟩).1 = true ∧
        folderState.pending = .cleared ∧
        (∀ request ∈ folderWatches, request ∈ folderState.watches) ∧
        (∀ request ∈ folderWatches, target depthTwoConfig 0 request = some request.path) ∧
        (folderState.requested depthTwoConfig 0 folderWatches).pending.path = "/d".toList := by
    decide +kernel
  have hcurrent : UpToDate folderView depthTwoConfig 0 folderState :=
    ⟨fun _ => rfl, hcleared, _, hbuilt, rfl⟩
  refine ⟨hpending, pending_rebuild_exact depthTwoConfig_loaded hroot (fun _ => rfl) hcurrent
    hwatched ?_⟩
  intro path hout
  have hapart : ∀ request ∈ folderWatches, pathMatchesRootOrChild path request.path = false :=
    fun request hrequest => (pathMatchesRootOrChild_eq_false_iff _ _).mpr
      (hout request hrequest _ (htarget request hrequest))
  have ha := hapart _ List.mem_cons_self
  have hb := hapart _ (List.mem_cons_of_mem _ List.mem_cons_self)
  refine ⟨?_, rfl, fun _ _ _ _ => rfl, rfl, rfl, rfl⟩
  simp only [gameView, ha, hb, Bool.or_self, Bool.false_eq_true, if_false]

end ShadowMount.WatchTree
