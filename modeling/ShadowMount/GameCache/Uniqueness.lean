import ShadowMount.GameCache.AutoRemove

/-!
# Game cache - one entry per title and per path

{lit}`cache_game_entry` writes the first entry that has its path or its title.  When the
path is that of one entry and the title that of another, only one of the two is written
and both now agree in the title or in the path.

Main results:

- Theorem {lit}`entries_distinct`: on runs of such calls the entries stay apart.
-/

namespace ShadowMount.GameCache

open Foundation

variable {n m t : Nat}
variable {c : Cache n}

/-- No two valid entries share a title id, and no two a path that is not empty. -/
def Distinct (c : Cache n) : Prop :=
  ∀ j k, (c j).valid = true → (c k).valid = true → j ≠ k →
    (c j).titleId ≠ (c k).titleId ∧ ((c j).path ≠ [] → (c j).path ≠ (c k).path)

/-- No entry with the title comes before one with the path. -/
def PathFoundFirst (c : Cache n) (path titleId : Text) : Prop :=
  ∀ i j, (c i).valid → (c j).valid → (c i).path = path → (c j).titleId = titleId → i ≤ j

/-- An entry with what is stored of a path that does not fit has the title, or no entry has the
title and none is free. -/
def CutPathKnown (c : Cache n) (path titleId : Text) : Prop :=
  maxPath ≤ path.length → ∀ j, (c j).valid → (c j).path = strlcpy maxPath path →
    (c j).titleId = titleId ∨ ∀ i, (c i).valid = true ∧ (c i).titleId ≠ titleId

/-- The path and the title of a call that gives its path no second entry. -/
def KeepsPathsApart (c : Cache n) (path titleId : Text) : Prop :=
  path ≠ [] → PathFoundFirst c path titleId ∧ CutPathKnown c path titleId

/-- The call has a path and a title that belong together: when one entry has the path and another
the title, the call writes one of the two, and they agree afterwards.  The title of a source that
was seen has a running timer, and no other entry has the path. -/
def KeepsEntriesApart (s : State n m t) : Step → Prop
  | .cacheGameEntry _ path titleId _ =>
    KeepsTitlesApart s.cache path titleId ∧ KeepsPathsApart s.cache path titleId
  | .noteSourceSeen _ (some path) (some titleId) _ =>
    titleId ≠ [] → path ≠ [] → ∀ i j, (s.cache i).valid → (s.cache i).missingSinceUs ≠ 0 →
      (s.cache i).titleId = titleId → (s.cache j).valid →
      (s.cache j).path = strlcpy maxPath path → j = i
  | _ => True

/-- Distinct entries whose names fit their buffers. -/
structure Named (c : Cache n) : Prop where
  distinct : Distinct c
  fits : ∀ k, (c k).valid = true →
    (c k).titleId.length < maxTitleId ∧ (c k).path.length < maxPath

theorem Named.title_inj (h : Named c) {i j : Fin n} (hi : (c i).valid = true)
    (hj : (c j).valid = true) (hsame : (c i).titleId = (c j).titleId) : i = j := by
  by_contra hij
  exact (h.distinct i j hi hj hij).1 hsame

theorem Named.path_inj (h : Named c) {i j : Fin n} (hi : (c i).valid = true)
    (hj : (c j).valid = true) (hpath : (c i).path ≠ []) (hsame : (c i).path = (c j).path) :
    i = j := by
  by_contra hij
  exact (h.distinct i j hi hj hij).2 hpath hsame

theorem Named.titled (h : Named c) : WellTitled c :=
  ⟨fun _ _ => h.title_inj, fun k hk => (h.fits k hk).1⟩

/-- No entry but that of the slot has the title, or the path if it is not empty. -/
def Alone (c : Cache n) (k : Fin n) (path titleId : Text) : Prop :=
  (∀ j, (c j).valid → (c j).titleId = titleId → j = k) ∧
    (path ≠ [] → ∀ j, (c j).valid → (c j).path = path → j = k)

/-- An entry written leaves the entries apart when no other has its names. -/
theorem distinct_update_iff (h : Distinct c) {k : Fin n} {e : Entry} (hvalid : e.valid = true) :
    Distinct (Function.update c k e) ↔ Alone c k e.path e.titleId := by
  constructor
  · intro hdistinct
    have hpair : ∀ j ≠ k, (c j).valid = true →
        e.titleId ≠ (c j).titleId ∧ (e.path ≠ [] → e.path ≠ (c j).path) := by
      intro j hj hvalidj
      have hpair := hdistinct k j (by simpa using hvalid)
        (by rw [Function.update_of_ne hj]; exact hvalidj) hj.symm
      rwa [Function.update_self, Function.update_of_ne hj] at hpair
    refine ⟨fun j hj htitle => ?_, fun hpath j hj hsame => ?_⟩
    · by_contra hjk
      exact (hpair j hjk hj).1 htitle.symm
    · by_contra hjk
      exact (hpair j hjk hj).2 hpath hsame.symm
  · rintro ⟨htitle, hpath⟩ i j hi hj hij
    by_cases hik : i = k
    · subst hik
      rw [Function.update_of_ne hij.symm] at hj ⊢
      rw [Function.update_self]
      exact ⟨fun hsame => hij (htitle j hj hsame.symm).symm,
        fun hne hsame => hij (hpath hne j hj hsame.symm).symm⟩
    · rw [Function.update_of_ne hik] at hi ⊢
      by_cases hjk : j = k
      · subst hjk
        rw [Function.update_self]
        exact ⟨fun hsame => hij (htitle i hi hsame),
          fun hne hsame => hij (hpath (hsame ▸ hne) i hi hsame)⟩
      · rw [Function.update_of_ne hjk] at hj ⊢
        exact h i j hi hj hij

/-- The entries of the path that a call stores are all at its slot exactly when the path and the
title of the call keep the paths apart. -/
theorem keepsPathsApart_iff (h : Named c) {path : Text} (hpath : path ≠ []) (titleId : Text) :
    (∀ k, cacheGameSlot c path titleId = some k → ∀ j, (c j).valid →
        (c j).path = strlcpy maxPath path → j = k) ↔
      PathFoundFirst c path titleId ∧ CutPathKnown c path titleId := by
  rw [cacheGameSlot_only_iff fun e => e.path = strlcpy maxPath path]
  by_cases hfits : path.length < maxPath
  · rw [strlcpy_of_length_lt hfits]
    constructor
    · refine fun hfirst => ⟨fun i j hi hj hsame htitle => ?_, fun hlong => by omega⟩
      rcases hfirst i hi hsame with ⟨-, hleast⟩ | hnone
      · exact hleast j ⟨hj, .inr htitle⟩
      · exact absurd ⟨hi, .inl hsame⟩ (hnone i).2
    · rintro ⟨hfirst, -⟩ j hj hsame
      refine .inl ⟨⟨hj, .inl hsame⟩, ?_⟩
      rintro i ⟨hi, hsame' | htitle⟩
      · exact le_of_eq (h.path_inj hj hi (hsame ▸ hpath) (hsame.trans hsame'.symm))
      · exact hfirst j i hj hi hsame htitle
  · -- no entry has a path that does not fit
    have hfound : ∀ i, Found c path titleId i ↔ (c i).valid = true ∧ (c i).titleId = titleId := by
      refine fun i => and_congr_right fun hi => or_iff_right fun hsame => hfits ?_
      rw [← hsame]
      exact (h.fits i hi).2
    simp only [hfound]
    constructor
    · refine fun hfirst => ⟨fun i j hi _ hsame _ => ?_, fun _ j hj hsame => ?_⟩
      · exact absurd (hsame ▸ (h.fits i hi).2) hfits
      · rcases hfirst j hj hsame with ⟨⟨-, htitle⟩, -⟩ | hnone
        · exact .inl htitle
        · exact .inr fun i => ⟨(hnone i).1, fun htitle => (hnone i).2 ⟨(hnone i).1, htitle⟩⟩
    · rintro ⟨-, hcut⟩ j hj hsame
      rcases hcut (not_lt.mp hfits) j hj hsame with htitle | hnone
      · exact .inl ⟨⟨hj, htitle⟩,
          fun i hi => le_of_eq (h.title_inj hj hi.1 (htitle.trans hi.2.symm))⟩
      · exact .inr fun i => ⟨(hnone i).1, fun hi => (hnone i).2 hi.2⟩

theorem strlcpy_maxPath_eq_nil {path : Text} : strlcpy maxPath path = [] ↔ path = [] := by
  unfold strlcpy
  rw [List.take_eq_nil_iff]
  exact or_iff_right (by decide)

/-- The entry that a call writes is alone exactly when its path and its title keep the entries
apart. -/
theorem alone_iff (h : Named c) (path titleId : Text) :
    (∀ k, cacheGameSlot c path titleId = some k →
        Alone c k (strlcpy maxPath path) (strlcpy maxTitleId titleId)) ↔
      KeepsTitlesApart c path titleId ∧ KeepsPathsApart c path titleId := by
  rw [← keepsTitlesApart_iff h.titled]
  unfold Alone KeepsPathsApart
  rw [ne_eq, strlcpy_maxPath_eq_nil]
  constructor
  · intro halone
    refine ⟨fun k hk => (halone k hk).1, fun hpath => ?_⟩
    exact (keepsPathsApart_iff h hpath titleId).mp fun k hk => (halone k hk).2 hpath
  · rintro ⟨htitles, hpaths⟩ k hk
    exact ⟨htitles k hk, fun hpath => (keepsPathsApart_iff h hpath titleId).mpr (hpaths hpath) k hk⟩

/-- The entry was kept under its title and path, or was cleared. -/
def NamesKept (e e' : Entry) : Prop :=
  e'.valid = true → e.valid = true ∧ e'.titleId = e.titleId ∧ e'.path = e.path

theorem namesKept_self (e : Entry) : NamesKept e e :=
  fun h => ⟨h, rfl, rfl⟩

theorem namesKept_zero (e : Entry) : NamesKept e Entry.zero := by
  intro h
  cases h

theorem namesKept_timer (e : Entry) (since : Nat) :
    NamesKept e { e with missingSinceUs := since } :=
  fun h => ⟨h, rfl, rfl⟩

theorem namesKept_startMissingTimer (e : Entry) (now : Nat) :
    NamesKept e (startMissingTimer e now) := by
  unfold startMissingTimer
  split
  · exact namesKept_self e
  · exact namesKept_timer e now

theorem Named.of_namesKept {c' : Cache n} (h : Named c) (hkept : ∀ k, NamesKept (c k) (c' k)) :
    Named c' := by
  refine ⟨fun j k hj hk hjk => ?_, fun k hk => ?_⟩
  · obtain ⟨hvalidj, htitlej, hpathj⟩ := hkept j hj
    obtain ⟨hvalidk, htitlek, hpathk⟩ := hkept k hk
    rw [htitlej, htitlek, hpathj, hpathk]
    exact h.distinct j k hvalidj hvalidk hjk
  · obtain ⟨hvalid, htitle, hpath⟩ := hkept k hk
    rw [htitle, hpath]
    exact h.fits k hvalid

theorem Named.update_kept (h : Named c) {k : Fin n} {e : Entry} (hkept : NamesKept (c k) e) :
    Named (Function.update c k e) := by
  refine h.of_namesKept (fun j => ?_)
  by_cases hj : j = k
  · subst hj
    rw [Function.update_self]
    exact hkept
  · rw [Function.update_of_ne hj]
    exact namesKept_self _

/-- Writing a slot keeps the names within their buffers. -/
theorem Named.fits_write (h : Named c) (k : Fin n) (path titleId titleName root : Text) (j : Fin n)
    (hj : (Function.update c k (writeGameCacheSlot path titleId titleName root) j).valid = true) :
    (Function.update c k (writeGameCacheSlot path titleId titleName root) j).titleId.length <
        maxTitleId ∧
      (Function.update c k (writeGameCacheSlot path titleId titleName root) j).path.length <
        maxPath := by
  by_cases hjk : j = k
  · subst hjk
    rw [Function.update_self]
    refine ⟨strlcpy_maxTitleId_length titleId, ?_⟩
    have hlen : (strlcpy maxPath path).length ≤ maxPath - 1 := List.length_take_le _ _
    have hsize : 0 < maxPath := by decide
    exact lt_of_le_of_lt hlen (by omega)
  · rw [Function.update_of_ne hjk] at hj ⊢
    exact h.fits j hj

theorem namesKept_pruneGameCacheEntry (w : World) (root : Option Text) (e : Entry) :
    NamesKept e (pruneGameCacheEntry w root e) := by
  have hroot : NamesKept e (ensureGameCacheOwningScanRoot w e) ∧
      NamesKept e { ensureGameCacheOwningScanRoot w e with missingSinceUs := 0 } := by
    unfold ensureGameCacheOwningScanRoot
    split <;> exact ⟨fun h => ⟨h, rfl, rfl⟩, fun h => ⟨h, rfl, rfl⟩⟩
  unfold pruneGameCacheEntry
  split
  · exact namesKept_self e
  · cases root with
    | none =>
      simp only [Bool.not_true, Bool.false_eq_true, if_false]
      split
      · exact namesKept_timer e 0
      · split
        · exact namesKept_self e
        · exact namesKept_zero e
    | some root =>
      simp only
      generalize pathMatchesRootOrChild _ root = selected
      split
      · exact hroot.1
      · split
        · exact hroot.2
        · split
          · exact hroot.1
          · exact namesKept_zero e

theorem Named.prune (h : Named c) (w : World) (root : Option Text) :
    Named (pruneGameCache w c root) :=
  h.of_namesKept fun _ => namesKept_pruneGameCacheEntry w _ _

theorem Named.clearCachedGame (h : Named c) (path : Text) : Named (clearCachedGame c path) := by
  refine h.of_namesKept (fun k => ?_)
  unfold GameCache.clearCachedGame
  split
  · exact namesKept_zero _
  · exact namesKept_self _

theorem Named.resetTimers (h : Named c) : Named (resetMissingGameCacheTimers c) := by
  refine h.of_namesKept (fun k => ?_)
  unfold resetMissingGameCacheTimers
  split
  · exact namesKept_self _
  · split
    · exact namesKept_zero _
    · exact namesKept_timer _ 0

theorem Named.dropUnlistedEntries (h : Named c) (w : World) (titles : AppDbTitleList) :
    Named (dropUnlistedEntries w titles c) := by
  refine h.of_namesKept (fun k => ?_)
  unfold GameCache.dropUnlistedEntries
  split
  · exact namesKept_self _
  · exact namesKept_zero _

/-- A listed title gets a new entry only when it has none, and the new entry has no
path. -/
theorem Named.reconcileTitle (h : Named c) (w : World) (index : ImageIndex.Index m t)
    {titleId : Text} (hfits : titleId.length < maxTitleId) :
    Named (reconcileTitle w index c titleId) := by
  unfold GameCache.reconcileTitle
  split
  · exact h
  · simp only
    split
    · rename_i k _
      split
      · split
        · exact h.update_kept (namesKept_timer _ 0)
        · exact h.update_kept (namesKept_zero _)
      · split
        · split
          · exact h.update_kept (namesKept_zero _)
          · exact h.update_kept (namesKept_timer _ 0)
        · exact h.update_kept (namesKept_startMissingTimer _ _)
    · rename_i hnone
      split
      · exact h
      · split
        · exact h
        · rename_i k hfree
          have hnew : Named (Function.update c k (writeGameCacheSlot [] titleId [] [])) := by
            refine ⟨(distinct_update_iff h.distinct rfl).mpr ⟨fun j hj hsame => ?_,
              fun hne => absurd rfl hne⟩, h.fits_write k _ _ _ _⟩
            exact absurd (hsame.trans (strlcpy_of_length_lt hfits))
              (findTitleEntry_eq_none hnone j hj)
          have hstarted := hnew.update_kept (k := k)
            (e := startMissingTimer (writeGameCacheSlot [] titleId [] []) w.now)
            (by rw [Function.update_self]; exact namesKept_startMissingTimer _ _)
          rwa [Function.update_idem] at hstarted

/-- A reconcile keeps names as they were stored. -/
theorem Named.reconcileMissingGameCache (h : Named c) (w : World) (index : ImageIndex.Index m t)
    (titles : AppDbTitleList) : Named (reconcileMissingGameCache w index titles c) := by
  have hfold : ∀ (ids : List Text) (c : Cache n), (∀ id ∈ ids, id.length < maxTitleId) →
      Named c → Named (ids.foldl (GameCache.reconcileTitle w index) c) := by
    intro ids
    induction ids with
    | nil => exact fun c _ hc => hc
    | cons id ids ih =>
      intro c hfits hc
      refine ih _ (fun id hid => hfits id (List.mem_cons_of_mem _ hid)) ?_
      exact hc.reconcileTitle w index (hfits id (List.mem_cons_self ..))
  exact hfold titles.ids _ titles.fits (h.dropUnlistedEntries w titles)

theorem Named.reconcile {s : State n m t} (h : Named s.cache) (w : World) :
    Named (next s (.reconcile w)).cache := by
  cases hlist : reconciledTitles w with
  | none =>
    rw [(next_reconcile_early hlist).1]
    exact h
  | some titles =>
    rw [(next_reconcile_cache hlist).1]
    have hreconciled := h.reconcileMissingGameCache w
      (ImageIndex.loadIndex w.toWorld s.index) titles
    refine hreconciled.of_namesKept (fun k => ?_)
    rcases removeExpired_slot w (w.autoRemoveMissingDelaySeconds * 1000000) titles (n + 1)
      (timersAfter s w titles) k with hsame | hzero
    · rw [hsame]
      exact namesKept_self _
    · rw [hzero]
      exact namesKept_zero _

/-- One call keeps the names within their buffers, and the entries apart exactly when its path and
its title belong together. -/
theorem distinct_next_iff {s : State n m t} (h : Named s.cache) (i : Step) :
    (Distinct (next s i).cache ↔ KeepsEntriesApart s i) ∧
      (Distinct (next s i).cache → Named (next s i).cache) := by
  have hkept : ∀ i, KeepsEntriesApart s i → Named (next s i).cache →
      (Distinct (next s i).cache ↔ KeepsEntriesApart s i) ∧
        (Distinct (next s i).cache → Named (next s i).cache) :=
    fun i hapart hnamed => ⟨iff_of_true hnamed.distinct hapart, fun _ => hnamed⟩
  cases i with
  | cacheGameEntry w path titleId titleName =>
    simp only [next, cacheGameEntry, KeepsEntriesApart]
    rw [← alone_iff h]
    cases hslot : cacheGameSlot s.cache path titleId with
    | none => exact ⟨iff_of_true h.distinct fun k hk => (by cases hk), fun _ => h⟩
    | some k =>
      refine ⟨(distinct_update_iff h.distinct rfl).trans ⟨?_, fun halone => halone k rfl⟩,
        fun hdistinct => ⟨hdistinct, h.fits_write k _ _ _ _⟩⟩
      rintro halone j hj
      cases hj
      exact halone
  | noteSourceSeen w path titleId titleName =>
    cases path with
    | none => exact hkept _ trivial h
    | some path =>
      cases titleId with
      | none => exact hkept _ trivial h
      | some titleId =>
        simp only [next, noteGameCacheSourceSeen, KeepsEntriesApart]
        split
        next hempty => exact ⟨iff_of_true h.distinct fun hne => absurd hempty hne, fun _ => h⟩
        next hnamed =>
          split
          next hnone =>
            refine ⟨iff_of_true h.distinct fun _ _ i j hi hrunning htitle => ?_, fun _ => h⟩
            have hnot := Fin.eq_false_of_find?_eq_none hnone i
            simp [hi, hrunning, htitle] at hnot
          next k hfound =>
            have hk := Fin.eq_true_of_find?_eq_some hfound
            simp only [Bool.and_eq_true, decide_eq_true_eq] at hk
            obtain ⟨⟨hvalid, hrunning⟩, htitle⟩ := hk
            have hstored : strlcpy maxTitleId titleId = titleId :=
              strlcpy_of_length_lt (htitle ▸ (h.fits k hvalid).1)
            refine ⟨(distinct_update_iff h.distinct rfl).trans ⟨?_, ?_⟩,
              fun hdistinct => ⟨hdistinct, h.fits_write k _ _ _ _⟩⟩
            · rintro ⟨-, hpath⟩ - hne i j hi - hsame hj hjpath
              rw [h.title_inj hi hvalid (hsame.trans htitle.symm)]
              exact hpath (strlcpy_maxPath_eq_nil.not.mpr hne) j hj hjpath
            · intro hapart
              refine ⟨fun j hj hsame => h.title_inj hj hvalid ?_, fun hne j hj hsame => ?_⟩
              · exact (hsame.trans hstored).trans htitle.symm
              · exact hapart hnamed (strlcpy_maxPath_eq_nil.not.mp hne) k j hvalid hrunning
                  htitle hj hsame
  | prune w root => exact hkept _ trivial (h.prune w root)
  | clearCachedGame path => exact hkept _ trivial (h.clearCachedGame path)
  | resetTimers => exact hkept _ trivial h.resetTimers
  | indexBeginScan w path st => exact hkept _ trivial h
  | indexRecordGame w gamePath titleId => exact hkept _ trivial h
  | indexCompleteScan w path => exact hkept _ trivial h
  | indexFlush w => exact hkept _ trivial h
  | indexPrune w => exact hkept _ trivial h
  | reconcile w => exact hkept _ trivial (h.reconcile w)

/-- On every run whose calls have paths and titles that belong together the entries stay apart, and
in every state of such a run this is what the next call needs to keep them apart. -/
theorem entries_distinct {s : State n m t}
    (hs : Reachable (autoRemoveSystem.restrict KeepsEntriesApart) s) :
    Distinct s.cache ∧ ∀ i, Distinct (next s i).cache ↔ KeepsEntriesApart s i := by
  have hinit : ∀ s : State n m t, (autoRemoveSystem.restrict KeepsEntriesApart).init s →
      Named s.cache := by
    rintro s ⟨hempty, -⟩
    have hfree : ∀ k, (s.cache k).valid ≠ true := by simp [hempty, Entry.zero]
    exact ⟨fun j _ hj => absurd hj (hfree j), fun k hk => absurd hk (hfree k)⟩
  have hstep : ∀ (s : State n m t) i s', Named s.cache →
      (autoRemoveSystem.restrict KeepsEntriesApart).step s i s' → Named s'.cache := by
    rintro s i s' h ⟨rfl, hapart⟩
    obtain ⟨hiff, hnamed⟩ := distinct_next_iff h i
    exact hnamed (hiff.mpr hapart)
  have hnamed : Named s.cache := Reachable.invariant hinit hstep hs
  exact ⟨hnamed.distinct, fun i => (distinct_next_iff hnamed i).1⟩

/-- A game moves to another directory and keeps its single entry. -/
theorem entries_distinct_moved_game :
    let run : List Step :=
      [.cacheGameEntry (observed [] none 0) "/data/a".toList "PPSA00001".toList [],
        .cacheGameEntry (observed [] none 0) "/data/b".toList "PPSA00001".toList []]
    Distinct (run.foldl next (startState 2 1 1)).cache := by
  intro run
  have hstart : Reachable (autoRemoveSystem.restrict KeepsEntriesApart) (startState 2 1 1) :=
    .start startState_init
  have hshort (c : Cache 2) (path titleId : Text) (hpath : path.length < maxPath)
      (htitle : titleId.length < maxTitleId) : CutTitleKnown c path titleId ∧
        CutPathKnown c path titleId := ⟨fun hlong => by omega, fun hlong => by omega⟩
  have hempty : KeepsEntriesApart (startState 2 1 1) run[0] :=
    ⟨⟨fun i _ hi => (by cases hi), (hshort _ _ _ (by decide) (by decide)).1⟩,
      fun _ => ⟨fun i _ hi => (by cases hi), (hshort _ _ _ (by decide) (by decide)).2⟩⟩
  -- no entry has the new path
  have hmoved : ∀ i, ((next (startState 2 1 1) run[0]).cache i).path ≠ "/data/b".toList := by decide
  have hapart : KeepsEntriesApart (next (startState 2 1 1) run[0]) run[1] :=
    ⟨⟨fun i _ _ _ hpath => absurd hpath (hmoved i), (hshort _ _ _ (by decide) (by decide)).1⟩,
      fun _ => ⟨fun i _ _ _ hpath => absurd hpath (hmoved i),
        (hshort _ _ _ (by decide) (by decide)).2⟩⟩
  exact (entries_distinct ((hstart.step (i := run[0]) ⟨rfl, hempty⟩).step (i := run[1])
    ⟨rfl, hapart⟩)).1

set_option maxRecDepth 100000 in
/-- A directory whose game was replaced by one that has an entry of its own: the entry
of the directory takes the title of the other, and both stay. -/
theorem title_cached_twice :
    ¬∀ s : State maxPending maxImageMounts maxImageTitles,
      Reachable autoRemoveSystem s → Distinct s.cache := by
  intro hclaim
  let run : List Step :=
    [.cacheGameEntry (observed [] none 0) "/data/a".toList "PPSA00001".toList [],
      .cacheGameEntry (observed [] none 0) "/data/b".toList "PPSA00002".toList [],
      .cacheGameEntry (observed [] none 0) "/data/a".toList "PPSA00002".toList []]
  have hstart : Reachable autoRemoveSystem
      (startState maxPending maxImageMounts maxImageTitles) := .start startState_init
  have h₁ := hstart.step (i := run[0]) rfl
  have h₂ := h₁.step (i := run[1]) rfl
  have h₃ := h₂.step (i := run[2]) rfl
  have hrun : let c := (run.foldl next
        (startState maxPending maxImageMounts maxImageTitles)).cache
      (c ⟨0, by decide⟩).valid = true ∧ (c ⟨1, by decide⟩).valid = true ∧
        (c ⟨0, by decide⟩).titleId = (c ⟨1, by decide⟩).titleId := by
    decide +kernel
  obtain ⟨hfirst, hsecond, hsame⟩ := hrun
  exact (hclaim _ h₃ ⟨0, by decide⟩ ⟨1, by decide⟩ hfirst hsecond (by decide)).1 hsame

end ShadowMount.GameCache
