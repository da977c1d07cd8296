import ShadowMount.ImageIndex.Model

/-!
# Image index - entries and their titles

What the operations do to the entries of the index and to the titles they hold.  A
title belongs to an entry by a stored index, so an entry must be emptied before its slot
is given to another image; an entry that is found by its path stays the same one until
it is cleared.
-/

namespace ShadowMount.ImageIndex

variable {m t : Nat}
variable {x y : Index m t} {path titleId : Text} {i : Fin m}

/-- `stamp_matches`. -/
def stampMatches (e : Entry) (st : Stat) : Bool :=
  e.size = st.size && e.mtimeSec = st.mtimeSec && e.mtimeNsec = st.mtimeNsec

/-- What the readers of the index learn about the installed titles. -/
structure TitleView where
  stat : StatView
  /-- the titles of `app.db`, when its list is ready -/
  appDbTitles : Option (List Text)
  isInstalled : Text → Bool
  hasAppmetaData : Text → Bool
  /-- `read_mount_link` -/
  mountLink : Text → Option Text
  /-- `read_mount_image_link` -/
  mountImageLink : Text → Option Text
  /-- the list of the titles to visit can be allocated -/
  allocated : Bool

/-- The titles recorded for an entry, in the order of their records. -/
def entryTitles (x : Index m t) (i : Fin m) : List Text :=
  (List.finRange t).filterMap fun j =>
    if (x.titles j).valid && (x.titles j).imageIndex = storedIndex i
    then some (x.titles j).titleId else none

/-- `indexed_source_has_title`. -/
def indexedSourceHasTitle (v : TitleView) (x : Index m t) (path titleId : Text) : Bool :=
  match findEntry x path with
  | none => false
  | some i =>
    (x.entries i).complete && decide (titleId ∈ entryTitles x i) &&
      match v.stat path with
      | .found st => st.isRegular && stampMatches (x.entries i) st
      | _ => false

/-- The checks of `cached_titles_ready` on one title. -/
def titleReady (v : TitleView) (x : Index m t) (imagePath titleId : Text) : Bool :=
  (match v.appDbTitles with
    | none => true
    | some titles => decide (titleId ∈ titles)) &&
    v.isInstalled titleId && v.hasAppmetaData titleId &&
    (match v.mountLink titleId with
      | none => false
      | some runtimePath => isUnderImageMountBase runtimePath) &&
    match v.mountImageLink titleId with
    | none => false
    | some linked => linked = imagePath || indexedSourceHasTitle v x linked titleId

/-- `sm_image_index_visit_ready_titles`, after the index is loaded: the titles it
visits when it reports the image ready. -/
def visitReadyTitles (v : TitleView) (x : Index m t) (path : Text) (st : Stat) :
    Option (List Text) :=
  match findEntry x path with
  | none => none
  | some i =>
    if (x.entries i).complete && stampMatches (x.entries i) st &&
        (entryTitles x i).all (titleReady v x (x.entries i).path) &&
        (entryTitles x i = [] || v.allocated) then
      some (entryTitles x i)
    else none

/-- The entry holds the title. -/
def Contains (x : Index m t) (i : Fin m) (titleId : Text) : Prop :=
  ∃ j, (x.titles j).valid = true ∧ (x.titles j).imageIndex = storedIndex i ∧
    (x.titles j).titleId = titleId

/-- Every valid title record refers to a valid entry. -/
def TitlesReferToEntries (x : Index m t) : Prop :=
  ∀ j, (x.titles j).valid = true →
    ∃ h : (x.titles j).imageIndex < m, (x.entries ⟨_, h⟩).valid = true

theorem findEntry_eq_some (h : findEntry x path = some i) :
    (x.entries i).valid = true ∧ (x.entries i).path = path := by
  have hi := Fin.eq_true_of_find?_eq_some h
  simpa using hi

theorem findEntry_eq_none (h : findEntry x path = none) (i : Fin m)
    (hvalid : (x.entries i).valid = true) : (x.entries i).path ≠ path := by
  have hi := Fin.eq_false_of_find?_eq_none h i
  simpa [hvalid] using hi

theorem findEntry_congr (h : ∀ i, ((y.entries i).valid = true ∧ (y.entries i).path = path) ↔
      ((x.entries i).valid = true ∧ (x.entries i).path = path)) :
    findEntry y path = findEntry x path := by
  unfold findEntry
  congr 1
  funext i
  rw [Bool.eq_iff_iff]
  simpa using h i

theorem findEntry_update_of_path {q : Text} (hentries : ∀ k, k ≠ i → y.entries k = x.entries k)
    (hpath : (y.entries i).path = path)
    (hbefore : (x.entries i).valid = true → (x.entries i).path = path) (hq : q ≠ path) :
    findEntry y q = findEntry x q := by
  refine findEntry_congr (fun k => ?_)
  by_cases hk : k = i
  · subst hk
    constructor
    · rintro ⟨-, hsame⟩
      exact absurd (hsame.symm.trans hpath) hq
    · rintro ⟨hvalid, hsame⟩
      exact absurd (hsame.symm.trans (hbefore hvalid)) hq
  · rw [hentries k hk]

theorem findEntry_of_cleared (h : ∀ i, (x.entries i).valid = false) (path : Text) :
    findEntry x path = none := by
  refine Fin.find?_eq_none_iff.mpr (fun i => ?_)
  simp [h i]

/-- The only entry with the path is found. -/
theorem findEntry_eq_some_of_unique (hvalid : (x.entries i).valid = true)
    (hpath : (x.entries i).path = path)
    (hunique : ∀ k, (x.entries k).valid = true → (x.entries k).path = path → k = i) :
    findEntry x path = some i := by
  cases hfind : findEntry x path with
  | none => exact absurd hpath (findEntry_eq_none hfind i hvalid)
  | some k =>
    obtain ⟨hvalidk, hpathk⟩ := findEntry_eq_some hfind
    rw [hunique k hvalidk hpathk]

/-- The entry of the path was emptied and stamped, and nothing else was touched. -/
structure Begins (x y : Index m t) (path : Text) (st : Stat) (i : Fin m) : Prop where
  found : findEntry y path = some i
  others : ∀ q, q ≠ path → findEntry y q = findEntry x q
  stamped : stampMatches (y.entries i) st = true
  entries : ∀ k, k ≠ i → y.entries k = x.entries k
  titles : y.titles = (clearEntryTitles x i).titles
  loaded : y.loaded = x.loaded

/-- The entry that is reserved, with the others as they were. -/
theorem reserveEntry_spec (x : Index m t) (hfits : path.length < maxPath) :
    (reserveEntry x path = (x, none) ∧ findEntry x path = none) ∨
      ∃ y i, reserveEntry x path = (y, some i) ∧ findEntry y path = some i ∧
        (∀ q, q ≠ path → findEntry y q = findEntry x q) ∧
        (∀ k, k ≠ i → y.entries k = x.entries k) ∧ y.titles = x.titles ∧
        y.loaded = x.loaded := by
  unfold reserveEntry
  cases hfind : findEntry x path with
  | some i => exact .inr ⟨x, i, rfl, hfind, fun _ _ => rfl, fun _ _ => rfl, rfl, rfl⟩
  | none =>
    simp only
    cases hfree : Fin.find? fun i => !(x.entries i).valid with
    | none => exact .inl ⟨rfl, trivial⟩
    | some i =>
      right
      have hinvalid : (x.entries i).valid = false := by
        simpa using Fin.eq_true_of_find?_eq_some hfree
      have hcopied : strlcpy maxPath path = path := List.take_of_length_le (by omega)
      refine ⟨_, i, rfl, ?_, ?_, ?_, rfl, rfl⟩
      · refine findEntry_eq_some_of_unique ?_ ?_ ?_
        · simp only [Function.update_self]
        · simp only [Function.update_self]
          exact hcopied
        · intro k hvalid hpath
          by_contra hk
          simp only [Function.update_of_ne hk] at hvalid hpath
          exact findEntry_eq_none hfind k hvalid hpath
      · intro q hq
        refine findEntry_update_of_path (i := i) (fun k hk => Function.update_of_ne hk _ _)
          ?_ ?_ hq
        · simp only [Function.update_self]
          exact hcopied
        · intro hvalid
          rw [hinvalid] at hvalid
          cases hvalid
      · exact fun k hk => Function.update_of_ne hk _ _

/-- Beginning an entry empties it and touches no other. -/
theorem beginScanLocked_spec (x : Index m t) (hfits : path.length < maxPath) (st : Stat) :
    (beginScanLocked x path st = x ∧ findEntry x path = none) ∨
      ∃ i, Begins x (beginScanLocked x path st) path st i := by
  rcases reserveEntry_spec x hfits with ⟨hreserve, hnone⟩ |
    ⟨y, i, hreserve, hfound, hothers, hentries, htitles, hloaded⟩
  · left
    simp only [beginScanLocked, hreserve]
    exact ⟨trivial, hnone⟩
  · right
    obtain ⟨hvalid, hpath⟩ := findEntry_eq_some hfound
    have hsame : ∀ q, findEntry (beginScanLocked x path st) q = findEntry y q := by
      intro q
      refine findEntry_congr (fun k => ?_)
      simp only [beginScanLocked, hreserve, clearEntryTitles]
      by_cases hk : k = i
      · subst hk
        rw [Function.update_self]
        simp [hvalid]
      · rw [Function.update_of_ne hk]
    refine ⟨i, ?_, ?_, ?_, ?_, ?_, ?_⟩
    · rw [hsame]
      exact hfound
    · intro q hq
      rw [hsame]
      exact hothers q hq
    · simp [beginScanLocked, hreserve, stampMatches]
    · intro k hk
      simp only [beginScanLocked, hreserve, clearEntryTitles]
      rw [Function.update_of_ne hk]
      exact hentries k hk
    · simp only [beginScanLocked, hreserve, clearEntryTitles, htitles]
    · simp only [beginScanLocked, hreserve, clearEntryTitles, hloaded]

/-- The sixteen stored bits tell the entries apart. -/
theorem storedIndex_inj (hm : m ≤ 2 ^ 16) {k : Fin m} (h : storedIndex i = storedIndex k) :
    i = k := by
  simp only [storedIndex] at h
  rw [Nat.mod_eq_of_lt (by omega), Nat.mod_eq_of_lt (by omega)] at h
  exact Fin.ext h

theorem storedIndex_eq (hm : m ≤ 2 ^ 16) (i : Fin m) : storedIndex i = i.val :=
  Nat.mod_eq_of_lt (by omega)

theorem clearEntryTitles_kept {j : Fin t} (h : ((clearEntryTitles x i).titles j).valid = true) :
    (clearEntryTitles x i).titles j = x.titles j ∧
      (x.titles j).imageIndex ≠ storedIndex i := by
  simp only [clearEntryTitles] at h ⊢
  split at h
  · cases h
  · rename_i hkept
    rw [if_neg hkept]
    simp only [Bool.and_eq_true, decide_eq_true_eq, not_and] at hkept
    exact ⟨rfl, hkept h⟩

/-- Clearing an entry's titles keeps those of the other entries. -/
theorem Contains.clearEntryTitles (hm : m ≤ 2 ^ 16) {k : Fin m} (hk : k ≠ i)
    (h : Contains x k titleId) : Contains (ImageIndex.clearEntryTitles x i) k titleId := by
  obtain ⟨j, hvalid, hindex, htitle⟩ := h
  have hkept : (ImageIndex.clearEntryTitles x i).titles j = x.titles j := by
    simp only [ImageIndex.clearEntryTitles]
    rw [if_neg]
    simp only [Bool.and_eq_true, decide_eq_true_eq, not_and]
    intro _ hsame
    exact hk (storedIndex_inj hm (hindex.symm.trans hsame))
  refine ⟨j, ?_, ?_, ?_⟩ <;> rw [hkept] <;> assumption

/-- Records of valid entries stay so when an entry is emptied, whatever becomes of that
entry. -/
theorem TitlesReferToEntries.clear (h : TitlesReferToEntries x) (hm : m ≤ 2 ^ 16)
    (htitles : y.titles = (clearEntryTitles x i).titles)
    (hentries : ∀ k, k ≠ i → y.entries k = x.entries k) : TitlesReferToEntries y := by
  intro j hvalid
  rw [htitles] at hvalid
  obtain ⟨hkept, hother⟩ := clearEntryTitles_kept hvalid
  rw [hkept] at hvalid
  obtain ⟨hlt, hentry⟩ := h j hvalid
  rw [htitles, hkept]
  refine ⟨hlt, ?_⟩
  rw [hentries]
  · exact hentry
  · intro hsame
    refine hother ?_
    rw [storedIndex_eq hm, ← hsame]

/-- Every entry still found was found before, with the same stamp, and holds what it
held. -/
structure Kept (x y : Index m t) : Prop where
  refers : TitlesReferToEntries x → TitlesReferToEntries y
  loaded : y.loaded = x.loaded
  found : ∀ path k, findEntry y path = some k → findEntry x path = some k
  holds : ∀ path k, findEntry y path = some k → ∀ titleId, Contains x k titleId →
    Contains y k titleId
  stamped : ∀ path k, findEntry y path = some k → ∀ st,
    stampMatches (x.entries k) st = true → stampMatches (y.entries k) st = true

theorem Kept.refl (x : Index m t) : Kept x x where
  refers h := h
  loaded := rfl
  found _ _ h := h
  holds _ _ _ _ h := h
  stamped _ _ _ _ h := h

theorem Kept.trans {z : Index m t} (h : Kept x y) (h' : Kept y z) : Kept x z where
  refers hx := h'.refers (h.refers hx)
  loaded := h'.loaded.trans h.loaded
  found path k hk := h.found path k (h'.found path k hk)
  holds path k hk titleId hx :=
    h'.holds path k hk titleId (h.holds path k (h'.found path k hk) titleId hx)
  stamped path k hk st hx :=
    h'.stamped path k hk st (h.stamped path k (h'.found path k hk) st hx)

theorem Kept.of_tables (hentries : y.entries = x.entries) (htitles : y.titles = x.titles)
    (hloaded : y.loaded = x.loaded) : Kept x y := by
  have hfind : ∀ path, findEntry y path = findEntry x path := by
    intro path
    simp only [findEntry, hentries]
  refine ⟨?_, hloaded, ?_, ?_, ?_⟩
  · intro h
    simpa only [TitlesReferToEntries, hentries, htitles] using h
  · intro path k hk
    rwa [hfind] at hk
  · intro path k _ titleId h
    simpa only [Contains, htitles] using h
  · intro path k _ st h
    rwa [hentries]

theorem Kept.of_cleared (hentries : y.entries = fun _ => Entry.zero)
    (htitles : y.titles = fun _ => Title.zero) (hloaded : y.loaded = x.loaded) : Kept x y := by
  have hnone : ∀ path k, findEntry y path ≠ some k := by
    intro path k hk
    rw [findEntry_of_cleared (fun i => by rw [hentries]; rfl) path] at hk
    cases hk
  refine ⟨?_, hloaded, ?_, ?_, ?_⟩
  · intro _ j hvalid
    rw [htitles] at hvalid
    cases hvalid
  · exact fun path k hk => absurd hk (hnone path k)
  · exact fun path k hk => absurd hk (hnone path k)
  · exact fun path k hk => absurd hk (hnone path k)

theorem kept_refreshIndexContext (w : World) (x : Index m t) :
    Kept x (refreshIndexContext w x).1 := by
  unfold refreshIndexContext
  split
  · exact .of_cleared rfl rfl rfl
  · split
    · exact .refl x
    · exact .of_cleared rfl rfl rfl

theorem kept_saveIndex (w : World) (x : Index m t) : Kept x (saveIndex w x) := by
  unfold saveIndex
  repeat' split
  all_goals exact .of_tables rfl rfl rfl

/-- Writing the index takes nothing from an entry that is still found. -/
theorem kept_flush (w : World) (x : Index m t) : Kept (loadIndex w x) (flush w x) := by
  have hrefresh := kept_refreshIndexContext w (loadIndex w x)
  unfold flush
  split <;> rename_i hresult <;> rw [hresult] at hrefresh
  · exact hrefresh.trans (kept_saveIndex w _)
  · exact hrefresh

theorem kept_completeScan (w : World) (x : Index m t) (path : Text) :
    Kept (loadIndex w x) (completeScan w x path) := by
  unfold completeScan
  simp only
  split
  · exact .refl _
  · rename_i i _
    split
    · exact .refl _
    · have hentry : ∀ k, (Function.update (loadIndex w x).entries i
          { (loadIndex w x).entries i with complete := true } k).valid =
            ((loadIndex w x).entries k).valid ∧
          (Function.update (loadIndex w x).entries i
          { (loadIndex w x).entries i with complete := true } k).path =
            ((loadIndex w x).entries k).path ∧ ∀ st,
          stampMatches (Function.update (loadIndex w x).entries i
          { (loadIndex w x).entries i with complete := true } k) st =
            stampMatches ((loadIndex w x).entries k) st := by
        intro k
        by_cases hk : k = i
        · subst hk
          rw [Function.update_self]
          exact ⟨rfl, rfl, fun _ => rfl⟩
        · rw [Function.update_of_ne hk]
          exact ⟨rfl, rfl, fun _ => rfl⟩
      refine ⟨?_, rfl, ?_, ?_, ?_⟩
      · intro h j hvalid
        obtain ⟨hlt, hentryvalid⟩ := h j hvalid
        exact ⟨hlt, (hentry _).1.trans hentryvalid⟩
      · intro q k hk
        rw [← hk]
        refine (findEntry_congr (fun k => ?_)).symm
        simp only [(hentry k).1, (hentry k).2.1]
      · exact fun _ _ _ _ h => h
      · intro q k _ st h
        exact ((hentry k).2.2 st).trans h

/-- Some entries of missing images were cleared with their titles. -/
structure Pruned (w : World) (x y : Index m t) : Prop where
  refers : TitlesReferToEntries x → TitlesReferToEntries y
  loaded : y.loaded = x.loaded
  entry : ∀ k, (y.entries k = x.entries k ∧
      ∀ titleId, Contains x k titleId → Contains y k titleId) ∨
    (w.stat (x.entries k).path = .missing ∧ (y.entries k).valid = false)

theorem Pruned.trans {w : World} {z : Index m t} (h : Pruned w x y) (h' : Pruned w y z) :
    Pruned w x z where
  refers hx := h'.refers (h.refers hx)
  loaded := h'.loaded.trans h.loaded
  entry k := by
    rcases h.entry k with ⟨hsame, hholds⟩ | ⟨hmissing, hcleared⟩
    · rcases h'.entry k with ⟨hsame', hholds'⟩ | ⟨hmissing', hcleared'⟩
      · exact .inl ⟨hsame'.trans hsame, fun titleId hx => hholds' titleId (hholds titleId hx)⟩
      · rw [hsame] at hmissing'
        exact .inr ⟨hmissing', hcleared'⟩
    · refine .inr ⟨hmissing, ?_⟩
      rcases h'.entry k with ⟨hsame', -⟩ | ⟨-, hcleared'⟩
      · rw [hsame']
        exact hcleared
      · exact hcleared'

/-- The entry of a missing image may be cleared. -/
theorem pruned_clearEntry (hm : m ≤ 2 ^ 16) {w : World}
    (hmissing : w.stat (x.entries i).path = .missing) : Pruned w x (clearEntry x i) where
  refers h := h.clear hm rfl (fun k hk => Function.update_of_ne hk _ _)
  loaded := rfl
  entry k := by
    by_cases hk : k = i
    · subst hk
      refine .inr ⟨hmissing, ?_⟩
      simp only [clearEntry, Function.update_self]
      rfl
    · refine .inl ⟨Function.update_of_ne hk _ _, fun titleId h => ?_⟩
      exact h.clearEntryTitles hm hk

theorem pruned_turn (hm : m ≤ 2 ^ 16) (w : World) (x : Index m t) (i : Fin m) :
    let y := if (x.entries i).valid && w.stat (x.entries i).path = .missing
      then clearEntry x i else x
    Pruned w x y ∧ ((y.entries i).valid = true → w.stat (y.entries i).path ≠ .missing) := by
  simp only
  split
  · rename_i hgone
    simp only [Bool.and_eq_true, decide_eq_true_eq] at hgone
    refine ⟨pruned_clearEntry hm hgone.2, fun hvalid => ?_⟩
    simp only [clearEntry, Function.update_self] at hvalid
    cases hvalid
  · rename_i hstays
    refine ⟨⟨fun h => h, rfl, fun _ => .inl ⟨rfl, fun _ h => h⟩⟩, fun hvalid hmissing => ?_⟩
    simp [hvalid, hmissing] at hstays

/-- The loop over slots drops the missing ones. -/
theorem pruned_fold (hm : m ≤ 2 ^ 16) (w : World) (visited : List (Fin m)) (x : Index m t) :
    let y := visited.foldl (fun x i =>
      if (x.entries i).valid && w.stat (x.entries i).path = .missing then clearEntry x i
      else x) x
    Pruned w x y ∧ ∀ k ∈ visited, (y.entries k).valid = true →
      w.stat (y.entries k).path ≠ .missing := by
  induction visited generalizing x with
  | nil =>
    exact ⟨⟨fun h => h, rfl, fun _ => .inl ⟨rfl, fun _ h => h⟩⟩, nofun⟩
  | cons i visited ih =>
    obtain ⟨hturn, hvisited⟩ := pruned_turn hm w x i
    obtain ⟨hrest, hothers⟩ := ih (if (x.entries i).valid &&
      w.stat (x.entries i).path = .missing then clearEntry x i else x)
    refine ⟨hturn.trans hrest, fun k hk hvalid => ?_⟩
    rcases List.mem_cons.mp hk with rfl | hk
    · -- the rest of the loop leaves this entry or clears it
      rcases hrest.entry k with ⟨hsame, -⟩ | ⟨-, hcleared⟩
      · simp only [List.foldl_cons] at hvalid ⊢
        rw [hsame] at hvalid ⊢
        exact hvisited hvalid
      · exact absurd (hvalid.symm.trans hcleared) (by decide)
    · exact hothers k hk hvalid

/-- Pruning keeps the entries of images that exist. -/
theorem kept_pruneMissing (hm : m ≤ 2 ^ 16) (w : World) (x : Index m t) :
    Kept x (pruneMissing w x) := by
  obtain ⟨hpruned, hleft⟩ := pruned_fold hm w (List.finRange m) x
  have hentry : ∀ k, ((pruneMissing w x).entries k).valid = true →
      (pruneMissing w x).entries k = x.entries k ∧
        ∀ titleId, Contains x k titleId → Contains (pruneMissing w x) k titleId := by
    intro k hvalid
    rcases hpruned.entry k with hkept | ⟨-, hcleared⟩
    · exact hkept
    · exact absurd (hvalid.symm.trans hcleared) (by decide)
  refine ⟨hpruned.refers, hpruned.loaded, ?_, ?_, ?_⟩
  · intro path k hk
    obtain ⟨hvalid, hpath⟩ := findEntry_eq_some hk
    -- the image is not missing, so none of its entries was cleared
    have hpresent : w.stat path ≠ .missing := by
      rw [← hpath]
      exact hleft k (List.mem_finRange k) hvalid
    rw [← hk]
    refine findEntry_congr (fun i => ?_)
    constructor
    · rintro ⟨hvalidi, hpathi⟩
      rcases hpruned.entry i with ⟨hsame, -⟩ | ⟨hmissing, -⟩
      · have hsame' : (pruneMissing w x).entries i = x.entries i := hsame
        rw [hsame']
        exact ⟨hvalidi, hpathi⟩
      · rw [hpathi] at hmissing
        exact absurd hmissing hpresent
    · rintro ⟨hvalidi, hpathi⟩
      have hsame := (hentry i hvalidi).1
      rw [hsame] at hvalidi hpathi
      exact ⟨hvalidi, hpathi⟩
  · intro path k hk titleId h
    exact (hentry k (findEntry_eq_some hk).1).2 titleId h
  · intro path k hk st h
    rw [(hentry k (findEntry_eq_some hk).1).1]
    exact h

theorem kept_prune (hm : m ≤ 2 ^ 16) (w : World) (x : Index m t) :
    Kept (loadIndex w x) (prune w x) := by
  have hrefresh := kept_refreshIndexContext w (loadIndex w x)
  unfold prune
  split <;> rename_i hresult <;> rw [hresult] at hrefresh
  · exact (hrefresh.trans (kept_pruneMissing hm w _)).trans (kept_saveIndex w _)
  · exact hrefresh.trans (kept_pruneMissing hm w _)

theorem loadIndex_loaded (w : World) (x : Index m t) : (loadIndex w x).loaded = true := by
  unfold loadIndex
  split
  · assumption
  · simp only
    split
    · rfl
    · split <;> rfl

theorem TitlesReferToEntries.load (h : TitlesReferToEntries x) (w : World) :
    TitlesReferToEntries (loadIndex w x) := by
  unfold loadIndex
  split
  · exact h
  · simp only
    split
    · exact h
    · rename_i f _
      split
      · rename_i haccepted
        simp only [Bool.and_eq_true, loadedIndexIsValid, decide_eq_true_eq] at haccepted
        intro j hvalid
        exact (haccepted.2.2 j hvalid).1
      · intro j hvalid
        cases hvalid

/-- What storing a title does: the entries stay, every entry holds what it held, and
the entry holds the title when the answer is true. -/
structure Stores (x y : Index m t) (i : Fin m) (titleId : Text) (stored : Bool) : Prop where
  entries : y.entries = x.entries
  loaded : y.loaded = x.loaded
  refers : TitlesReferToEntries x → TitlesReferToEntries y
  holds : ∀ k u, Contains x k u → Contains y k u
  stores : stored = true → Contains y i titleId

/-- Storing a title adds it to its entry only. -/
theorem recordTitle_spec (hm : m ≤ 2 ^ 16) (x : Index m t) (hvalid : (x.entries i).valid = true)
    (hfits : titleId.length < maxTitleId) :
    Stores x (recordTitle x i titleId).1 i titleId (recordTitle x i titleId).2 := by
  unfold recordTitle
  simp only
  split
  · rename_i j hknown
    have hj := Fin.eq_true_of_find?_eq_some hknown
    simp only [Bool.and_eq_true, decide_eq_true_eq] at hj
    exact ⟨rfl, rfl, fun h => h, fun _ _ h => h, fun _ => ⟨j, hj.1.1, hj.1.2, hj.2⟩⟩
  · split
    · exact ⟨rfl, rfl, fun h => h, fun _ _ h => h, nofun⟩
    · rename_i j hfree
      have hinvalid : (x.titles j).valid = false := by
        simpa using Fin.eq_true_of_find?_eq_some hfree
      have hcopied : strlcpy maxTitleId titleId = titleId :=
        List.take_of_length_le (by omega)
      refine ⟨rfl, rfl, ?_, ?_, ?_⟩
      · intro h k hk
        by_cases hkj : k = j
        · subst hkj
          simp only [Function.update_self, storedIndex_eq hm]
          exact ⟨i.isLt, hvalid⟩
        · simp only [Function.update_of_ne hkj] at hk ⊢
          exact h k hk
      · rintro k u ⟨l, hl, hindex, htitle⟩
        -- the record is not the one that was free
        have hlj : l ≠ j := by
          rintro rfl
          rw [hinvalid] at hl
          cases hl
        refine ⟨l, ?_, ?_, ?_⟩ <;> simp only [Function.update_of_ne hlj] <;> assumption
      · intro _
        refine ⟨j, ?_, ?_, ?_⟩ <;> simp only [Function.update_self]
        exact hcopied

theorem Stores.found {stored : Bool} (h : Stores x y i titleId stored) (path : Text) :
    findEntry y path = findEntry x path := by
  simp only [findEntry, h.entries]

end ShadowMount.ImageIndex
