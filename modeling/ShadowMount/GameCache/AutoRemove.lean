import ShadowMount.GameCache.Model

/-!
# Game cache - safety of auto-removal

An uninstall is irreversible, so every request of
{lit}`reconcile_missing_app_db_games` should be justified: the title is listed,
unprotected, has no source now, and had none at any reconcile since its timer was
started at least the configured delay earlier.

The code does not guarantee this in every run.  {lit}`cache_game_entry` matches an
entry by its path or by its title and may give one title two entries, of which
only the first is examined; a reconcile that skips a title leaves its timer
running whatever its source does; and the image index answers for a title from
its first record only.  {lit}`StepCondition` says that none of the three happens,
and under it every request is justified.

Main results:

- Theorem {lit}`removal_justified`: in every run whose steps meet the condition,
  every uninstall request is justified.
- Theorem {lit}`removal_unjustified_after_retitled_path`: a run in which a game
  that is still present is uninstalled.
-/

namespace ShadowMount.GameCache

open Foundation

variable {n m t : Nat}
variable {c : Cache n} {k : Fin n} {e : Entry} {titleId : Text} {done : List Text}

/-! ## What a justified request is -/

/-- A title record whose backing image exists. -/
def recordHasSource (w : World) (index : ImageIndex.Index m t) (j : Fin t) : Bool :=
  (index.imageOf (index.titles j)).valid &&
    pathExists w.stat (index.imageOf (index.titles j)).path

/-- No cached entry and no title record of the title has a source that exists. -/
def NoSource (s : State n m t) (w : World) (titleId : Text) : Prop :=
  (∀ k, (s.cache k).valid → (s.cache k).titleId = titleId →
      gameCacheSourceExists w (s.cache k) = false) ∧
    ∀ j, ((ImageIndex.loadIndex w.toWorld s.index).titles j).valid →
      ((ImageIndex.loadIndex w.toWorld s.index).titles j).titleId = titleId →
      recordHasSource w (ImageIndex.loadIndex w.toWorld s.index) j = false

/-- The timers as a reconcile leaves them before its removal loop. -/
def timersAfter (s : State n m t) (w : World) (titles : AppDbTitleList) : Cache n :=
  reconcileMissingGameCache w (ImageIndex.loadIndex w.toWorld s.index) titles s.cache

/-- The list a reconcile works on, if it gets that far. -/
def reconciledTitles (w : World) : Option AppDbTitleList :=
  if w.autoRemoveMissingGames then w.autoRemoveTitles else none

/-- The reconcile started a timer for the title at its own clock reading. -/
def TimerStarted (s : State n m t) (w : World) (titleId : Text) : Prop :=
  ∃ titles k, reconciledTitles w = some titles ∧ w.now ≠ 0 ∧
    (timersAfter s w titles k).valid = true ∧
    (timersAfter s w titles k).titleId = titleId ∧
    (timersAfter s w titles k).missingSinceUs = w.now ∧
    ¬((s.cache k).valid = true ∧ (s.cache k).titleId = titleId ∧
      (s.cache k).missingSinceUs ≠ 0)

/-- The recorded step is no reconcile, or it saw no source of the title. -/
def SawNoSource (titleId : Text) (r : State n m t × Step) : Prop :=
  ∀ w, r.2 = .reconcile w → NoSource r.1 w titleId

/-- A timer of the title was started at the given clock reading by a recorded
reconcile, and no reconcile from that one on saw a source of the title. -/
def TimerJustified (h : History (State n m t) Step) (titleId : Text) (since : Nat) : Prop :=
  ∃ newer s₀ w₀ older, h = newer ++ (s₀, .reconcile w₀) :: older ∧
    TimerStarted s₀ w₀ titleId ∧ w₀.now = since ∧
    ∀ r ∈ newer ++ [(s₀, .reconcile w₀)], SawNoSource titleId r

/-- Everything that should hold of an uninstall request: the title is listed and
unprotected, it has no source at this reconcile, and a timer for it was started
at least the delay earlier, since when no reconcile saw a source. -/
def RemovalJustified (h : History (State n m t) Step) (s : State n m t) (w : World)
    (titleId : Text) : Prop :=
  (∃ titles, w.autoRemoveTitles = some titles ∧ titleId ∈ titles.ids) ∧
    w.shellcoreProtected titleId = false ∧ titleIsProtectedByDlc w titleId = false ∧
    NoSource s w titleId ∧
    ∃ since ≤ w.now, w.autoRemoveMissingDelaySeconds * 1000000 ≤ w.now - since ∧
      TimerJustified ((s, .reconcile w) :: h) titleId since

/-! ## The condition under which requests are justified -/

/-- No entry with the path comes before one with the title. -/
def TitleFoundFirst (c : Cache n) (path titleId : Text) : Prop :=
  ∀ i j, (c i).valid → (c j).valid → (c i).path = path → (c j).titleId = titleId → j ≤ i

/-- An entry with what is stored of a title that does not fit is the first one with the path, or
no entry has the path and none is free. -/
def CutTitleKnown (c : Cache n) (path titleId : Text) : Prop :=
  maxTitleId ≤ titleId.length → ∀ j, (c j).valid →
    (c j).titleId = strlcpy maxTitleId titleId →
    ((c j).path = path ∧ ∀ i, (c i).valid → (c i).path = path → j ≤ i) ∨
      ∀ i, (c i).valid = true ∧ (c i).path ≠ path

/-- The path and the title of a call that gives its title no second entry. -/
def KeepsTitlesApart (c : Cache n) (path titleId : Text) : Prop :=
  TitleFoundFirst c path titleId ∧ CutTitleKnown c path titleId

/-- The reconcile passes over no running timer: it gets to its loops, and the entry is of a title
that ShellCore does not protect, and is listed or about to be dropped. -/
def TimersObserved (s : State n m t) (w : World) : Prop :=
  ∀ k, (s.cache k).valid → (s.cache k).missingSinceUs ≠ 0 →
    ∃ titles, reconciledTitles w = some titles ∧
      w.shellcoreProtected (s.cache k).titleId = false ∧
      ((s.cache k).titleId ∈ titles.ids ∨ gameCacheSourceExists w (s.cache k) = false)

/-- For every title that the index is asked about and that has an image that exists, the first
title record is of such an image. -/
def FirstRecordDecides (s : State n m t) (w : World) : Prop :=
  ∀ titles, reconciledTitles w = some titles → ∀ titleId ∈ titles.ids,
    w.shellcoreProtected titleId = false → titleIsProtectedByDlc w titleId = false → ∀ j,
    ((ImageIndex.loadIndex w.toWorld s.index).titles j).valid →
    ((ImageIndex.loadIndex w.toWorld s.index).titles j).titleId = titleId →
    recordHasSource w (ImageIndex.loadIndex w.toWorld s.index) j = true →
    ImageIndex.hasSourceForTitle w.stat (ImageIndex.loadIndex w.toWorld s.index) titleId = true

/-- The condition on a step and on the state before it. -/
def StepCondition (s : State n m t) : Step → Prop
  | .cacheGameEntry _ path titleId _ => KeepsTitlesApart s.cache path titleId
  | .reconcile w => TimersObserved s w ∧ FirstRecordDecides s w
  | _ => True

/-! ## Titles stay unique -/

/-- No title has two entries, and every title fits its buffer. -/
structure WellTitled (c : Cache n) : Prop where
  unique : ∀ j k, (c j).valid → (c k).valid → (c j).titleId = (c k).titleId → j = k
  fits : ∀ k, (c k).valid → (c k).titleId.length < maxTitleId

/-- Each entry of the new cache has the title that its slot had before. -/
def TitlesKept (c c' : Cache n) : Prop :=
  ∀ k, (c' k).valid → (c k).valid = true ∧ (c k).titleId = (c' k).titleId

/-- An entry with a title of its own may be written. -/
theorem WellTitled.update (h : WellTitled c)
    (hfits : e.valid = true → e.titleId.length < maxTitleId)
    (hfresh : e.valid = true → ∀ j, (c j).valid → (c j).titleId = e.titleId → j = k) :
    WellTitled (Function.update c k e) where
  unique := by
    intro i j hi hj heq
    by_cases hik : i = k <;> by_cases hjk : j = k
    · rw [hik, hjk]
    · subst hik
      simp only [Function.update_self, Function.update_of_ne hjk] at hi hj heq
      exact (hfresh hi j hj heq.symm).symm
    · subst hjk
      simp only [Function.update_self, Function.update_of_ne hik] at hi hj heq
      exact hfresh hj i hi heq
    · simp only [Function.update_of_ne hik, Function.update_of_ne hjk] at hi hj heq
      exact h.unique i j hi hj heq
  fits := by
    intro j hj
    by_cases hjk : j = k
    · subst hjk
      rw [Function.update_self] at hj ⊢
      exact hfits hj
    · rw [Function.update_of_ne hjk] at hj ⊢
      exact h.fits j hj

theorem WellTitled.of_titlesKept {c' : Cache n} (h : WellTitled c) (hkept : TitlesKept c c') :
    WellTitled c' where
  unique := by
    intro j k hj hk heq
    obtain ⟨hjvalid, hjtitle⟩ := hkept j hj
    obtain ⟨hkvalid, hktitle⟩ := hkept k hk
    exact h.unique j k hjvalid hkvalid (by rw [hjtitle, hktitle, heq])
  fits := by
    intro k hk
    obtain ⟨hkvalid, hktitle⟩ := hkept k hk
    rw [← hktitle]
    exact h.fits k hkvalid

theorem strlcpy_maxTitleId_length (titleId : Text) :
    (strlcpy maxTitleId titleId).length < maxTitleId := by
  have hlen : (strlcpy maxTitleId titleId).length ≤ maxTitleId - 1 := List.length_take_le _ _
  have hsize : 0 < maxTitleId := by decide
  omega

/-- The entry found is valid and has the title. -/
theorem findTitleEntry_eq_some (h : findTitleEntry c titleId = some k) :
    (c k).valid = true ∧ (c k).titleId = titleId := by
  simpa using Fin.eq_true_of_find?_eq_some h

theorem findTitleEntry_eq_none (h : findTitleEntry c titleId = none) (k : Fin n)
    (hk : (c k).valid = true) : (c k).titleId ≠ titleId := by
  have hfalse := Fin.eq_false_of_find?_eq_none h k
  simpa [hk] using hfalse

/-! ## The loops of a reconcile -/

/-- A slot that survives the first loop is as it was, and it is listed,
protected, or has a source. -/
theorem dropUnlistedEntries_valid {w : World} {titles : AppDbTitleList}
    (h : (dropUnlistedEntries w titles c k).valid = true) :
    dropUnlistedEntries w titles c k = c k ∧
      (gameCacheSourceExists w (c k) = true ∨
        w.shellcoreProtected (c k).titleId = true ∨ (c k).titleId ∈ titles.ids) := by
  unfold dropUnlistedEntries at h ⊢
  split
  · rename_i hkept
    rw [if_pos hkept] at h
    simp only [h, Bool.not_true, Bool.false_or, Bool.or_eq_true, decide_eq_true_eq] at hkept
    exact ⟨rfl, by tauto⟩
  · rename_i hdropped
    rw [if_neg hdropped] at h
    simp [Entry.zero] at h

theorem dropUnlistedEntries_of_mem {w : World} {titles : AppDbTitleList}
    (h : (c k).titleId ∈ titles.ids) : dropUnlistedEntries w titles c k = c k := by
  simp [dropUnlistedEntries, h]

/-- A timer that is running after `start_missing_timer` was running already or
shows the clock. -/
theorem startMissingTimer_running {now : Nat} (h : (startMissingTimer e now).missingSinceUs ≠ 0) :
    (e.missingSinceUs ≠ 0 ∧ (startMissingTimer e now).missingSinceUs = e.missingSinceUs) ∨
      (now ≠ 0 ∧ e.missingSinceUs = 0 ∧ (startMissingTimer e now).missingSinceUs = now) := by
  unfold startMissingTimer at h ⊢
  split
  · rename_i hkept
    rw [if_pos hkept] at h
    exact .inl ⟨h, rfl⟩
  · rename_i hstarted
    simp only [ne_eq, not_or, not_not] at hstarted
    exact .inr ⟨hstarted.2, hstarted.1, rfl⟩

@[simp]
theorem startMissingTimer_titleId (e : Entry) (now : Nat) :
    (startMissingTimer e now).titleId = e.titleId := by
  unfold startMissingTimer
  split <;> rfl

/-- The call finds the entry. -/
def Found (c : Cache n) (path titleId : Text) (i : Fin n) : Prop :=
  (c i).valid = true ∧ ((c i).path = path ∨ (c i).titleId = titleId)

/-- The entries of a kind are all at the slot of a call exactly when each is the first one that the
call finds, or the call finds none and none is free. -/
theorem cacheGameSlot_only_iff {path : Text} (kind : Entry → Prop) :
    (∀ k, cacheGameSlot c path titleId = some k →
        ∀ j, (c j).valid → kind (c j) → j = k) ↔
      ∀ j, (c j).valid → kind (c j) →
        (Found c path titleId j ∧ ∀ i, Found c path titleId i → j ≤ i) ∨
          ∀ i, (c i).valid = true ∧ ¬Found c path titleId i := by
  unfold cacheGameSlot
  cases hfind :
      Fin.find? fun k => (c k).valid && ((c k).path = path || (c k).titleId = titleId) with
  | some k =>
    have hfound : Found c path titleId k := by
      simpa [Found] using Fin.eq_true_of_find?_eq_some hfind
    have hleast : ∀ i, Found c path titleId i → k ≤ i := by
      intro i hi
      by_contra hlt
      have hnot := Fin.eq_false_of_find?_eq_some_of_lt hfind i (not_le.mp hlt)
      simp [hi.1] at hnot
      exact hi.2.elim hnot.1 hnot.2
    constructor
    · intro honly j hj hkind
      rw [honly k rfl j hj hkind]
      exact .inl ⟨hfound, hleast⟩
    · rintro hfirst k' hk' j hj hkind
      cases hk'
      rcases hfirst j hj hkind with ⟨hjfound, hjleast⟩ | hnone
      · exact le_antisymm (hjleast k hfound) (hleast j hjfound)
      · exact absurd hfound (hnone k).2
  | none =>
    have hnone : ∀ i, ¬Found c path titleId i := by
      intro i hi
      have hnot := Fin.eq_false_of_find?_eq_none hfind i
      simp [hi.1] at hnot
      exact hi.2.elim hnot.1 hnot.2
    constructor
    · intro honly j hj hkind
      refine .inr (fun i => ⟨?_, hnone i⟩)
      by_contra hfree
      rcases Option.isSome_iff_exists.mp (Fin.isSome_find?_of_eq_true (i := i)
        (p := fun k => !(c k).valid) (by simpa using hfree)) with ⟨k, hk⟩
      have hkfree := Fin.eq_true_of_find?_eq_some hk
      rw [← honly k hk j hj hkind] at hkfree
      simp [hj] at hkfree
    · intro hfirst k hk j hj hkind
      rcases hfirst j hj hkind with ⟨hjfound, -⟩ | hall
      · exact absurd hjfound (hnone j)
      · have hkfree := Fin.eq_true_of_find?_eq_some hk
        simp [(hall k).1] at hkfree

theorem strlcpy_of_length_lt {size : Nat} {text : Text} (h : text.length < size) :
    strlcpy size text = text :=
  List.take_of_length_le (by omega)

/-- The entries of the title that a call stores are all at its slot exactly when the path and the
title of the call keep the titles apart. -/
theorem keepsTitlesApart_iff (h : WellTitled c) (path titleId : Text) :
    (∀ k, cacheGameSlot c path titleId = some k → ∀ j, (c j).valid →
        (c j).titleId = strlcpy maxTitleId titleId → j = k) ↔ KeepsTitlesApart c path titleId := by
  rw [cacheGameSlot_only_iff fun e => e.titleId = strlcpy maxTitleId titleId]
  by_cases hfits : titleId.length < maxTitleId
  · rw [strlcpy_of_length_lt hfits]
    constructor
    · refine fun hfirst => ⟨fun i j hi hj hpath htitle => ?_, fun hlong => by omega⟩
      rcases hfirst j hj htitle with ⟨-, hleast⟩ | hnone
      · exact hleast i ⟨hi, .inl hpath⟩
      · exact absurd ⟨hj, .inr htitle⟩ (hnone j).2
    · rintro ⟨hfirst, -⟩ j hj htitle
      refine .inl ⟨⟨hj, .inr htitle⟩, ?_⟩
      rintro i ⟨hi, hpath | hsame⟩
      · exact hfirst i j hi hj hpath htitle
      · exact le_of_eq (h.unique j i hj hi (htitle.trans hsame.symm))
  · -- no entry has a title that does not fit
    have hfound : ∀ i, Found c path titleId i ↔ (c i).valid = true ∧ (c i).path = path := by
      refine fun i => and_congr_right fun hi => or_iff_left fun hsame => hfits ?_
      rw [← hsame]
      exact h.fits i hi
    simp only [hfound]
    constructor
    · refine fun hfirst => ⟨fun i j _ hj _ htitle => ?_, fun _ j hj htitle => ?_⟩
      · exact absurd (htitle ▸ h.fits j hj) hfits
      · rcases hfirst j hj htitle with ⟨⟨-, hpath⟩, hleast⟩ | hnone
        · exact .inl ⟨hpath, fun i hi hpath => hleast i ⟨hi, hpath⟩⟩
        · exact .inr fun i => ⟨(hnone i).1, fun hpath => (hnone i).2 ⟨(hnone i).1, hpath⟩⟩
    · rintro ⟨-, hcut⟩ j hj htitle
      rcases hcut (not_lt.mp hfits) j hj htitle with ⟨hpath, hleast⟩ | hnone
      · exact .inl ⟨⟨hj, hpath⟩, fun i hi => hleast i hi.1 hi.2⟩
      · exact .inr fun i => ⟨(hnone i).1, fun hi => (hnone i).2 hi.2⟩

/-- A removed title has no record with a source. -/
theorem recordHasSource_eq_false {s : State n m t} {w : World} (h : FirstRecordDecides s w)
    {titles : AppDbTitleList} (hlist : reconciledTitles w = some titles)
    (hmem : titleId ∈ titles.ids) (hprotected : w.shellcoreProtected titleId = false)
    (hdlc : titleIsProtectedByDlc w titleId = false)
    (hnone : ImageIndex.hasSourceForTitle w.stat (ImageIndex.loadIndex w.toWorld s.index)
      titleId = false) (j : Fin t)
    (hvalid : ((ImageIndex.loadIndex w.toWorld s.index).titles j).valid = true)
    (htitle : ((ImageIndex.loadIndex w.toWorld s.index).titles j).titleId = titleId) :
    recordHasSource w (ImageIndex.loadIndex w.toWorld s.index) j = false := by
  by_contra hsource
  rw [Bool.not_eq_false] at hsource
  have hfound := h titles hlist titleId hmem hprotected hdlc j hvalid htitle hsource
  rw [hnone] at hfound
  cases hfound

/-- What holds of the cache after the listed titles `done` were handled,
compared with the state `s` before the reconcile.  A slot of a title that was
not handled, or was skipped as protected, is as the first loop left it; a timer
that runs for a handled title has no source, and it ran before or was started
now. -/
structure Progress (s : State n m t) (w : World) (titles : AppDbTitleList)
    (done : List Text) (c : Cache n) : Prop where
  titled : WellTitled c
  kept : ∀ k, (c k).valid → ((c k).titleId ∉ done ∨ w.shellcoreProtected (c k).titleId) →
    c k = dropUnlistedEntries w titles s.cache k
  kept' : ∀ k, (dropUnlistedEntries w titles s.cache k).valid →
    ((dropUnlistedEntries w titles s.cache k).titleId ∉ done ∨
      w.shellcoreProtected (dropUnlistedEntries w titles s.cache k).titleId) →
    c k = dropUnlistedEntries w titles s.cache k
  timer : ∀ k, (c k).valid → (c k).missingSinceUs ≠ 0 → (c k).titleId ∈ done →
    w.shellcoreProtected (c k).titleId = false →
    NoSource s w (c k).titleId ∧
      (((s.cache k).valid = true ∧ (s.cache k).titleId = (c k).titleId ∧
          (s.cache k).missingSinceUs = (c k).missingSinceUs) ∨
        ((c k).missingSinceUs = w.now ∧ w.now ≠ 0 ∧
          ¬((s.cache k).valid = true ∧ (s.cache k).titleId = (c k).titleId ∧
            (s.cache k).missingSinceUs ≠ 0)))

section Reconcile

variable {s : State n m t} {w : World} {titles : AppDbTitleList}

/-- Before the first turn no title is removed. -/
theorem progress_start (htitled : WellTitled s.cache) :
    Progress s w titles [] (dropUnlistedEntries w titles s.cache) where
  titled := by
    refine htitled.of_titlesKept (fun k hk => ?_)
    obtain ⟨heq, -⟩ := dropUnlistedEntries_valid hk
    rw [heq] at hk ⊢
    exact ⟨hk, rfl⟩
  kept _ _ _ := rfl
  kept' _ _ _ := rfl
  timer _ _ _ hk := by cases hk

/-- In the cache reached so far, a listed title that was not handled yet has the
entry it had before the reconcile. -/
theorem Progress.eq_of_pending (h : Progress s w titles done c) (hmem : titleId ∈ titles.ids)
    (hpending : titleId ∉ done) (hvalid : (s.cache k).valid = true)
    (htitle : (s.cache k).titleId = titleId) : c k = s.cache k := by
  have hdrop : dropUnlistedEntries w titles s.cache k = s.cache k :=
    dropUnlistedEntries_of_mem (by rw [htitle]; exact hmem)
  rw [h.kept' k (by rw [hdrop]; exact hvalid) (.inl (by rw [hdrop, htitle]; exact hpending)),
    hdrop]

/-- Rewriting the only slot of the title being handled, when the new entry is
free, has no timer, or has a justified one. -/
theorem Progress.handle (h : Progress s w titles done c) (hfits : titleId.length < maxTitleId)
    (hprotected : w.shellcoreProtected titleId = false)
    (htitle : e.valid = true → e.titleId = titleId)
    (hslot : (c k).valid = true → (c k).titleId = titleId)
    (honly : ∀ j, (c j).valid → (c j).titleId = titleId → j = k)
    (htimer : e.valid = true → e.missingSinceUs ≠ 0 → NoSource s w titleId ∧
      (((s.cache k).valid = true ∧ (s.cache k).titleId = titleId ∧
          (s.cache k).missingSinceUs = e.missingSinceUs) ∨
        (e.missingSinceUs = w.now ∧ w.now ≠ 0 ∧
          ¬((s.cache k).valid = true ∧ (s.cache k).titleId = titleId ∧
            (s.cache k).missingSinceUs ≠ 0)))) :
    Progress s w titles (titleId :: done) (Function.update c k e) where
  titled := h.titled.update (fun he => by rw [htitle he]; exact hfits)
    (fun he j hj heq => honly j hj (heq.trans (htitle he)))
  kept := by
    intro j hj hskip
    by_cases hjk : j = k
    · subst hjk
      rw [Function.update_self] at hj hskip
      rw [htitle hj] at hskip
      rcases hskip with hnot | hprot
      · exact absurd List.mem_cons_self hnot
      · rw [hprotected] at hprot
        cases hprot
    · rw [Function.update_of_ne hjk] at hj hskip ⊢
      exact h.kept j hj (hskip.imp_left (fun hnot hmem => hnot (List.mem_cons_of_mem _ hmem)))
  kept' := by
    intro j hj hskip
    have hold : c j = dropUnlistedEntries w titles s.cache j :=
      h.kept' j hj (hskip.imp_left (fun hnot hmem => hnot (List.mem_cons_of_mem _ hmem)))
    by_cases hjk : j = k
    · subst hjk
      rw [← hold] at hj hskip
      rw [hslot hj] at hskip
      rcases hskip with hnot | hprot
      · exact absurd List.mem_cons_self hnot
      · rw [hprotected] at hprot
        cases hprot
    · rw [Function.update_of_ne hjk]
      exact hold
  timer := by
    intro j hj hrunning hdone hprot
    by_cases hjk : j = k
    · subst hjk
      rw [Function.update_self] at hj hrunning ⊢
      rw [htitle hj]
      exact htimer hj hrunning
    · rw [Function.update_of_ne hjk] at hj hrunning hdone hprot ⊢
      rcases List.mem_cons.mp hdone with heq | hmem
      · exact absurd (honly j hj heq) hjk
      · exact h.timer j hj hrunning hmem hprot

/-- A protected title is passed over. -/
theorem Progress.skip_protected (h : Progress s w titles done c)
    (hprotected : w.shellcoreProtected titleId = true) :
    Progress s w titles (titleId :: done) c := by
  have hskip : ∀ id, (id ∉ titleId :: done ∨ w.shellcoreProtected id = true) →
      id ∉ done ∨ w.shellcoreProtected id = true :=
    fun id => .imp_left (fun hnot hin => hnot (List.mem_cons_of_mem _ hin))
  refine ⟨h.titled, fun k hk hs => h.kept k hk (hskip _ hs),
    fun k hk hs => h.kept' k hk (hskip _ hs), ?_⟩
  intro k hk hrunning hdone hprot
  rcases List.mem_cons.mp hdone with heq | hin
  · rw [heq, hprotected] at hprot
    cases hprot
  · exact h.timer k hk hrunning hin hprot

/-- A title without an entry changes nothing. -/
theorem Progress.skip_absent (h : Progress s w titles done c) (hpending : titleId ∉ done)
    (hnone : ∀ k, (c k).valid = true → (c k).titleId ≠ titleId) :
    Progress s w titles (titleId :: done) c := by
  have hback : ∀ id, id ≠ titleId → (id ∉ titleId :: done ∨ w.shellcoreProtected id = true) →
      id ∉ done ∨ w.shellcoreProtected id = true :=
    fun id _ => .imp_left (fun hnot hin => hnot (List.mem_cons_of_mem _ hin))
  refine ⟨h.titled, fun k hk hs => h.kept k hk (hback _ (hnone k hk) hs), ?_, ?_⟩
  · intro k hk hs
    by_cases hid : (dropUnlistedEntries w titles s.cache k).titleId = titleId
    · exact h.kept' k hk (.inl (by rw [hid]; exact hpending))
    · exact h.kept' k hk (hback _ hid hs)
  · intro k hk hrunning hdone hprot
    rcases List.mem_cons.mp hdone with heq | hin
    · exact absurd heq (hnone k hk)
    · exact h.timer k hk hrunning hin hprot

/-- One title is looked at. -/
theorem Progress.reconcileTitle (h : Progress s w titles done c) (hfirst : FirstRecordDecides s w)
    (hlist : reconciledTitles w = some titles) (hmem : titleId ∈ titles.ids)
    (hpending : titleId ∉ done) :
    Progress s w titles (titleId :: done)
      (reconcileTitle w (ImageIndex.loadIndex w.toWorld s.index) c titleId) := by
  unfold GameCache.reconcileTitle
  split
  · rename_i hprotected
    exact h.skip_protected hprotected
  · rename_i hprotected
    rw [Bool.not_eq_true] at hprotected
    have hlength : titleId.length < maxTitleId := titles.fits titleId hmem
    simp only
    -- a title without an image source has no record with one
    have hindex : (!titleIsProtectedByDlc w titleId &&
          ImageIndex.hasSourceForTitle w.stat (ImageIndex.loadIndex w.toWorld s.index)
            titleId) = false → titleIsProtectedByDlc w titleId = false →
        ∀ j, ((ImageIndex.loadIndex w.toWorld s.index).titles j).valid →
          ((ImageIndex.loadIndex w.toWorld s.index).titles j).titleId = titleId →
          recordHasSource w (ImageIndex.loadIndex w.toWorld s.index) j = false := by
      intro hsource hdlc j hvalid htitle
      rw [hdlc, Bool.not_false, Bool.true_and] at hsource
      exact recordHasSource_eq_false hfirst hlist hmem hprotected hdlc hsource j hvalid htitle
    cases hentry : findTitleEntry c titleId with
    | some k =>
      obtain ⟨hkvalid, hktitle⟩ := findTitleEntry_eq_some hentry
      have honly : ∀ j, (c j).valid → (c j).titleId = titleId → j = k :=
        fun j hj heq => h.titled.unique j k hj hkvalid (heq.trans hktitle.symm)
      have hold : c k = dropUnlistedEntries w titles s.cache k :=
        h.kept k hkvalid (.inl (by rw [hktitle]; exact hpending))
      have hsame : c k = s.cache k := by
        rw [hold] at hkvalid ⊢
        exact (dropUnlistedEntries_valid hkvalid).1
      have hclear : Progress s w titles (titleId :: done)
          (Function.update c k Entry.zero) :=
        h.handle hlength hprotected (by simp [Entry.zero]) (fun _ => hktitle) honly
          (by simp [Entry.zero])
      have hcancel : Progress s w titles (titleId :: done)
          (Function.update c k { c k with missingSinceUs := 0 }) :=
        h.handle hlength hprotected (fun _ => hktitle) (fun _ => hktitle) honly
          (fun _ hrunning => absurd rfl hrunning)
      simp only
      split
      · split
        · exact hcancel
        · exact hclear
      · rename_i hdlc
        split
        · split
          · exact hclear
          · exact hcancel
        · rename_i hmissing
          simp only [Bool.or_eq_true, not_or, Bool.not_eq_true] at hmissing hdlc
          refine h.handle hlength hprotected (fun _ => by simpa using hktitle) (fun _ => hktitle)
            honly (fun _ hrunning => ⟨⟨?_, hindex hmissing.2 hdlc⟩, ?_⟩)
          · intro j hj hjtitle
            have hcj := h.eq_of_pending hmem hpending hj hjtitle
            have hjk := honly j (by rw [hcj]; exact hj) (by rw [hcj]; exact hjtitle)
            rw [hjk, ← hsame]
            exact hmissing.1
          · rw [← hsame]
            rcases startMissingTimer_running hrunning with ⟨hold, heq⟩ | ⟨hnow, hold, heq⟩
            · exact .inl ⟨hkvalid, hktitle, heq.symm⟩
            · exact .inr ⟨heq, hnow, fun hran => hran.2.2 hold⟩
    | none =>
      have hnone := fun k => findTitleEntry_eq_none hentry k
      have hskip := h.skip_absent hpending hnone
      simp only
      split
      · exact hskip
      · rename_i hmissing
        simp only [Bool.or_eq_true, not_or, Bool.not_eq_true] at hmissing
        split
        · exact hskip
        · rename_i k hfree
          have hkfree : (c k).valid = false := by
            simpa using Fin.eq_true_of_find?_eq_some hfree
          have hcopied : strlcpy maxTitleId titleId = titleId := strlcpy_of_length_lt hlength
          have habsent : ∀ j, (s.cache j).valid = true → (s.cache j).titleId ≠ titleId := by
            intro j hj hjtitle
            have hcj := h.eq_of_pending hmem hpending hj hjtitle
            exact hnone j (by rw [hcj]; exact hj) (by rw [hcj]; exact hjtitle)
          refine h.handle hlength hprotected (fun _ => by simpa [writeGameCacheSlot] using hcopied)
            (fun hk => by rw [hkfree] at hk; cases hk)
            (fun j hj heq => absurd heq (hnone j hj)) (fun _ hrunning => ⟨⟨?_, ?_⟩, ?_⟩)
          · intro j hj hjtitle
            exact absurd hjtitle (habsent j hj)
          · exact hindex hmissing.2 hmissing.1
          · rcases startMissingTimer_running hrunning with ⟨hold, -⟩ | ⟨hnow, -, heq⟩
            · exact absurd rfl hold
            · exact .inr ⟨heq, hnow, fun hran => habsent k hran.1 hran.2.1⟩

/-- A list of titles is looked at. -/
theorem progress_fold (hfirst : FirstRecordDecides s w)
    (hlist : reconciledTitles w = some titles) (ids done : List Text) (c : Cache n)
    (h : Progress s w titles done c) (hnodup : ids.Nodup)
    (hmem : ∀ id ∈ ids, id ∈ titles.ids ∧ id ∉ done) :
    Progress s w titles (ids.reverse ++ done)
      (ids.foldl (reconcileTitle w (ImageIndex.loadIndex w.toWorld s.index)) c) := by
  induction ids generalizing done c with
  | nil => simpa using h
  | cons id ids ih =>
    obtain ⟨hid, hids⟩ := List.nodup_cons.mp hnodup
    obtain ⟨hlisted, hpending⟩ := hmem id (by simp)
    have hstep := h.reconcileTitle hfirst hlist hlisted hpending
    have hrest := ih (id :: done) _ hstep hids (by
      intro id' hid'
      obtain ⟨hlisted', hpending'⟩ := hmem id' (by simp [hid'])
      refine ⟨hlisted', ?_⟩
      rw [List.mem_cons, not_or]
      exact ⟨fun heq => hid (heq ▸ hid'), hpending'⟩)
    simpa using hrest

/-- After the two loops, every running timer belongs to a title without a source,
and it ran before in the same slot or was started by this reconcile. -/
theorem reconcileMissingGameCache_spec (htitled : WellTitled s.cache)
    (htimers : TimersObserved s w) (hfirst : FirstRecordDecides s w)
    (hlist : reconciledTitles w = some titles) :
    WellTitled (timersAfter s w titles) ∧
      ∀ k, (timersAfter s w titles k).valid →
        (timersAfter s w titles k).missingSinceUs ≠ 0 →
        NoSource s w (timersAfter s w titles k).titleId ∧
          (((s.cache k).valid = true ∧
              (s.cache k).titleId = (timersAfter s w titles k).titleId ∧
              (s.cache k).missingSinceUs = (timersAfter s w titles k).missingSinceUs) ∨
            ((timersAfter s w titles k).missingSinceUs = w.now ∧
              TimerStarted s w (timersAfter s w titles k).titleId)) := by
  have hprogress : Progress s w titles titles.ids.reverse (timersAfter s w titles) := by
    have hfold := progress_fold hfirst hlist titles.ids [] _ (progress_start htitled)
      titles.nodup (fun id hid => ⟨hid, by simp⟩)
    rw [List.append_nil] at hfold
    exact hfold
  refine ⟨hprogress.titled, fun k hk hrunning => ?_⟩
  by_cases hhandled : (timersAfter s w titles k).titleId ∈ titles.ids ∧
      w.shellcoreProtected (timersAfter s w titles k).titleId = false
  · obtain ⟨hsource, hold | ⟨hnow, hne, hnew⟩⟩ :=
      hprogress.timer k hk hrunning (by simpa using hhandled.1) hhandled.2
    · exact ⟨hsource, .inl hold⟩
    · exact ⟨hsource, .inr ⟨hnow, titles, k, hlist, hne, hk, rfl, hnow, hnew⟩⟩
  · -- the title was skipped: its slot is as before the reconcile
    have hkept : timersAfter s w titles k = dropUnlistedEntries w titles s.cache k := by
      refine hprogress.kept k hk ?_
      rw [not_and_or, Bool.not_eq_false] at hhandled
      exact hhandled.imp_left (fun hnot => by simpa using hnot)
    rw [hkept] at hk
    obtain ⟨hsame, hwhy⟩ := dropUnlistedEntries_valid hk
    rw [hsame] at hk hkept
    rw [hkept] at hrunning hhandled ⊢
    obtain ⟨titles', hlist', hprotected, hobserved⟩ := htimers k hk hrunning
    rw [hlist] at hlist'
    cases hlist'
    have hunlisted : (s.cache k).titleId ∉ titles.ids :=
      fun hin => hhandled ⟨hin, hprotected⟩
    rcases hobserved with hin | hmissing
    · exact absurd hin hunlisted
    · rw [hmissing, hprotected] at hwhy
      simp [hunlisted] at hwhy

end Reconcile

/-! ## The removal loop -/

/-- The loop leaves a slot or frees it. -/
theorem removeExpired_slot (w : World) (delay : Nat) (titles : AppDbTitleList)
    (turns : Nat) (c : Cache n) (k : Fin n) :
    (removeExpired w delay titles turns c).1 k = c k ∨
      (removeExpired w delay titles turns c).1 k = Entry.zero := by
  induction turns generalizing c with
  | zero => exact .inl rfl
  | succ turns ih =>
    simp only [removeExpired]
    split
    · exact .inl rfl
    · rename_i j _
      have hclear : Function.update c j Entry.zero k = c k ∨
          Function.update c j Entry.zero k = Entry.zero := by
        by_cases hjk : k = j
        · rw [hjk, Function.update_self]
          exact .inr rfl
        · rw [Function.update_of_ne hjk]
          exact .inl rfl
      have hrest := ih (Function.update c j Entry.zero)
      split
      · exact hclear
      · split <;> exact hrest.elim (fun h => h ▸ hclear) .inr

/-- Every request comes from an expired timer of a listed title that nothing
protects. -/
theorem removeExpired_request {w : World} {delay : Nat} {titles : AppDbTitleList} {turns : Nat}
    (h : titleId ∈ (removeExpired w delay titles turns c).2) :
    titleId ∈ titles.ids ∧ w.shellcoreProtected titleId = false ∧
      titleIsProtectedByDlc w titleId = false ∧
      ∃ k, (c k).titleId = titleId ∧ missingTimerExpired (c k) w.now delay = true := by
  induction turns generalizing c with
  | zero => cases h
  | succ turns ih =>
    simp only [removeExpired] at h
    split at h
    · cases h
    · rename_i j hexpired
      have hj := Fin.eq_true_of_find?_eq_some hexpired
      simp only [Bool.and_eq_true, Bool.not_eq_true'] at hj
      -- a request of the later turns comes from a slot this turn did not clear
      have hlater : titleId ∈ (removeExpired w delay titles turns
          (Function.update c j Entry.zero)).2 →
          titleId ∈ titles.ids ∧ w.shellcoreProtected titleId = false ∧
            titleIsProtectedByDlc w titleId = false ∧
            ∃ k, (c k).titleId = titleId ∧ missingTimerExpired (c k) w.now delay = true := by
        intro hrest
        obtain ⟨hlisted, hprotected, hdlc, k, htitle, htimer⟩ := ih hrest
        refine ⟨hlisted, hprotected, hdlc, k, ?_⟩
        by_cases hkj : k = j
        · rw [hkj, Function.update_self] at htimer
          simp [missingTimerExpired, Entry.zero] at htimer
        · rw [Function.update_of_ne hkj] at htitle htimer
          exact ⟨htitle, htimer⟩
      split at h
      · cases h
      · split at h
        · exact hlater h
        · rename_i hallowed
          simp only [not_or, not_not, Bool.not_eq_true] at hallowed
          rcases List.mem_cons.mp h with heq | hrest
          · rw [heq]
            exact ⟨hallowed.1, hj.2, hallowed.2, j, rfl, hj.1⟩
          · exact hlater hrest

/-! ## Every step keeps the timers justified -/

/-- Each entry of the new cache whose timer runs had the same title and the same
timer in the same slot before. -/
def TimersKept (c c' : Cache n) : Prop :=
  ∀ k, (c' k).valid → (c' k).missingSinceUs ≠ 0 →
    (c k).valid = true ∧ (c k).titleId = (c' k).titleId ∧
      (c k).missingSinceUs = (c' k).missingSinceUs

theorem TimersKept.update (h : e.missingSinceUs = 0) : TimersKept c (Function.update c k e) := by
  intro j hj hrunning
  by_cases hjk : j = k
  · rw [hjk, Function.update_self, h] at hrunning
    exact absurd rfl hrunning
  · rw [Function.update_of_ne hjk] at hj ⊢
    exact ⟨hj, rfl, rfl⟩

theorem cacheGameEntry_timersKept (w : World) (c : Cache n) (path titleId titleName : Text) :
    TimersKept c (cacheGameEntry w c path titleId titleName) := by
  unfold cacheGameEntry
  split
  · exact fun k hk _ => ⟨hk, rfl, rfl⟩
  · exact TimersKept.update rfl

/-- Titles stay apart in the cache. -/
theorem cacheGameEntry_titled {w : World} {path titleName : Text} (h : WellTitled c)
    (hapart : KeepsTitlesApart c path titleId) :
    WellTitled (cacheGameEntry w c path titleId titleName) := by
  unfold cacheGameEntry
  split
  · exact h
  · rename_i k hslot
    exact h.update (fun _ => strlcpy_maxTitleId_length titleId)
      (fun _ => (keepsTitlesApart_iff h path titleId).mpr hapart k hslot)

theorem noteGameCacheSourceSeen_timersKept (w : World) (c : Cache n)
    (path titleId titleName : Option Text) :
    TimersKept c (noteGameCacheSourceSeen w c path titleId titleName) := by
  have hsame : TimersKept c c := fun k hk _ => ⟨hk, rfl, rfl⟩
  unfold noteGameCacheSourceSeen
  split
  · split
    · exact hsame
    · split
      · exact hsame
      · exact TimersKept.update rfl
  · exact hsame

theorem noteGameCacheSourceSeen_titled {w : World} {path titleId titleName : Option Text}
    (h : WellTitled c) : WellTitled (noteGameCacheSourceSeen w c path titleId titleName) := by
  unfold noteGameCacheSourceSeen
  split
  · rename_i path titleId
    split
    · exact h
    · split
      · exact h
      · rename_i k hfound
        have hk := Fin.eq_true_of_find?_eq_some hfound
        simp only [Bool.and_eq_true, decide_eq_true_eq] at hk
        have hcopied : strlcpy maxTitleId titleId = titleId := by
          have hlen := h.fits k hk.1.1
          rw [hk.2] at hlen
          exact strlcpy_of_length_lt hlen
        refine h.update (fun _ => strlcpy_maxTitleId_length titleId) (fun _ j hj heq => ?_)
        refine h.unique j k hj hk.1.1 ?_
        rw [heq, hk.2]
        exact hcopied
  · exact h

/-- An entry that was kept, perhaps with its timer cancelled, or was cleared. -/
def EntryKept (e e' : Entry) : Prop :=
  e'.valid = true → e.valid = true ∧ e.titleId = e'.titleId ∧
    (e'.missingSinceUs ≠ 0 → e.missingSinceUs = e'.missingSinceUs)

theorem entryKept_zero (e : Entry) : EntryKept e Entry.zero := by
  intro h
  cases h

theorem entryKept_self (e : Entry) : EntryKept e e :=
  fun h => ⟨h, rfl, fun _ => rfl⟩

theorem entryKept_cancel (e : Entry) : EntryKept e { e with missingSinceUs := 0 } :=
  fun h => ⟨h, rfl, fun hrunning => absurd rfl hrunning⟩

theorem entryKept_ensureGameCacheOwningScanRoot (w : World) (e : Entry) :
    EntryKept e (ensureGameCacheOwningScanRoot w e) := by
  unfold ensureGameCacheOwningScanRoot
  split
  · exact entryKept_self e
  · exact fun h => ⟨h, rfl, fun _ => rfl⟩

/-- Changes that keep an entry follow each other. -/
theorem EntryKept.trans {e' e'' : Entry} (h : EntryKept e e') (h' : EntryKept e' e'') :
    EntryKept e e'' := by
  intro hvalid
  obtain ⟨hvalid', htitle', htimer'⟩ := h' hvalid
  obtain ⟨hvalid, htitle, htimer⟩ := h hvalid'
  refine ⟨hvalid, htitle.trans htitle', fun hrunning => ?_⟩
  have heq := htimer' hrunning
  exact (htimer (by rw [heq]; exact hrunning)).trans heq

theorem entryKept_pruneGameCacheEntry (w : World) (root : Option Text) (e : Entry) :
    EntryKept e (pruneGameCacheEntry w root e) := by
  unfold pruneGameCacheEntry
  split
  · exact entryKept_self e
  · cases root with
    | none =>
      simp only [Bool.not_true, Bool.false_eq_true, if_false]
      split
      · exact entryKept_cancel e
      · split
        · exact entryKept_self e
        · exact entryKept_zero e
    | some root =>
      have hroot := entryKept_ensureGameCacheOwningScanRoot w e
      simp only
      generalize pathMatchesRootOrChild _ root = selected
      split
      · exact hroot
      · split
        · exact hroot.trans (entryKept_cancel _)
        · split
          · exact hroot
          · exact entryKept_zero e

theorem entryKept_resetMissingGameCacheTimers (c : Cache n) (k : Fin n) :
    EntryKept (c k) (resetMissingGameCacheTimers c k) := by
  unfold resetMissingGameCacheTimers
  split
  · exact entryKept_self _
  · split
    · exact entryKept_zero _
    · exact entryKept_cancel _

theorem entryKept_clearCachedGame (c : Cache n) (path : Text) (k : Fin n) :
    EntryKept (c k) (clearCachedGame c path k) := by
  unfold clearCachedGame
  split
  · exact entryKept_zero _
  · exact entryKept_self _

/-! ## The invariant of a run -/

/-- Every running timer is justified by the history. -/
def TimersJustified (h : History (State n m t) Step) (c : Cache n) : Prop :=
  ∀ k, (c k).valid → (c k).missingSinceUs ≠ 0 →
    TimerJustified h (c k).titleId (c k).missingSinceUs

/-- A justified timer stays justified by a step that is no reconcile past a
source of its title. -/
theorem TimerJustified.cons {h : History (State n m t) Step} {since : Nat}
    (hjustified : TimerJustified h titleId since) {r : State n m t × Step}
    (hr : SawNoSource titleId r) : TimerJustified (r :: h) titleId since := by
  obtain ⟨newer, s₀, w₀, older, hsplit, hstarted, hsince, hseen⟩ := hjustified
  refine ⟨r :: newer, s₀, w₀, older, by rw [hsplit]; rfl, hstarted, hsince, ?_⟩
  intro r' hr'
  rcases List.mem_cons.mp hr' with heq | hin
  · rw [heq]
    exact hr
  · exact hseen r' hin

theorem TimersJustified.of_timersKept {h : History (State n m t) Step} {c' : Cache n}
    (hjustified : TimersJustified h c) (hkept : TimersKept c c') {s : State n m t} {i : Step}
    (hi : ∀ w, i ≠ .reconcile w) : TimersJustified ((s, i) :: h) c' := by
  intro k hk hrunning
  obtain ⟨hvalid, htitle, htimer⟩ := hkept k hk hrunning
  have hold := hjustified k hvalid (by rw [htimer]; exact hrunning)
  rw [htitle, htimer] at hold
  exact hold.cons (fun w hw => absurd hw (hi w))

/-- The timers behind a reconcile are justified. -/
theorem timersAfter_justified {h : History (State n m t) Step} {s : State n m t} {w : World}
    {titles : AppDbTitleList} (htitled : WellTitled s.cache)
    (hjustified : TimersJustified h s.cache) (hcond : StepCondition s (.reconcile w))
    (hlist : reconciledTitles w = some titles) (k : Fin n)
    (hk : (timersAfter s w titles k).valid = true)
    (hrunning : (timersAfter s w titles k).missingSinceUs ≠ 0) :
    NoSource s w (timersAfter s w titles k).titleId ∧
      TimerJustified ((s, .reconcile w) :: h) (timersAfter s w titles k).titleId
        (timersAfter s w titles k).missingSinceUs := by
  obtain ⟨-, htimers⟩ := reconcileMissingGameCache_spec htitled hcond.1 hcond.2 hlist
  obtain ⟨hsource, hold | ⟨hnow, hstarted⟩⟩ := htimers k hk hrunning
  · obtain ⟨hvalid, htitle, htimer⟩ := hold
    have hbefore := hjustified k hvalid (by rw [htimer]; exact hrunning)
    rw [htitle, htimer] at hbefore
    refine ⟨hsource, hbefore.cons (fun w' hw' => ?_)⟩
    cases hw'
    exact hsource
  · refine ⟨hsource, [], s, w, h, rfl, hstarted, hnow.symm, fun r hr => ?_⟩
    rw [List.nil_append, List.mem_singleton] at hr
    subst hr
    intro w' hw'
    cases hw'
    exact hsource

theorem next_reconcile_cache {s : State n m t} {w : World} {titles : AppDbTitleList}
    (hlist : reconciledTitles w = some titles) :
    (next s (.reconcile w)).cache =
        (removeExpired w (w.autoRemoveMissingDelaySeconds * 1000000) titles (n + 1)
          (timersAfter s w titles)).1 ∧
      uninstallRequests s w =
        (removeExpired w (w.autoRemoveMissingDelaySeconds * 1000000) titles (n + 1)
          (timersAfter s w titles)).2 := by
  unfold reconciledTitles at hlist
  split at hlist
  · rename_i hon
    simp [next, uninstallRequests, reconcileMissingAppDbGames, hon, hlist, timersAfter]
  · cases hlist

/-- Without a list of titles nothing is removed. -/
theorem next_reconcile_early {s : State n m t} {w : World} (hlist : reconciledTitles w = none) :
    (next s (.reconcile w)).cache = s.cache ∧ uninstallRequests s w = [] := by
  unfold reconciledTitles at hlist
  split at hlist
  · rename_i hon
    simp [next, uninstallRequests, reconcileMissingAppDbGames, hon, hlist]
  · rename_i hoff
    simp [next, uninstallRequests, reconcileMissingAppDbGames, hoff]

/-- A reconcile keeps the invariant. -/
theorem reconcile_invariant {h : History (State n m t) Step} {s : State n m t} {w : World}
    (htitled : WellTitled s.cache) (hjustified : TimersJustified h s.cache)
    (hcond : StepCondition s (.reconcile w)) :
    WellTitled (next s (.reconcile w)).cache ∧
      TimersJustified ((s, .reconcile w) :: h) (next s (.reconcile w)).cache := by
  cases hlist : reconciledTitles w with
  | none =>
    rw [(next_reconcile_early hlist).1]
    refine ⟨htitled, fun k hk hrunning => ?_⟩
    obtain ⟨titles, hlist', -⟩ := hcond.1 k hk hrunning
    rw [hlist] at hlist'
    cases hlist'
  | some titles =>
    rw [(next_reconcile_cache hlist).1]
    -- a slot the removal loop did not clear is as the two loops before left it
    have hslot : ∀ k, ((removeExpired w (w.autoRemoveMissingDelaySeconds * 1000000) titles
        (n + 1) (timersAfter s w titles)).1 k).valid = true →
        (removeExpired w (w.autoRemoveMissingDelaySeconds * 1000000) titles (n + 1)
          (timersAfter s w titles)).1 k = timersAfter s w titles k := by
      intro k hk
      rcases removeExpired_slot w (w.autoRemoveMissingDelaySeconds * 1000000) titles (n + 1)
        (timersAfter s w titles) k with hsame | hzero
      · exact hsame
      · rw [hzero] at hk
        cases hk
    constructor
    · obtain ⟨hafter, -⟩ := reconcileMissingGameCache_spec htitled hcond.1 hcond.2 hlist
      refine hafter.of_titlesKept (fun k hk => ?_)
      have heq := hslot k hk
      rw [heq] at hk ⊢
      exact ⟨hk, rfl⟩
    · intro k hk hrunning
      have heq := hslot k hk
      rw [heq] at hk hrunning ⊢
      exact (timersAfter_justified htitled hjustified hcond hlist k hk hrunning).2

/-- In every run whose steps meet the condition, no title has two entries and
every running timer is justified. -/
theorem run_timersJustified {h : History (State n m t) Step} {s : State n m t}
    (htrace : Trace (autoRemoveSystem.restrict StepCondition) h s) :
    WellTitled s.cache ∧ TimersJustified h s.cache := by
  revert h s
  refine @Trace.historyInvariant _ _ _ (fun h s => WellTitled s.cache ∧ TimersJustified h s.cache)
    ?_ ?_
  · rintro s ⟨hempty, -⟩
    have hfree : ∀ k, (s.cache k).valid = true → False := by
      intro k hk
      rw [hempty] at hk
      cases hk
    exact ⟨⟨fun j _ hj => (hfree j hj).elim, fun k hk => (hfree k hk).elim⟩,
      fun k hk => (hfree k hk).elim⟩
  · rintro h s i s' - ⟨htitled, hjustified⟩ ⟨rfl, hcond⟩
    -- a step that rewrites every slot by itself
    have hslots : ∀ c' : Cache n, (∀ k, EntryKept (s.cache k) (c' k)) →
        (∀ w, i ≠ .reconcile w) → WellTitled c' ∧ TimersJustified ((s, i) :: h) c' := by
      intro c' hkept hi
      refine ⟨htitled.of_titlesKept (fun k hk => ?_),
        hjustified.of_timersKept (fun k hk hrunning => ?_) hi⟩
      · obtain ⟨hvalid, htitle, -⟩ := hkept k hk
        exact ⟨hvalid, htitle⟩
      · obtain ⟨hvalid, htitle, htimer⟩ := hkept k hk
        exact ⟨hvalid, htitle, htimer hrunning⟩
    cases i with
    | cacheGameEntry w path titleId titleName =>
      exact ⟨cacheGameEntry_titled htitled hcond, hjustified.of_timersKept
        (cacheGameEntry_timersKept w s.cache path titleId titleName) (by simp)⟩
    | noteSourceSeen w path titleId titleName =>
      exact ⟨noteGameCacheSourceSeen_titled htitled, hjustified.of_timersKept
        (noteGameCacheSourceSeen_timersKept w s.cache path titleId titleName) (by simp)⟩
    | prune w root =>
      exact hslots _ (fun k => entryKept_pruneGameCacheEntry w _ (s.cache k)) (by simp)
    | clearCachedGame path =>
      exact hslots _ (entryKept_clearCachedGame s.cache path) (by simp)
    | resetTimers =>
      exact hslots _ (entryKept_resetMissingGameCacheTimers s.cache) (by simp)
    | reconcile w => exact reconcile_invariant htitled hjustified hcond
    | indexBeginScan | indexRecordGame | indexCompleteScan | indexFlush | indexPrune =>
      exact hslots _ (fun k => entryKept_self (s.cache k)) (by simp)

/-! ## Uninstall requests -/

/-- In every run whose steps meet the condition, every uninstall request is
justified. -/
theorem removal_justified {h : History (State n m t) Step} {s : State n m t}
    (htrace : Trace (autoRemoveSystem.restrict StepCondition) h s) {w : World}
    (hcond : StepCondition s (.reconcile w)) {titleId : Text}
    (hrequest : titleId ∈ uninstallRequests s w) : RemovalJustified h s w titleId := by
  obtain ⟨htitled, hjustified⟩ := run_timersJustified htrace
  cases hlist : reconciledTitles w with
  | none =>
    rw [(next_reconcile_early hlist).2] at hrequest
    cases hrequest
  | some titles =>
    have hread : w.autoRemoveTitles = some titles := by
      unfold reconciledTitles at hlist
      split at hlist
      · exact hlist
      · cases hlist
    rw [(next_reconcile_cache hlist).2] at hrequest
    obtain ⟨hlisted, hprotected, hdlc, k, htitle, hexpired⟩ := removeExpired_request hrequest
    simp only [missingTimerExpired, Bool.and_eq_true, decide_eq_true_eq] at hexpired
    obtain ⟨⟨⟨hvalid, hrunning⟩, hpast⟩, hdelay⟩ := hexpired
    obtain ⟨hsource, htimer⟩ := timersAfter_justified htitled hjustified hcond hlist k hvalid
      hrunning
    rw [htitle] at hsource htimer
    exact ⟨⟨titles, hread, hlisted⟩, hprotected, hdlc, hsource,
      (timersAfter s w titles k).missingSinceUs, hpast, hdelay, htimer⟩

/-! ## A run that meets the condition and one that does not -/

/-- A world without images, DLC or protected titles, in which the given
directories exist and the delay is a minute. -/
def observed (present : List Text) (titles : Option AppDbTitleList) (now : Nat) : World where
  stat path := if path ∈ present then .found ⟨true, false, 1, 0, 0, 0, 0, 0⟩ else .missing
  configStat := .missing
  profilesStat := .missing
  outermostImage _ := none
  saveSucceeds := true
  mountImageLink _ := none
  imageSource _ := none
  scanPaths := []
  shellcoreProtected _ := false
  autoRemoveMissingGames := true
  autoRemoveGamesWithDlc := true
  autoRemoveMissingDelaySeconds := 60
  now := now
  autoRemoveTitles := titles

/-- A title list with one title. -/
def oneTitle : AppDbTitleList where
  ids := ["PPSA00002".toList]
  nodup := by decide
  named := by decide
  fits := by decide

/-- The program start without an index file. -/
def startState (n m t : Nat) : State n m t where
  cache := fun _ => Entry.zero
  index := ImageIndex.Index.initial none

/-- A reconcile observes every timer when all running ones are of listed titles
that ShellCore does not protect. -/
theorem timersObserved_of_listed {s : State n m t} {w : World} {titles : AppDbTitleList}
    (hlist : reconciledTitles w = some titles)
    (hopen : ∀ titleId ∈ titles.ids, w.shellcoreProtected titleId = false)
    (hlisted : ∀ k, (s.cache k).valid = true → (s.cache k).missingSinceUs ≠ 0 →
      (s.cache k).titleId ∈ titles.ids) : TimersObserved s w := by
  intro k hk hrunning
  have hmem := hlisted k hk hrunning
  exact ⟨titles, hlist, hopen _ hmem, .inl hmem⟩

theorem startState_init : autoRemoveSystem.init (startState n m t) :=
  ⟨rfl, none, rfl⟩

/-- A game is recorded, then its directory is missing at a reconcile. -/
def missingRun : List Step :=
  [.cacheGameEntry (observed ["/data/b".toList] none 0) "/data/b".toList "PPSA00002".toList [],
   .reconcile (observed [] (some oneTitle) 1000000)]

/-- A minute later the game is uninstalled, and the request is justified. -/
theorem removal_justified_missing_for_a_minute :
    ∃ h, Trace (autoRemoveSystem.restrict StepCondition) h
        (missingRun.foldl next (startState 2 1 1)) ∧
      RemovalJustified h (missingRun.foldl next (startState 2 1 1))
        (observed [] (some oneTitle) 62000000) "PPSA00002".toList := by
  have hstart : Trace (autoRemoveSystem.restrict StepCondition) [] (startState 2 1 1) :=
    .start startState_init
  have hempty (path titleId : Text) : KeepsTitlesApart (startState 2 1 1).cache path titleId :=
    ⟨fun i _ hi => (by cases hi), fun _ j hj => (by cases hj)⟩
  have hrecord := hstart.step (i := missingRun[0]) ⟨rfl, hempty _ _⟩
  have hmissing := hrecord.step (i := missingRun[1]) ⟨rfl,
    timersObserved_of_listed (w := observed [] (some oneTitle) 1000000) rfl (fun _ _ => rfl)
      (by decide),
    nofun⟩
  have hobserved : TimersObserved (missingRun.foldl next (startState 2 1 1))
      (observed [] (some oneTitle) 62000000) :=
    timersObserved_of_listed rfl (fun _ _ => rfl) (by decide)
  have hfirst : FirstRecordDecides (missingRun.foldl next (startState 2 1 1))
      (observed [] (some oneTitle) 62000000) := nofun
  have hrequest : "PPSA00002".toList ∈ uninstallRequests (missingRun.foldl next (startState 2 1 1))
      (observed [] (some oneTitle) 62000000) := by decide
  exact ⟨_, hmissing, removal_justified hmissing ⟨hobserved, hfirst⟩ hrequest⟩

/-- A second game takes the place of a first one whose directory exists, and its
own directory goes missing in between. -/
def retitledRun : List Step :=
  [.cacheGameEntry (observed ["/data/a".toList] none 0) "/data/a".toList "PPSA00001".toList [],
   .cacheGameEntry (observed ["/data/a".toList] none 0) "/data/b".toList "PPSA00002".toList [],
   .reconcile (observed ["/data/a".toList] (some oneTitle) 1000000),
   .cacheGameEntry (observed ["/data/a".toList] none 0) "/data/a".toList "PPSA00002".toList []]

set_option maxRecDepth 100000 in
/-- The second game is uninstalled although its directory exists: the timer of its
old entry is never cancelled. -/
theorem removal_unjustified_after_retitled_path :
    ¬∀ (h : History (State maxPending maxImageMounts maxImageTitles) Step)
        (s : State maxPending maxImageMounts maxImageTitles) (w : World) (titleId : Text),
      Trace autoRemoveSystem h s → titleId ∈ uninstallRequests s w →
        RemovalJustified h s w titleId := by
  intro hclaim
  have hstart : Trace autoRemoveSystem [] (startState maxPending maxImageMounts maxImageTitles) :=
    .start startState_init
  have h₁ := hstart.step (i := retitledRun[0]) rfl
  have h₂ := h₁.step (i := retitledRun[1]) rfl
  have h₃ := h₂.step (i := retitledRun[2]) rfl
  have h₄ := h₃.step (i := retitledRun[3]) rfl
  -- the first slot has the title, and its directory exists
  have hrun : "PPSA00002".toList ∈ uninstallRequests
        (retitledRun.foldl next (startState maxPending maxImageMounts maxImageTitles))
        (observed ["/data/a".toList] (some oneTitle) 62000000) ∧
      ((retitledRun.foldl next (startState maxPending maxImageMounts maxImageTitles)).cache
        ⟨0, by decide⟩).valid = true ∧
      ((retitledRun.foldl next (startState maxPending maxImageMounts maxImageTitles)).cache
        ⟨0, by decide⟩).titleId = "PPSA00002".toList ∧
      gameCacheSourceExists (observed ["/data/a".toList] (some oneTitle) 62000000)
        ((retitledRun.foldl next (startState maxPending maxImageMounts maxImageTitles)).cache
          ⟨0, by decide⟩) = true := by
    decide +kernel
  obtain ⟨hrequest, hvalid, htitle, hsource⟩ := hrun
  obtain ⟨-, -, -, ⟨hcached, -⟩, -⟩ := hclaim _ _ _ _ h₄ hrequest
  exact absurd (hsource.symm.trans (hcached _ hvalid htitle)) (by decide)

end ShadowMount.GameCache
