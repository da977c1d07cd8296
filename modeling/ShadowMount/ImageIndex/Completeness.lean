import ShadowMount.Foundation.Transition
import ShadowMount.ImageIndex.Entries

/-!
# Image index - what a complete entry contains

A scan of an image begins an entry, records the titles it finds, and marks the entry
complete.  Flushing and pruning come at the boundaries of a scan cycle; they compare
the configuration with its stamp and may discard the whole index.  Recording a game of
an image without an entry begins one itself, so a title is in the entry only if it was
recorded since the entry was begun, by the scan or by a recording.

Main results:

- Theorem {lit}`complete_entries_faithful`: over every run, records refer to valid
  entries, and entries hold the titles and the stamp of their latest begin.
- Theorem {lit}`complete_entry_misses_title`: they need not hold every title since the
  latest scan began.
-/

namespace ShadowMount.ImageIndex

open Foundation

variable {m t : Nat}
variable {x y : Index m t} {i : Fin m} {path gamePath titleId : Text} {st : Stat} {w : World}

/-- One public operation, with its arguments and what it observes.  The readers only
load the index. -/
inductive Step where
  | beginScan (w : World) (path : Text) (st : Stat)
  | recordGame (w : World) (gamePath titleId : Text)
  | completeScan (w : World) (path : Text)
  | flush (w : World)
  | prune (w : World)
  | read (w : World)

/-- The paths of images come from buffers of `MAX_PATH` bytes, and title ids from
buffers of `MAX_TITLE_ID` bytes. -/
def Step.Fits : Step → Prop
  | .beginScan _ path _ => path.length < maxPath
  | .recordGame w gamePath titleId => titleId.length < maxTitleId ∧
      ∀ path, w.outermostImage gamePath = some path → path.length < maxPath
  | _ => True

def next (x : Index m t) : Step → Index m t
  | .beginScan w path st => beginScan w x path st
  | .recordGame w gamePath titleId => (recordGame w x gamePath titleId).1
  | .completeScan w path => completeScan w x path
  | .flush w => flush w x
  | .prune w => prune w x
  | .read w => loadIndex w x

/-- The index under every sequence of operations, over any index file. -/
def scanSystem : System (Index m t) Step where
  init x := ∃ saved, x = Index.initial saved
  step x i y := i.Fits ∧ y = next x i

/-- The stamp of the entry that an operation begins for an image: that of a scan, or
that of an image found without an entry when a game of it is recorded. -/
def begun (x : Index m t) (path : Text) : Step → Option Stat
  | .beginScan _ p st => if p = path then some st else none
  | .recordGame w gamePath _ =>
    if w.outermostImage gamePath = some path ∧ findEntry (loadIndex w x) path = none then
      match w.stat path with
      | .found st => some st
      | _ => none
    else none
  | _ => none

/-- The title that an operation records for an image. -/
def recorded (x : Index m t) (path : Text) : Step → Option Text
  | .recordGame w gamePath titleId =>
    if w.outermostImage gamePath = some path ∧ (recordGame w x gamePath titleId).2 then
      some titleId
    else none
  | _ => none

/-- The stamp of the latest begin of an image. -/
def lastBegun (h : History (Index m t) Step) (path : Text) : Option Stat :=
  h.findSome? fun r => begun r.1 path r.2

/-- The titles recorded for an image since its latest begin, the one that begins it
included. -/
def recordedSince : History (Index m t) Step → Text → List Text
  | [], _ => []
  | r :: h, path =>
    (recorded r.1 path r.2).toList ++
      match begun r.1 path r.2 with
      | some _ => []
      | none => recordedSince h path

/-- The invariant of a run with its history. -/
structure Faithful (h : History (Index m t) Step) (x : Index m t) : Prop where
  refers : TitlesReferToEntries x
  holds : ∀ path i, findEntry x path = some i →
    ∀ titleId ∈ recordedSince h path, Contains x i titleId
  stamped : ∀ path i, findEntry x path = some i →
    ∀ st, lastBegun h path = some st → stampMatches (x.entries i) st = true
  fresh : x.loaded = false → h = []

theorem Faithful.load {h : History (Index m t) Step} (hx : Faithful h x) (w : World) :
    Faithful h (loadIndex w x) := by
  have hloaded := loadIndex_loaded w x
  cases hbefore : x.loaded with
  | true =>
    have hsame : loadIndex w x = x := by simp [loadIndex, hbefore]
    rw [hsame]
    exact hx
  | false =>
    have hempty := hx.fresh hbefore
    subst hempty
    refine ⟨hx.refers.load w, ?_, ?_, fun _ => rfl⟩
    · intro path i _ titleId hmem
      cases hmem
    · intro path i _ st hst
      cases hst

theorem Faithful.cons {h : History (Index m t) Step} {i : Step} (hrefers : TitlesReferToEntries y)
    (hloaded : y.loaded = true) (hrecorded : ∀ path k, findEntry y path = some k → ∀ titleId,
      recorded x path i = some titleId → Contains y k titleId)
    (hbegun : ∀ path k, findEntry y path = some k → ∀ st, begun x path i = some st →
      stampMatches (y.entries k) st = true)
    (hholds : ∀ path k, findEntry y path = some k → begun x path i = none →
      ∀ titleId ∈ recordedSince h path, Contains y k titleId)
    (hstamped : ∀ path k, findEntry y path = some k → begun x path i = none →
      ∀ st, lastBegun h path = some st → stampMatches (y.entries k) st = true) :
    Faithful ((x, i) :: h) y := by
  refine ⟨hrefers, ?_, ?_, ?_⟩
  · intro path k hk titleId hmem
    rw [recordedSince, List.mem_append] at hmem
    rcases hmem with hnew | hold
    · exact hrecorded path k hk titleId (by simpa using hnew)
    · split at hold
      · cases hold
      · rename_i hnone
        exact hholds path k hk hnone titleId hold
  · intro path k hk st hst
    rw [lastBegun, List.findSome?_cons] at hst
    split at hst
    · rename_i hsome
      rw [hst] at hsome
      exact hbegun path k hk st hsome
    · rename_i hnone
      exact hstamped path k hk hnone st hst
  · intro hunloaded
    rw [hloaded] at hunloaded
    cases hunloaded

theorem Faithful.kept {h : History (Index m t) Step} {x z y : Index m t} {i : Step}
    (hz : Faithful h z) (hkept : Kept z y) (hloaded : z.loaded = true)
    (hbegun : ∀ path, begun x path i = none) (hrecorded : ∀ path, recorded x path i = none) :
    Faithful ((x, i) :: h) y := by
  refine Faithful.cons (hkept.refers hz.refers) (hkept.loaded.trans hloaded) ?_ ?_ ?_ ?_
  · intro path k _ titleId hsome
    rw [hrecorded] at hsome
    cases hsome
  · intro path k _ st hsome
    rw [hbegun] at hsome
    cases hsome
  · intro path k hk _ titleId hmem
    exact hkept.holds path k hk titleId (hz.holds path k (hkept.found path k hk) titleId hmem)
  · intro path k hk _ st hst
    exact hkept.stamped path k hk st (hz.stamped path k (hkept.found path k hk) st hst)

theorem Begins.holds_other (hm : m ≤ 2 ^ 16) {q : Text} {k : Fin m} (h : Begins x y path st i)
    (hq : q ≠ path) (hk : findEntry y q = some k) :
    findEntry x q = some k ∧ y.entries k = x.entries k ∧
      ∀ titleId, Contains x k titleId → Contains y k titleId := by
  have hki : k ≠ i := by
    rintro rfl
    exact hq ((findEntry_eq_some hk).2.symm.trans (findEntry_eq_some h.found).2)
  refine ⟨(h.others q hq).symm.trans hk, h.entries k hki, fun titleId hx => ?_⟩
  have hcleared := hx.clearEntryTitles hm hki
  simpa only [Contains, h.titles] using hcleared

theorem Begins.refers (hm : m ≤ 2 ^ 16) (h : Begins x y path st i) (hx : TitlesReferToEntries x) :
    TitlesReferToEntries y :=
  hx.clear hm h.titles h.entries

/-- A scan begins. -/
theorem Faithful.beginScan (hm : m ≤ 2 ^ 16) {h : History (Index m t) Step} (hx : Faithful h x)
    (hfits : path.length < maxPath) :
    Faithful ((x, .beginScan w path st) :: h) (beginScan w x path st) := by
  have hz := hx.load w
  have hloaded := loadIndex_loaded w x
  rcases beginScanLocked_spec (loadIndex w x) hfits st with ⟨hsame, hnone⟩ | ⟨i, hbegins⟩
  · -- the table is full, and the image has no entry
    rw [ImageIndex.beginScan, hsame]
    refine Faithful.cons hz.refers hloaded nofun ?_ ?_ ?_
    · intro q k hk st' hbegun
      simp only [begun] at hbegun
      split at hbegun
      · rename_i hpath
        rw [← hpath, hnone] at hk
        cases hk
      · cases hbegun
    · intro q k hk _
      exact hz.holds q k hk
    · intro q k hk _
      exact hz.stamped q k hk
  · refine Faithful.cons (hbegins.refers hm hz.refers) (hbegins.loaded.trans hloaded)
      nofun ?_ ?_ ?_
    · intro q k hk st' hbegun
      simp only [begun] at hbegun
      split at hbegun
      · rename_i hpath
        subst hpath
        cases hbegun
        have hki : k = i := Option.some.inj (hk.symm.trans hbegins.found)
        rw [hki]
        exact hbegins.stamped
      · cases hbegun
    · intro q k hk hother titleId hmem
      have hq : q ≠ path := by
        rintro rfl
        simp [begun] at hother
      obtain ⟨hfound, -, hholds⟩ := hbegins.holds_other hm hq hk
      exact hholds titleId (hz.holds q k hfound titleId hmem)
    · intro q k hk hother st' hst
      have hq : q ≠ path := by
        rintro rfl
        simp [begun] at hother
      obtain ⟨hfound, hentry, -⟩ := hbegins.holds_other hm hq hk
      rw [ImageIndex.beginScan, hentry]
      exact hz.stamped q k hfound st' hst

theorem Faithful.recordKnown {h : History (Index m t) Step} {imagePath : Text} (hx : Faithful h x)
    (himage : w.outermostImage gamePath = some imagePath)
    (hfound : findEntry (loadIndex w x) imagePath = some i)
    (hstores : Stores (loadIndex w x) y i titleId (recordGame w x gamePath titleId).2) :
    Faithful ((x, .recordGame w gamePath titleId) :: h) y := by
  have hz := hx.load w
  have hnone : ∀ path, begun x path (.recordGame w gamePath titleId) = none := by
    intro path
    simp only [begun]
    rw [if_neg]
    rintro ⟨hpath, hmissing⟩
    rw [himage] at hpath
    cases hpath
    rw [hfound] at hmissing
    cases hmissing
  refine Faithful.cons (hstores.refers hz.refers)
    (hstores.loaded.trans (loadIndex_loaded w x)) ?_ ?_ ?_ ?_
  · intro path k hk u hrecorded
    simp only [recorded] at hrecorded
    split at hrecorded
    · rename_i hresult
      cases hrecorded
      rw [himage] at hresult
      have hpath : imagePath = path := Option.some.inj hresult.1
      rw [hstores.found, ← hpath, hfound] at hk
      cases hk
      exact hstores.stores hresult.2
    · cases hrecorded
  · intro path k _ st hbegun
    rw [hnone] at hbegun
    cases hbegun
  · intro path k hk _ u hmem
    rw [hstores.found] at hk
    exact hstores.holds k u (hz.holds path k hk u hmem)
  · intro path k hk _ st hst
    rw [hstores.found] at hk
    rw [hstores.entries]
    exact hz.stamped path k hk st hst

/-- The first game of an image is recorded. -/
theorem Faithful.recordNew (hm : m ≤ 2 ^ 16) {h : History (Index m t) Step} {z : Index m t}
    {imagePath : Text} (hx : Faithful h x) (himage : w.outermostImage gamePath = some imagePath)
    (hmissing : findEntry (loadIndex w x) imagePath = none) (hstat : w.stat imagePath = .found st)
    (hbegins : Begins (loadIndex w x) z imagePath st i)
    (hstores : Stores z y i titleId (recordGame w x gamePath titleId).2) :
    Faithful ((x, .recordGame w gamePath titleId) :: h) y := by
  have hloaded := loadIndex_loaded w x
  have hload := hx.load w
  have hbegun : begun x imagePath (.recordGame w gamePath titleId) = some st := by
    simp [begun, himage, hmissing, hstat]
  have hother : ∀ path, begun x path (.recordGame w gamePath titleId) = none →
      path ≠ imagePath := by
    rintro path hnone rfl
    rw [hbegun] at hnone
    cases hnone
  refine Faithful.cons (hstores.refers (hbegins.refers hm hload.refers))
    (hstores.loaded.trans (hbegins.loaded.trans hloaded)) ?_ ?_ ?_ ?_
  · intro path k hk u hrecorded
    simp only [recorded] at hrecorded
    split at hrecorded
    · rename_i hresult
      cases hrecorded
      rw [himage] at hresult
      have hpath : imagePath = path := Option.some.inj hresult.1
      rw [hstores.found, ← hpath, hbegins.found] at hk
      cases hk
      exact hstores.stores hresult.2
    · cases hrecorded
  · intro path k hk st' hst'
    have hpath : path = imagePath := by
      by_contra hne
      have hnone : begun x path (.recordGame w gamePath titleId) = none := by
        simp only [begun, himage, Option.some.injEq]
        rw [if_neg]
        rintro ⟨hsame, -⟩
        exact hne hsame.symm
      rw [hnone] at hst'
      cases hst'
    subst hpath
    rw [hbegun] at hst'
    cases hst'
    rw [hstores.found, hbegins.found] at hk
    cases hk
    rw [hstores.entries]
    exact hbegins.stamped
  · intro path k hk hnone u hmem
    rw [hstores.found] at hk
    obtain ⟨hfound, -, hholds⟩ := hbegins.holds_other hm (hother path hnone) hk
    exact hstores.holds k u (hholds u (hload.holds path k hfound u hmem))
  · intro path k hk hnone st' hst
    rw [hstores.found] at hk
    obtain ⟨hfound, hentry, -⟩ := hbegins.holds_other hm (hother path hnone) hk
    rw [hstores.entries, hentry]
    exact hload.stamped path k hfound st' hst

theorem Faithful.recordFailed {h : History (Index m t) Step} (hx : Faithful h x)
    (hresult : recordGame w x gamePath titleId = (loadIndex w x, false)) :
    Faithful ((x, .recordGame w gamePath titleId) :: h) (loadIndex w x) := by
  have hload := hx.load w
  refine Faithful.cons hload.refers (loadIndex_loaded w x) ?_ ?_ ?_ ?_
  · intro path k _ u hrecorded
    simp [recorded, hresult] at hrecorded
  · intro path k hk st hbegun
    simp only [begun] at hbegun
    split at hbegun
    · rename_i hpath
      rw [hpath.2] at hk
      cases hk
    · cases hbegun
  · exact fun path k hk _ => hload.holds path k hk
  · exact fun path k hk _ => hload.stamped path k hk

/-- A game is recorded with its image. -/
theorem Faithful.recordGame (hm : m ≤ 2 ^ 16) {h : History (Index m t) Step} (hx : Faithful h x)
    (hfits : titleId.length < maxTitleId)
    (himages : ∀ path, w.outermostImage gamePath = some path → path.length < maxPath) :
    Faithful ((x, .recordGame w gamePath titleId) :: h)
      (recordGame w x gamePath titleId).1 := by
  cases himage : w.outermostImage gamePath with
  | none =>
    have hresult : ImageIndex.recordGame w x gamePath titleId = (loadIndex w x, true) := by
      simp only [ImageIndex.recordGame, himage]
    rw [hresult]
    refine (hx.load w).kept (Kept.refl _) (loadIndex_loaded w x) ?_ ?_
    · intro path
      simp [begun, himage]
    · intro path
      simp [recorded, himage]
  | some imagePath =>
    cases hfound : findEntry (loadIndex w x) imagePath with
    | some i =>
      have hresult : ImageIndex.recordGame w x gamePath titleId =
          recordTitle (loadIndex w x) i titleId := by
        simp only [ImageIndex.recordGame, himage, hfound]
      have hstores := recordTitle_spec hm (loadIndex w x) (findEntry_eq_some hfound).1 hfits
      rw [← hresult] at hstores
      exact hx.recordKnown himage hfound hstores
    | none =>
      cases hstat : w.stat imagePath with
      | found st =>
        rcases beginScanLocked_spec (loadIndex w x) (himages imagePath himage) st with
          ⟨hfull, -⟩ | ⟨i, hbegins⟩
        · have hresult : ImageIndex.recordGame w x gamePath titleId =
              (loadIndex w x, false) := by
            simp only [ImageIndex.recordGame, himage, hfound, hstat, hfull]
          rw [hresult]
          exact hx.recordFailed hresult
        · have hresult : ImageIndex.recordGame w x gamePath titleId =
              recordTitle (beginScanLocked (loadIndex w x) imagePath st) i titleId := by
            simp only [ImageIndex.recordGame, himage, hfound, hstat, hbegins.found]
          have hstores := recordTitle_spec hm
            (beginScanLocked (loadIndex w x) imagePath st)
            (findEntry_eq_some hbegins.found).1 hfits
          rw [← hresult] at hstores
          exact hx.recordNew hm himage hfound hstat hbegins hstores
      | missing | notDirectory | failed =>
        all_goals
          have hresult : ImageIndex.recordGame w x gamePath titleId =
              (loadIndex w x, false) := by
            simp only [ImageIndex.recordGame, himage, hfound, hstat]
          rw [hresult]
          exact hx.recordFailed hresult

theorem faithful_initial (saved : Option (SavedIndex m t)) :
    Faithful [] (Index.initial saved) where
  refers := nofun
  holds := fun path i hfound => by
    rw [findEntry_of_cleared (fun _ => rfl) path] at hfound
    cases hfound
  stamped := fun path i hfound => by
    rw [findEntry_of_cleared (fun _ => rfl) path] at hfound
    cases hfound
  fresh := fun _ => rfl

/-- One operation keeps the invariant. -/
theorem Faithful.next (hm : m ≤ 2 ^ 16) {h : History (Index m t) Step} (hx : Faithful h x)
    {i : Step} (hfits : i.Fits) : Faithful ((x, i) :: h) (next x i) := by
  cases i with
  | beginScan w path st => exact hx.beginScan hm hfits
  | recordGame w gamePath titleId => exact hx.recordGame hm hfits.1 hfits.2
  | completeScan w path =>
    exact (hx.load w).kept (kept_completeScan w x path) (loadIndex_loaded w x)
      (fun _ => rfl) (fun _ => rfl)
  | flush w =>
    exact (hx.load w).kept (kept_flush w x) (loadIndex_loaded w x) (fun _ => rfl) (fun _ => rfl)
  | prune w =>
    exact (hx.load w).kept (kept_prune hm w x) (loadIndex_loaded w x) (fun _ => rfl)
      (fun _ => rfl)
  | read w =>
    exact (hx.load w).kept (Kept.refl _) (loadIndex_loaded w x) (fun _ => rfl) (fun _ => rfl)

theorem visitReadyTitles_eq_some {v : TitleView} {titles : List Text}
    (h : visitReadyTitles v x path st = some titles) :
    ∃ i, findEntry x path = some i ∧ stampMatches (x.entries i) st = true := by
  unfold visitReadyTitles at h
  split at h
  · cases h
  · rename_i i hfound
    split at h
    · rename_i hchecks
      simp only [Bool.and_eq_true] at hchecks
      exact ⟨i, hfound, hchecks.1.1.2⟩
    · cases h

/-- Over every interleaving of the operations, over any index file and whatever the
configuration stamps do: every valid title record refers to a valid entry; an entry
marked complete holds every title recorded for its image since the entry was begun, by a
scan or by a recording that found the image without an entry; and an image reported
ready has the stamp of that begin. -/
theorem complete_entries_faithful {h : History (Index maxImageMounts maxImageTitles) Step}
    {x : Index maxImageMounts maxImageTitles} (hrun : Trace scanSystem h x) :
    TitlesReferToEntries x ∧
      (∀ path i, findEntry x path = some i → (x.entries i).complete = true →
        ∀ titleId ∈ recordedSince h path, Contains x i titleId) ∧
      (∀ v path st titles, visitReadyTitles v x path st = some titles →
        ∀ st₀, lastBegun h path = some st₀ → ∃ i, findEntry x path = some i ∧
          stampMatches (x.entries i) st = true ∧ stampMatches (x.entries i) st₀ = true) := by
  have hm : maxImageMounts ≤ 2 ^ 16 := by simp [maxImageMounts]
  have hfaithful : Faithful h x := by
    refine Trace.historyInvariant ?_ ?_ hrun
    · rintro x ⟨saved, rfl⟩
      exact faithful_initial saved
    · rintro h x i y - hx ⟨hfits, rfl⟩
      exact hx.next hm hfits
  refine ⟨hfaithful.refers, fun path i hfound _ => hfaithful.holds path i hfound, ?_⟩
  intro v path st titles hready st₀ hst₀
  obtain ⟨i, hfound, hstamp⟩ := visitReadyTitles_eq_some hready
  exact ⟨i, hfound, hstamp, hfaithful.stamped path i hfound st₀ hst₀⟩

/-- The image that the example scans. -/
def scannedImage : Text := "/data/games.exfat".toList

/-- What an operation observes: one image under the mount base, and a configuration
file with the given inode. -/
def observed (configInode : Nat) : World where
  stat _ := .found ⟨false, true, 1, 100, 0, 0, 0, 0⟩
  configStat := .found ⟨false, true, configInode, 10, 0, 0, 0, 0⟩
  profilesStat := .missing
  outermostImage _ := some scannedImage
  saveSucceeds := true

/-- A scan of an image that the configuration interrupts: the index is discarded after
the first title, and recording the second one begins the entry anew. -/
def interruptedScan : List Step :=
  [.beginScan (observed 1) scannedImage ⟨false, true, 1, 100, 0, 0, 0, 0⟩,
    .recordGame (observed 1) "/mnt/shadowmnt/games/a".toList "PPSA00001".toList,
    .flush (observed 2),
    .recordGame (observed 2) "/mnt/shadowmnt/games/b".toList "PPSA00002".toList,
    .completeScan (observed 2) scannedImage]

/-- The titles recorded for an image since its latest `sm_image_index_begin_scan`. -/
def recordedSinceScan : History (Index m t) Step → Text → List Text
  | [], _ => []
  | (x, i) :: h, path =>
    (recorded x path i).toList ++
      match i with
      | .beginScan _ p _ => if p = path then [] else recordedSinceScan h path
      | _ => recordedSinceScan h path

/-- Is the operation a call of `sm_image_index_begin_scan`? -/
def Step.isBegin : Step → Bool
  | .beginScan _ _ _ => true
  | _ => false

theorem mem_recordedSinceScan_of_later {i : Step} {h : History (Index m t) Step}
    (hi : i.isBegin = false) (hmem : titleId ∈ recordedSinceScan h path) :
    titleId ∈ recordedSinceScan ((x, i) :: h) path := by
  cases i with
  | beginScan w p st => cases hi
  | recordGame w gamePath titleId => exact List.mem_append_right _ hmem
  | completeScan w p => exact List.mem_append_right _ hmem
  | flush w => exact List.mem_append_right _ hmem
  | prune w => exact List.mem_append_right _ hmem
  | read w => exact List.mem_append_right _ hmem

/-- The states of a run with its steps, the latest first. -/
def historyOf (x : Index m t) : List Step → History (Index m t) Step × Index m t
  | steps => steps.foldl (fun r i => ((r.2, i) :: r.1, next r.2 i)) ([], x)

theorem trace_historyOf {saved : Option (SavedIndex m t)} {steps : List Step}
    (hfits : ∀ i ∈ steps, i.Fits) :
    Trace scanSystem (historyOf (Index.initial saved) steps).1
      (historyOf (Index.initial saved) steps).2 := by
  have hfold : ∀ (r : History (Index m t) Step × Index m t) (steps : List Step),
      (∀ i ∈ steps, i.Fits) → Trace scanSystem r.1 r.2 →
      Trace scanSystem (steps.foldl (fun r i => ((r.2, i) :: r.1, next r.2 i)) r).1
        (steps.foldl (fun r i => ((r.2, i) :: r.1, next r.2 i)) r).2 := by
    intro r steps
    induction steps generalizing r with
    | nil => exact fun _ hr => hr
    | cons i steps ih =>
      intro hfits hr
      refine ih _ (fun j hj => hfits j (List.mem_cons_of_mem _ hj)) ?_
      exact Trace.step hr ⟨hfits i (List.mem_cons_self ..), rfl⟩
  exact hfold ([], Index.initial saved) steps hfits (Trace.start ⟨saved, rfl⟩)

theorem interruptedScan_fits : ∀ i ∈ interruptedScan, i.Fits := by
  have htitle : "PPSA00001".toList.length < maxTitleId ∧ "PPSA00002".toList.length < maxTitleId ∧
      "/data/games.exfat".toList.length < maxPath := by decide
  intro i hi
  simp only [interruptedScan, List.mem_cons, List.not_mem_nil, or_false] at hi
  rcases hi with rfl | rfl | rfl | rfl | rfl
  · exact htitle.2.2
  · refine ⟨htitle.1, fun path hpath => ?_⟩
    cases hpath
    exact htitle.2.2
  · trivial
  · refine ⟨htitle.2.1, fun path hpath => ?_⟩
    cases hpath
    exact htitle.2.2
  · trivial

theorem find?_first {n : Nat} {p : Fin (n + 1) → Bool} (h : p 0 = true) :
    Fin.find? p = some 0 := by
  rw [Fin.find?_succ, if_pos h]

theorem recordTitle_of_empty {x : Index m (t + 1)} (h : ∀ j, (x.titles j).valid = false)
    (i : Fin m) (titleId : Text) :
    recordTitle x i titleId =
      ({ x with
          titles := Function.update x.titles 0
            ⟨storedIndex i, true, strlcpy maxTitleId titleId⟩
          dirty := true }, true) := by
  have hunknown : (Fin.find? fun j => (x.titles j).valid &&
      (x.titles j).imageIndex = storedIndex i && (x.titles j).titleId = titleId) = none :=
    Fin.find?_eq_none_iff.mpr (fun j => by simp [h j])
  have hfree : (Fin.find? fun j => !(x.titles j).valid) = some 0 := find?_first (by simp [h 0])
  simp only [recordTitle, hunknown, hfree]

theorem beginScanLocked_of_empty {x : Index (m + 1) t} (h : ∀ i, x.entries i = Entry.zero)
    (htitles : ∀ j, (x.titles j).valid = false) (path : Text) (st : Stat) :
    beginScanLocked x path st =
      { x with
        entries := Function.update x.entries 0
          ⟨strlcpy maxPath path, st.size, st.mtimeSec, st.mtimeNsec, false, true⟩
        dirty := true } := by
  have hnone : findEntry x path = none := findEntry_of_cleared (fun i => by rw [h i]; rfl) path
  have hfree : (Fin.find? fun i => !(x.entries i).valid) = some 0 :=
    find?_first (by rw [h 0]; rfl)
  have htable : (fun j => if ((x.titles j).valid &&
      decide ((x.titles j).imageIndex = storedIndex (0 : Fin (m + 1)))) = true then Title.zero
      else x.titles j) = x.titles := by
    funext j
    simp [htitles j]
  simp only [beginScanLocked, reserveEntry, hnone, hfree, clearEntryTitles, htable,
    Function.update_self, Function.update_idem]

/-- The stamps of the observed configuration. -/
def stampOf (configInode : Nat) : Context :=
  ⟨⟨configInode, 10, 0, 0, 0, 0, true⟩, FileStamp.zero⟩

theorem readIndexContext_observed (configInode : Nat) :
    readIndexContext (observed configInode) = some (stampOf configInode) := rfl

theorem discarded_flush (hloaded : x.loaded = true) (hcontext : x.context = stampOf 1) :
    flush (observed 2) x =
      { entries := fun _ => Entry.zero, titles := fun _ => Title.zero, loaded := true,
        dirty := false, contextValid := true, context := stampOf 2, saved := none } := by
  have hload : loadIndex (observed 2) x = x := by simp [loadIndex, hloaded]
  have hchanged : ¬((stampOf 1).config = (stampOf 2).config) := by decide
  simp [flush, hload, refreshIndexContext, readIndexContext_observed, hcontext, hchanged,
    discardIndex, clearIndex, saveIndex, hloaded]

theorem findEntry_first {x : Index (m + 1) t} (hvalid : (x.entries 0).valid = true)
    (hpath : (x.entries 0).path = path) : findEntry x path = some 0 :=
  find?_first (by simp [hvalid, hpath])

/-- An index without entries, under the observed configuration. -/
def emptyIndex (m t configInode : Nat) : Index m t where
  entries := fun _ => Entry.zero
  titles := fun _ => Title.zero
  loaded := true
  dirty := false
  contextValid := true
  context := stampOf configInode
  saved := none

/-- The index after the image was begun. -/
def begunIndex (m t configInode : Nat) : Index (m + 1) t :=
  { emptyIndex (m + 1) t configInode with
    entries := Function.update (fun _ => Entry.zero) 0 ⟨scannedImage, 100, 0, 0, false, true⟩
    dirty := true }

/-- The index after one title was recorded. -/
def titledIndex (m t configInode : Nat) (titleId : Text) : Index (m + 1) (t + 1) :=
  { begunIndex m (t + 1) configInode with
    titles := Function.update (fun _ => Title.zero) 0 ⟨0, true, titleId⟩ }

theorem storedIndex_zero : storedIndex (0 : Fin (m + 1)) = 0 := rfl

theorem begin_empty (x : Index (m + 1) t) (configInode : Nat)
    (hx : loadIndex (observed configInode) x = emptyIndex (m + 1) t configInode) :
    beginScan (observed configInode) x scannedImage ⟨false, true, 1, 100, 0, 0, 0, 0⟩ =
      begunIndex m t configInode := by
  have hcopied : strlcpy maxPath scannedImage = scannedImage := by decide
  rw [beginScan, hx, beginScanLocked_of_empty (fun _ => rfl) (fun _ => rfl), hcopied]
  rfl

theorem findEntry_begunIndex (configInode : Nat) :
    findEntry (begunIndex m t configInode) scannedImage = some 0 :=
  findEntry_first rfl rfl

theorem recordTitle_begunIndex (hfits : strlcpy maxTitleId titleId = titleId) (configInode : Nat) :
    recordTitle (begunIndex m (t + 1) configInode) 0 titleId =
      (titledIndex m t configInode titleId, true) := by
  rw [recordTitle_of_empty (fun _ => rfl), hfits, storedIndex_zero]
  rfl

theorem record_begunIndex (hfits : strlcpy maxTitleId titleId = titleId) (configInode : Nat)
    (gamePath : Text) :
    recordGame (observed configInode) (begunIndex m (t + 1) configInode) gamePath titleId =
      (titledIndex m t configInode titleId, true) := by
  have hload : loadIndex (observed configInode) (begunIndex m (t + 1) configInode) =
      begunIndex m (t + 1) configInode := rfl
  have himage : (observed configInode).outermostImage gamePath = some scannedImage := rfl
  simp only [recordGame, hload, himage, findEntry_begunIndex, recordTitle_begunIndex hfits]

theorem record_emptyIndex (hfits : strlcpy maxTitleId titleId = titleId) (configInode : Nat)
    (gamePath : Text) :
    recordGame (observed configInode) (emptyIndex (m + 1) (t + 1) configInode) gamePath titleId =
      (titledIndex m t configInode titleId, true) := by
  have hload : loadIndex (observed configInode) (emptyIndex (m + 1) (t + 1) configInode) =
      emptyIndex (m + 1) (t + 1) configInode := rfl
  have himage : (observed configInode).outermostImage gamePath = some scannedImage := rfl
  have hstat : (observed configInode).stat scannedImage =
      .found ⟨false, true, 1, 100, 0, 0, 0, 0⟩ := rfl
  have hnone : findEntry (emptyIndex (m + 1) (t + 1) configInode) scannedImage = none :=
    findEntry_of_cleared (fun _ => rfl) _
  have hbegin := begin_empty (emptyIndex (m + 1) (t + 1) configInode) configInode hload
  rw [beginScan, hload] at hbegin
  simp only [recordGame, hload, himage, hnone, hstat, hbegin, findEntry_begunIndex,
    recordTitle_begunIndex hfits]

theorem interruptedScan_incomplete (m t : Nat) :
    let r := historyOf (Index.initial (m := m + 1) (t := t + 1) none) interruptedScan
    findEntry r.2 scannedImage = some 0 ∧ (r.2.entries 0).complete = true ∧
      "PPSA00001".toList ∈ recordedSinceScan r.1 scannedImage ∧
      ¬Contains r.2 0 "PPSA00001".toList := by
  have hfirst : strlcpy maxTitleId "PPSA00001".toList = "PPSA00001".toList := by decide
  have hsecond : strlcpy maxTitleId "PPSA00002".toList = "PPSA00002".toList := by decide
  have hbegin : beginScan (observed 1) (Index.initial (m := m + 1) (t := t + 1) none)
      scannedImage ⟨false, true, 1, 100, 0, 0, 0, 0⟩ = begunIndex m (t + 1) 1 :=
    begin_empty _ 1 rfl
  have hrecord := fun gamePath => record_begunIndex (m := m) (t := t) hfirst 1 gamePath
  have hflush : flush (observed 2) (titledIndex m t 1 "PPSA00001".toList) =
      emptyIndex (m + 1) (t + 1) 2 := discarded_flush rfl rfl
  have hrecord' := fun gamePath => record_emptyIndex (m := m) (t := t) hsecond 2 gamePath
  have hfound : findEntry (titledIndex m t 2 "PPSA00002".toList) scannedImage = some 0 :=
    findEntry_first rfl rfl
  have hcomplete : completeScan (observed 2) (titledIndex m t 2 "PPSA00002".toList) scannedImage =
      { titledIndex m t 2 "PPSA00002".toList with
        entries := Function.update (titledIndex m t 2 "PPSA00002".toList).entries 0
          ⟨scannedImage, 100, 0, 0, true, true⟩ } := by
    have hload : loadIndex (observed 2) (titledIndex m t 2 "PPSA00002".toList) =
        titledIndex m t 2 "PPSA00002".toList := rfl
    simp only [completeScan, hload, hfound]
    rfl
  simp only [historyOf, interruptedScan, List.foldl_cons, List.foldl_nil, next, hbegin, hrecord,
    hflush, hrecord', hcomplete]
  refine ⟨findEntry_first rfl rfl, rfl, ?_, ?_⟩
  · have himage : (observed 1).outermostImage "/mnt/shadowmnt/games/a".toList =
        some scannedImage := rfl
    have hrecorded : recorded (begunIndex m (t + 1) 1) scannedImage
        (.recordGame (observed 1) "/mnt/shadowmnt/games/a".toList "PPSA00001".toList) =
          some "PPSA00001".toList := by
      simp only [recorded, himage, hrecord, and_self, if_true]
    refine mem_recordedSinceScan_of_later rfl (mem_recordedSinceScan_of_later rfl
      (mem_recordedSinceScan_of_later rfl ?_))
    refine List.mem_append_left _ ?_
    rw [hrecorded]
    exact List.mem_singleton_self _
  · rintro ⟨j, hvalid, -, htitle⟩
    by_cases hj : j = 0
    · subst hj
      simp only [titledIndex, Function.update_self] at htitle
      exact absurd htitle (by decide)
    · simp only [titledIndex, Function.update_of_ne hj] at hvalid
      cases hvalid

/-- Tables of any size have such an entry. -/
theorem misses_title_of_nonempty {n k : Nat} (hn : n ≠ 0) (hk : k ≠ 0) :
    ∃ h x path i titleId, Trace (scanSystem (m := n) (t := k)) h x ∧
      findEntry x path = some i ∧ (x.entries i).complete = true ∧
      titleId ∈ recordedSinceScan h path ∧ ¬Contains x i titleId := by
  obtain ⟨m, rfl⟩ := Nat.exists_eq_succ_of_ne_zero hn
  obtain ⟨t, rfl⟩ := Nat.exists_eq_succ_of_ne_zero hk
  obtain ⟨hfound, hcomplete, hrecorded, hmissing⟩ := interruptedScan_incomplete m t
  exact ⟨_, _, _, _, _, trace_historyOf interruptedScan_fits, hfound, hcomplete, hrecorded,
    hmissing⟩

/-- The titles of the interrupted scan are where the begins say. -/
theorem complete_entries_faithful_interrupted :
    let r := historyOf (Index.initial (m := maxImageMounts) (t := maxImageTitles) none)
      interruptedScan
    TitlesReferToEntries r.2 ∧ ∀ i, findEntry r.2 scannedImage = some i →
      (r.2.entries i).complete = true →
        ∀ titleId ∈ recordedSince r.1 scannedImage, Contains r.2 i titleId := by
  intro r
  have hrun : Trace scanSystem r.1 r.2 := trace_historyOf interruptedScan_fits
  have hfaithful := complete_entries_faithful hrun
  exact ⟨hfaithful.1, fun i hfound hcomplete => hfaithful.2.1 scannedImage i hfound hcomplete⟩

/-- A complete entry may miss a title recorded since the latest call of
`sm_image_index_begin_scan`. -/
theorem complete_entry_misses_title :
    ¬∀ (h : History (Index maxImageMounts maxImageTitles) Step)
        (x : Index maxImageMounts maxImageTitles) (path : Text) (i : Fin maxImageMounts),
      Trace scanSystem h x → findEntry x path = some i → (x.entries i).complete = true →
        ∀ titleId ∈ recordedSinceScan h path, Contains x i titleId := by
  intro hclaim
  have hsizes : maxImageMounts ≠ 0 ∧ maxImageTitles ≠ 0 := by
    simp [maxImageMounts, maxImageTitles]
  obtain ⟨h, x, path, i, titleId, hrun, hfound, hcomplete, hrecorded, hmissing⟩ :=
    misses_title_of_nonempty hsizes.1 hsizes.2
  exact hmissing (hclaim h x path i hrun hfound hcomplete titleId hrecorded)

end ShadowMount.ImageIndex
