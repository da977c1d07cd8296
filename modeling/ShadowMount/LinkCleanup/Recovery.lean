import ShadowMount.LinkCleanup.System

/-!
# Mount link cleanup - no mounted title is stranded

While the source of a link is mounted, the link is staged before anything is unmounted, and the
links are removed only when nothing is mounted any more.  So the link is in its place or staged at
every moment, and the cleanup of the next start can put it back.

Main results:

- Theorem {lit}`cleanup_never_strands`: where the link can be read, and the start is told that it is
  missing, no mounted title is stranded.
- Theorem {lit}`failed_stat_strands`: where {lit}`stat` fails at the start, the image link is lost,
  or the link stays staged.
-/

namespace ShadowMount.LinkCleanup

open Foundation
open Errno
open MountLinks (TitleLinkPaths buildTitleLinkPaths buildTitleLinkPath appBase readMountLinkFile
  ReadFaults Files put)
variable {w w' : World} {s : State}

/-! ## The paths of a title -/

/-- The three files are different. -/
structure Apart (paths : TitleLinkPaths) : Prop where
  staged : paths.mountLink ≠ paths.stagedMountLink
  image : paths.mountLink ≠ paths.mountImageLink
  stagedImage : paths.stagedMountLink ≠ paths.mountImageLink

/-- The path of a link of a title, written out. -/
theorem buildTitleLinkPath_eq {titleId filename : Text} (htitle : titleId.length = 9)
    (hshort : filename.length < 100) :
    buildTitleLinkPath titleId filename = appBase ++ '/' :: titleId ++ '/' :: filename := by
  have hbase : appBase.length = 9 := by decide
  have hfits : (appBase ++ '/' :: titleId ++ '/' :: filename).length < maxPath := by
    simp only [List.length_append, List.length_cons, htitle, hbase]
    unfold maxPath
    omega
  unfold buildTitleLinkPath
  exact strlcpy_of_lt hfits

/-- Links of different names have different paths. -/
theorem buildTitleLinkPath_inj {titleId first second : Text} (htitle : titleId.length = 9)
    (hfirst : first.length < 100) (hsecond : second.length < 100)
    (h : buildTitleLinkPath titleId first = buildTitleLinkPath titleId second) :
    first = second := by
  rw [buildTitleLinkPath_eq htitle hfirst, buildTitleLinkPath_eq htitle hsecond] at h
  simpa using h

/-- The three links of a title are three files. -/
theorem apart_buildTitleLinkPaths {titleId : Text} (htitle : titleId.length = 9) :
    Apart (buildTitleLinkPaths titleId) where
  staged h := absurd (buildTitleLinkPath_inj htitle (by decide) (by decide) h) (by decide)
  image h := absurd (buildTitleLinkPath_inj htitle (by decide) (by decide) h) (by decide)
  stagedImage h := absurd (buildTitleLinkPath_inj htitle (by decide) (by decide) h) (by decide)

/-! ## Questions -/

section Questions

variable {fine : World → Op → Answer → Prop} {I : World → Prop} {α β : Type}

/-- The files and the mounts are the same. -/
def Same (w w' : World) : Prop := w'.files = w.files ∧ w'.stack = w.stack

/-- The statement is one about the files and the mounts. -/
def Respects (I : World → Prop) : Prop := ∀ w w', Same w w' → I w → I w'

/-- The program only looks, whatever is to hold meanwhile. -/
def Asks (fine : World → Op → Answer → Prop) (program : Routine α) : Prop :=
  ∀ I w, Respects I → I w → Ensures (answering fine) I w program fun w' _ => Same w w'

/-- Composition behind a program that only asks. -/
theorem Asks.andThen {program : Routine α} {next : α → Routine β} {post : World → β → Prop}
    (h : Asks fine program) (hI : Respects I) (hw : I w)
    (hnext : ∀ w' a, Same w w' → I w' → Ensures (answering fine) I w' (next a) post) :
    Ensures (answering fine) I w (program >>= next) post := by
  apply Ensures.andThen _ (h I w hI hw)
  intro w' a hw' hsame
  exact hnext w' a hsame hw'

theorem asks_pure (a : α) : Asks fine (pure a : Routine α) :=
  fun _ _ _ hw => .pure hw ⟨rfl, rfl⟩

/-- A call that leaves the world alone only asks. -/
theorem asks_perform {op : Op} (h : ∀ w answer, Same w (w.respond answer op).2) :
    Asks fine (perform op) := by
  intro I w hI hw
  apply Ensures.perform hw
  rintro response w' ⟨answer, -, hrespond⟩
  have hsame := h w answer
  rw [hrespond] at hsame
  exact ⟨hI w w' hsame hw, hsame⟩

/-- Programs that only ask, one after the other. -/
theorem asks_bind {program : Routine α} {next : α → Routine β} (h : Asks fine program)
    (hnext : ∀ a, Asks fine (next a)) : Asks fine (program >>= next) := by
  intro I w hI hw
  apply h.andThen hI hw
  intro w' a hsame hw'
  apply (hnext a I w' hI hw').mono
  intro w'' b hsame'
  exact ⟨hsame'.1.trans hsame.1, hsame'.2.trans hsame.2⟩

theorem asks_titleProtected : Asks fine titleProtected := asks_perform fun _ _ => ⟨rfl, rfl⟩

/-- To look for a path changes nothing. -/
theorem asks_pathExists (path : Text) : Asks fine (pathExists path) :=
  asks_perform fun _ _ => ⟨rfl, rfl⟩

/-- To look for the executable changes nothing. -/
theorem asks_hasGameExecutable (path : Text) : Asks fine (hasGameExecutable path) :=
  asks_perform fun _ _ => ⟨rfl, rfl⟩

/-- To look up an image changes nothing. -/
theorem asks_imageSourceOf (mountPoint : Text) : Asks fine (imageSourceOf mountPoint) :=
  asks_perform fun _ _ => ⟨rfl, rfl⟩

/-- To read a link changes nothing. -/
theorem asks_readLink (path : Text) : Asks fine (readLink path) :=
  asks_perform fun _ _ => ⟨rfl, rfl⟩

/-- To note the source of an image changes no file and no mount. -/
theorem asks_cacheImageSource (image mountPoint : Text) :
    Asks fine (cacheImageSource image mountPoint) := by
  apply asks_perform
  intro w answer
  simp only [World.respond]
  split <;> exact ⟨rfl, rfl⟩

theorem asks_statfs : Asks fine statfs := by
  apply asks_perform
  intro w answer
  simp only [World.respond]
  split
  · exact ⟨rfl, rfl⟩
  · split <;> exact ⟨rfl, rfl⟩

/-- The judgement of a directory changes nothing. -/
theorem asks_directoryNeedsCleanup (sourcePath : Text) :
    Asks fine (directoryNeedsCleanup sourcePath) := by
  unfold directoryNeedsCleanup
  apply asks_bind (asks_pathExists sourcePath)
  intro present
  split
  · exact asks_pure true
  · split
    · exact asks_pure true
    · apply asks_bind (asks_hasGameExecutable sourcePath)
      intro executable
      exact asks_pure _

/-- The judgement of a source changes nothing. -/
theorem asks_sourcePathNeedsCleanup (sourcePath : Text) :
    Asks fine (sourcePathNeedsCleanup sourcePath) := by
  unfold sourcePathNeedsCleanup
  split
  · exact asks_directoryNeedsCleanup sourcePath
  · apply asks_bind (asks_imageSourceOf sourcePath)
    intro found
    cases found with
    | none => exact asks_directoryNeedsCleanup sourcePath
    | some image =>
      apply asks_bind (asks_pathExists image)
      intro present
      split
      · exact asks_pure true
      · apply asks_bind (asks_pathExists sourcePath)
        intro present
        split
        · exact asks_pure false
        · exact asks_directoryNeedsCleanup sourcePath

/-- The judgement of an image changes nothing. -/
theorem asks_imageOrSourceNeedsCleanup (sourcePath : Text) (image : Option Text) :
    Asks fine (imageOrSourceNeedsCleanup sourcePath image) := by
  unfold imageOrSourceNeedsCleanup
  cases image with
  | none => exact asks_sourcePathNeedsCleanup sourcePath
  | some image =>
    apply asks_bind (asks_pathExists image)
    intro present
    split
    · exact asks_pure true
    · exact asks_sourcePathNeedsCleanup sourcePath

/-- To resolve the image of a link changes nothing. -/
theorem asks_resolveMountImageSourcePath (paths : TitleLinkPaths) (sourcePath : Text) :
    Asks fine (resolveMountImageSourcePath paths sourcePath) := by
  unfold resolveMountImageSourcePath
  split
  · exact asks_pure none
  · apply asks_bind (asks_readLink _)
    intro found
    cases found with
    | none => exact asks_imageSourceOf sourcePath
    | some image =>
      apply asks_bind (asks_cacheImageSource image sourcePath)
      intro _
      exact asks_pure _

end Questions

/-! ## The stack -/

section Stack

variable {fine : World → Op → Answer → Prop} {I : World → Prop} {α β : Type}

/-- A call takes mounts away at most. -/
theorem respond_stack (w : World) (answer : Answer) (op : Op) :
    (w.respond answer op).2.stack <:+ w.stack := by
  cases op with
  | stat | readLink | statfs | mountTable | titleProtected | pathExists | hasGameExecutable
  | imageSourceOf | cacheImageSource | rename | unlink =>
    simp only [World.respond]
    repeat' split
    all_goals exact List.suffix_rfl
  | unmount =>
    simp only [World.respond]
    split
    · exact List.suffix_rfl
    · split
      next => exact List.suffix_rfl
      next mount rest hstack =>
        rw [hstack]
        exact List.suffix_cons mount rest

/-- Mounts are only taken off the stack. -/
theorem ensures_suffix (program : Routine α) {stack : List Mount} (h : w.stack <:+ stack) :
    Ensures (answering fine) (fun w' => w'.stack <:+ stack) w program fun _ _ => True := by
  induction program generalizing w with
  | done a => exact ⟨h, trivial⟩
  | call op next ih =>
    refine ⟨h, ?_⟩
    rintro response w' ⟨answer, -, hrespond⟩
    apply ih
    have hsuffix := respond_stack w answer op
    rw [hrespond] at hsuffix
    exact hsuffix.trans h

/-- A comparison with a mount leaves a mount. -/
theorem betterMount_isSome (best : Option Mount) (entry : Mount) :
    (betterMount best entry).isSome = true := by
  unfold betterMount
  split
  · rfl
  · split <;> rfl

/-- No best mount means no mount. -/
theorem eq_nil_of_bestMount {table : List Mount} (h : bestMount table = none) : table = [] := by
  have hsome : ∀ (table : List Mount) (best : Option Mount), best.isSome = true →
      (table.foldl betterMount best).isSome = true := by
    intro table
    induction table with
    | nil => exact fun _ hbest => hbest
    | cons entry table ih => exact fun best _ => ih _ (betterMount_isSome best entry)
  cases table with
  | nil => rfl
  | cons entry table =>
    have hbest := hsome table _ (betterMount_isSome none entry)
    rw [show table.foldl betterMount (betterMount none entry) = none from h] at hbest
    cases hbest

/-- A mount table that is read is the stack, oldest first. -/
theorem mountTable_ensures (hw : I w) :
    Ensures (answering fine) I w mountTable fun w' table => Same w w' ∧
      ∀ entries, table = some entries → entries = w.stack.reverse := by
  apply Ensures.perform hw
  rintro table w' ⟨answer, -, hrespond⟩
  simp only [World.respond] at hrespond
  split at hrespond
  · cases hrespond
    exact ⟨hw, ⟨rfl, rfl⟩, nofun⟩
  · cases hrespond
    refine ⟨hw, ⟨rfl, rfl⟩, ?_⟩
    intro entries hentries
    cases hentries
    rfl

/-- The table has no top only when the stack is empty. -/
theorem getTableTop_ensures (hw : I w) :
    Ensures (answering fine) I w getTableTop fun w' top => Same w w' ∧
      (top = some none → w.stack = []) := by
  unfold getTableTop
  apply Ensures.andThen _ (mountTable_ensures hw)
  rintro w₁ table hw₁ ⟨hsame, hentries⟩
  cases table with
  | none => exact .pure hw₁ ⟨hsame, nofun⟩
  | some entries =>
    apply Ensures.pure hw₁
    refine ⟨hsame, ?_⟩
    intro hnone
    have hempty := eq_nil_of_bestMount (Option.some.inj hnone)
    rw [hentries entries rfl] at hempty
    exact List.reverse_eq_nil_iff.1 hempty

/-- There is no top mount only when the stack is empty. -/
theorem getTopMount_ensures (hI : Respects I) (hw : I w) :
    Ensures (answering fine) I w getTopMount fun w' top => Same w w' ∧
      (top = some none → w.stack = []) := by
  unfold getTopMount
  apply asks_statfs.andThen hI hw
  intro w₁ top hsame hw₁
  have htable : Ensures (answering fine) I w₁ getTableTop fun w' top => Same w w' ∧
      (top = some none → w.stack = []) := by
    apply (getTableTop_ensures hw₁).mono
    rintro w₂ top ⟨hsame', hempty⟩
    exact ⟨⟨hsame'.1.trans hsame.1, hsame'.2.trans hsame.2⟩, fun h => hsame.2 ▸ hempty h⟩
  cases top with
  | mounted mount => exact .pure hw₁ ⟨hsame, nofun⟩
  | elsewhere => exact htable
  | failed errno => exact htable

/-- The statement survives the loss of a mount. -/
def Pops (I : World → Prop) : Prop :=
  ∀ w mount rest, w.stack = mount :: rest → I w → I { w with stack := rest }

/-- An unmount keeps the files. -/
theorem unmount_ensures (hpops : Pops I) (hw : I w) :
    Ensures (answering fine) I w unmount fun w' _ => w'.files = w.files := by
  apply Ensures.perform hw
  rintro result w' ⟨answer, -, hrespond⟩
  simp only [World.respond] at hrespond
  split at hrespond
  · cases hrespond
    exact ⟨hw, rfl⟩
  · split at hrespond
    next =>
      cases hrespond
      exact ⟨hw, rfl⟩
    next mount rest hstack =>
      cases hrespond
      exact ⟨hpops w mount rest hstack hw, rfl⟩

/-- The loop over layers of ours keeps the files. -/
theorem unmountTopControlledLayer_ensures (hI : Respects I) (hpops : Pops I) (hw : I w) :
    Ensures (answering fine) I w unmountTopControlledLayer fun w' _ => w'.files = w.files := by
  unfold unmountTopControlledLayer
  apply Ensures.andThen _ (getTopMount_ensures hI hw)
  rintro w₁ top hw₁ ⟨hsame, -⟩
  match top with
  | none => exact .pure hw₁ hsame.1
  | some none => exact .pure hw₁ hsame.1
  | some (some mount) =>
    simp only
    split
    · exact .pure hw₁ hsame.1
    · apply Ensures.andThen _ (unmount_ensures hpops hw₁)
      intro w₂ result hw₂ hfiles
      cases result <;> exact .pure hw₂ (hfiles.trans hsame.1)

/-- An unmounted stack is empty. -/
theorem unmountLayers_ensures (hI : Respects I) (hpops : Pops I) (attempts : Nat) (hw : I w) :
    Ensures (answering fine) I w (unmountLayers attempts) fun w' unmounted =>
      w'.files = w.files ∧ (unmounted = true → w'.stack = []) := by
  induction attempts generalizing w with
  | zero =>
    unfold unmountLayers
    apply Ensures.andThen _ (getTopMount_ensures hI hw)
    rintro w₁ top hw₁ ⟨hsame, hempty⟩
    match top with
    | none => exact .pure hw₁ ⟨hsame.1, nofun⟩
    | some none => exact .pure hw₁ ⟨hsame.1, fun _ => hsame.2.trans (hempty rfl)⟩
    | some (some mount) => exact .pure hw₁ ⟨hsame.1, nofun⟩
  | succ attempts ih =>
    unfold unmountLayers
    apply Ensures.andThen _ (getTopMount_ensures hI hw)
    rintro w₁ top hw₁ ⟨hsame, hempty⟩
    match top with
    | none => exact .pure hw₁ ⟨hsame.1, nofun⟩
    | some none => exact .pure hw₁ ⟨hsame.1, fun _ => hsame.2.trans (hempty rfl)⟩
    | some (some mount) =>
      apply Ensures.andThen _ (unmountTopControlledLayer_ensures hI hpops hw₁)
      intro w₂ released hw₂ hfiles
      split
      · exact .pure hw₂ ⟨hfiles.trans hsame.1, nofun⟩
      · apply (ih hw₂).mono
        rintro w₃ unmounted ⟨hfiles', hall⟩
        exact ⟨hfiles'.trans (hfiles.trans hsame.1), hall⟩

/-! ## What is seen of the stack -/

/-- A mount of ours once seen stays seen. -/
theorem inspectEntry_hasOurNullfs (owner : Owner) {state : TitleMountState} (entry : Mount)
    (h : state.hasOurNullfs = true) : (inspectEntry owner state entry).hasOurNullfs = true := by
  unfold inspectEntry
  split
  · simp [h]
  · split <;> exact h
  · exact h

/-- A mount of ours in the table is seen. -/
theorem inspectEntries_hasOurNullfs {owner : Owner} (hsource : owner.sourcePath ≠ [])
    {table : List Mount} (hmem : ⟨.nullfs, owner.sourcePath⟩ ∈ table) (state : TitleMountState) :
    (table.foldl (inspectEntry owner) state).hasOurNullfs = true := by
  have hkeeps : ∀ (table : List Mount) (state : TitleMountState), state.hasOurNullfs = true →
      (table.foldl (inspectEntry owner) state).hasOurNullfs = true := by
    intro table
    induction table with
    | nil => exact fun _ h => h
    | cons entry table ih => exact fun state h => ih _ (inspectEntry_hasOurNullfs owner entry h)
  induction table generalizing state with
  | nil => cases hmem
  | cons entry table ih =>
    cases hmem with
    | head =>
      rw [List.foldl_cons]
      apply hkeeps
      simp [inspectEntry, hsource]
    | tail _ hmem => exact ih hmem _

/-- The look at the top forgets no mount of ours. -/
theorem inspectTop_hasOurNullfs (owner : Owner) {state : TitleMountState} (top : Mount)
    (h : state.hasOurNullfs = true) : (inspectTop owner state top).hasOurNullfs = true := by
  unfold inspectTop
  simp only
  split
  · split
    · rfl
    · exact h
  · split <;> exact h
  · exact h

/-- An inspection of the stack sees the mount of the source. -/
theorem inspectTitleStack_ensures (hI : Respects I) (owner : Owner)
    (hsource : owner.sourcePath ≠ []) (hw : I w) (hmounted : w.Mounted owner.sourcePath) :
    Ensures (answering fine) I w (inspectTitleStack owner) fun w' seen => Same w w' ∧
      ∀ state, seen = some state → state.hasOurNullfs = true := by
  unfold inspectTitleStack
  apply asks_statfs.andThen hI hw
  intro w₁ top hsame hw₁
  apply Ensures.andThen _ (mountTable_ensures hw₁)
  rintro w₂ table hw₂ ⟨hsame', hentries⟩
  have hboth : Same w w₂ := ⟨hsame'.1.trans hsame.1, hsame'.2.trans hsame.2⟩
  cases table with
  | none => exact .pure hw₂ ⟨hboth, nofun⟩
  | some entries =>
    apply Ensures.pure hw₂
    refine ⟨hboth, ?_⟩
    intro state hstate
    have hmem : ⟨.nullfs, owner.sourcePath⟩ ∈ entries := by
      rw [hentries entries rfl, hsame.2]
      exact List.mem_reverse.2 hmounted
    have hours := inspectEntries_hasOurNullfs hsource hmem .zero
    unfold inspectAnswers at hstate
    split at hstate
    · cases hstate
      exact inspectTop_hasOurNullfs owner _ hours
    · cases hstate
      exact inspectTop_hasOurNullfs owner _ hours
    · split at hstate
      · cases hstate
      · cases hstate
        exact hours

end Stack

/-! ## A run on a mounted title -/

section Mounted

variable {fine : World → Op → Answer → Prop} {paths : TitleLinkPaths} {link source : Text}
  {origin : World}

/-- The links are kept, or nothing is mounted any more. -/
def Holds (paths : TitleLinkPaths) (link source : Text) (origin w : World) : Prop :=
  Kept paths link source origin w ∨ w.stack = []

/-- Only the files matter for a kept link. -/
theorem Kept.of_files (h : Kept paths link source origin w) (hfiles : w'.files = w.files) :
    Kept paths link source origin w' := by
  unfold Kept World.Survives at *
  rw [hfiles]
  exact h

/-- What only asks keeps the agreement. -/
theorem respects_holds : Respects (Holds paths link source origin) := by
  intro w w' hsame h
  apply h.imp
  · intro hkept
    exact hkept.of_files hsame.1
  · intro hempty
    exact hsame.2.trans hempty

/-- A mount less keeps the agreement. -/
theorem pops_holds : Pops (Holds paths link source origin) := by
  intro w mount rest hstack h
  cases h with
  | inl hkept => exact .inl (hkept.of_files rfl)
  | inr hempty =>
    rw [hstack] at hempty
    cases hempty

/-- Without a mount there is nothing to keep. -/
theorem holds_of_unmounted {α : Type} (program : Routine α) (h : w.stack = []) :
    Ensures (answering fine) (Holds paths link source origin) w program fun _ _ => True := by
  have hsuffix : w.stack <:+ [] := by simp [h]
  apply (ensures_suffix program hsuffix).strengthen fun _ _ _ _ hcall => hcall
  intro w' hempty
  exact .inr (List.suffix_nil.1 hempty)

/-- The link is in its place. -/
def Placed (paths : TitleLinkPaths) (link source : Text) (origin w : World) : Prop :=
  w.files paths.mountLink = some link ∧ Kept paths link source origin w

/-- The link is staged, and not in its place. -/
def Staged (paths : TitleLinkPaths) (link source : Text) (origin w : World) : Prop :=
  (w.files paths.mountLink = none ∧ w.files paths.stagedMountLink = some link) ∧
    Kept paths link source origin w

/-- Only the files matter for a link in place. -/
theorem Placed.of_files (h : Placed paths link source origin w) (hfiles : w'.files = w.files) :
    Placed paths link source origin w' := by
  refine ⟨?_, h.2.of_files hfiles⟩
  rw [hfiles]
  exact h.1

/-- Only the files matter for a staged link. -/
theorem Staged.of_files (h : Staged paths link source origin w) (hfiles : w'.files = w.files) :
    Staged paths link source origin w' := by
  refine ⟨?_, h.2.of_files hfiles⟩
  rw [hfiles]
  exact h.1

/-- A kept link is in one of two places. -/
theorem Kept.placed_or_staged (h : Kept paths link source origin w) :
    Placed paths link source origin w ∨ Staged paths link source origin w :=
  h.1.imp (fun hplaced => ⟨hplaced, h⟩) fun hstaged => ⟨hstaged, h⟩

/-- A rename stages the link. -/
theorem Placed.stage (hapart : Apart paths) (h : Placed paths link source origin w) :
    Staged paths link source origin (w.renamed paths.mountLink paths.stagedMountLink link) := by
  have hlink :
      (w.renamed paths.mountLink paths.stagedMountLink link).files paths.mountLink = none := by
    simp [World.renamed, put, Function.update_of_ne hapart.staged]
  have hstaged : (w.renamed paths.mountLink paths.stagedMountLink link).files
      paths.stagedMountLink = some link := by simp [World.renamed, put]
  refine ⟨⟨hlink, hstaged⟩, .inr ⟨hlink, hstaged⟩, ?_⟩
  intro hsource
  rw [← h.2.2 hsource]
  simp [World.renamed, put, Function.update_of_ne hapart.stagedImage.symm,
    Function.update_of_ne hapart.image.symm]

/-- The rename back restores it. -/
theorem Staged.restore (hapart : Apart paths) (h : Staged paths link source origin w) :
    Placed paths link source origin (w.renamed paths.stagedMountLink paths.mountLink link) := by
  have hlink : (w.renamed paths.stagedMountLink paths.mountLink link).files paths.mountLink =
      some link := by simp [World.renamed, put]
  refine ⟨hlink, .inl hlink, ?_⟩
  intro hsource
  rw [← h.2.2 hsource]
  simp [World.renamed, put, Function.update_of_ne hapart.stagedImage.symm,
    Function.update_of_ne hapart.image.symm]

/-- A rename moves the file or leaves everything. -/
theorem rename_ensures {I : World → Prop} {path target content : Text}
    (hcontent : w.files path = some content) (hw : I w) (hI : I (w.renamed path target content)) :
    Ensures (answering fine) I w (rename path target) fun w' renamed =>
      renamed = true ∧ w' = w.renamed path target content ∨
        renamed = false ∧ w' = w ∧
          ∃ answer, fine w (.rename path target) answer ∧ answer.fails = true := by
  apply Ensures.perform hw
  rintro renamed w' ⟨answer, hfine, hrespond⟩
  simp only [World.respond, hcontent] at hrespond
  split at hrespond
  next hfails =>
    cases hrespond
    exact ⟨hw, .inr ⟨rfl, rfl, answer, hfine, hfails⟩⟩
  next =>
    cases hrespond
    exact ⟨hI, .inl ⟨rfl, rfl⟩⟩

/-- An unlink removes the file or leaves everything. -/
theorem unlink_ensures {I : World → Prop} {path : Text} (hw : I w) (hI : I (w.unlinked path)) :
    Ensures (answering fine) I w (unlink path) fun w' _ => w' = w ∨ w' = w.unlinked path := by
  apply Ensures.perform hw
  rintro result w' ⟨answer, -, hrespond⟩
  simp only [World.respond] at hrespond
  split at hrespond
  · cases hrespond
    exact ⟨hw, .inl rfl⟩
  · split at hrespond
    · cases hrespond
      exact ⟨hI, .inr rfl⟩
    · cases hrespond
      exact ⟨hw, .inl rfl⟩

/-- `stat` tells whether the file is there, or it fails. -/
theorem stat_ensures {I : World → Prop} (path : Text) (hw : I w) :
    Ensures (answering fine) I w (stat path) fun w' look => w = w' ∧
      (look = .found → w.files path ≠ none) ∧ (look = .missing → w.files path = none) ∧
      (look = .failed → ∃ answer, fine w (.stat path) answer ∧ answer.fails = true) := by
  apply Ensures.perform hw
  rintro look w' ⟨answer, hfine, hrespond⟩
  simp only [World.respond] at hrespond
  split at hrespond
  next hfails =>
    cases hrespond
    exact ⟨hw, rfl, nofun, nofun, fun _ => ⟨answer, hfine, hfails⟩⟩
  next =>
    split at hrespond
    next hfound =>
      cases hrespond
      exact ⟨hw, rfl, fun _ => Option.isSome_iff_ne_none.1 hfound, nofun, nofun⟩
    next hmissing =>
      cases hrespond
      exact ⟨hw, rfl, nofun, fun _ => by simpa using hmissing, nofun⟩

/-- The link is read when it is there. -/
def Reads (fine : World → Op → Answer → Prop) (paths : TitleLinkPaths) (link source : Text) :
    Prop :=
  ∀ w answer, w.files paths.mountLink = some link → fine w (.readLink paths.mountLink) answer →
    readMountLinkFile answer.read maxPath (some link) = some source

/-- `stat` tells when the link is missing. -/
def Sees (fine : World → Op → Answer → Prop) (paths : TitleLinkPaths) : Prop :=
  ∀ w answer, w.files paths.mountLink = none → fine w (.stat paths.mountLink) answer →
    answer.fails = false

/-- The link that is read has the source. -/
theorem readLink_ensures {I : World → Prop} (hreads : Reads fine paths link source)
    (hlink : w.files paths.mountLink = some link) (hw : I w) :
    Ensures (answering fine) I w (readLink paths.mountLink) fun w' found =>
      w = w' ∧ found = some source := by
  apply Ensures.perform hw
  rintro found w' ⟨answer, hfine, hrespond⟩
  simp only [World.respond, hlink, hreads w answer hlink hfine] at hrespond
  cases hrespond
  exact ⟨hw, rfl, rfl⟩

/-- A link in place is as agreed. -/
theorem Placed.holds (h : Placed paths link source origin w) :
    Holds paths link source origin w := .inl h.2

/-- The image link can go when the source is no mounted image. -/
theorem Placed.unlinkImage (hapart : Apart paths) (h : Placed paths link source origin w)
    (hsource : ¬isUnderImageMountBase source = true) :
    Placed paths link source origin (w.unlinked paths.mountImageLink) := by
  have hlink : (w.unlinked paths.mountImageLink).files paths.mountLink = some link := by
    simp [World.unlinked, put, Function.update_of_ne hapart.image, h.1]
  exact ⟨hlink, .inl hlink, fun himage => absurd himage hsource⟩

/-- A second, staged link can go. -/
theorem Placed.unlinkStaged (hapart : Apart paths) (h : Placed paths link source origin w) :
    Placed paths link source origin (w.unlinked paths.stagedMountLink) := by
  have hlink : (w.unlinked paths.stagedMountLink).files paths.mountLink = some link := by
    simp [World.unlinked, put, Function.update_of_ne hapart.staged, h.1]
  refine ⟨hlink, .inl hlink, ?_⟩
  intro hsource
  rw [← h.2.2 hsource]
  simp [World.unlinked, put, Function.update_of_ne hapart.stagedImage.symm]

/-- The image link is warmed with the mount link in place. -/
theorem warmImageLink_ensures (hapart : Apart paths) (hreads : Reads fine paths link source)
    (h : Placed paths link source origin w) :
    Ensures (answering fine) (Holds paths link source origin) w (warmImageLink paths) fun w' _ =>
      Placed paths link source origin w' := by
  unfold warmImageLink
  apply Ensures.andThen _ (readLink_ensures hreads h.1 h.holds)
  rintro _ _ hw ⟨rfl, rfl⟩
  simp only
  split
  next hsource =>
    have hunlinked := h.unlinkImage hapart (by simpa using hsource)
    apply Ensures.andThen _ (unlink_ensures hw hunlinked.holds)
    rintro w' _ hw' hcases
    apply Ensures.pure hw'
    cases hcases with
    | inl hsame => exact hsame ▸ h
    | inr hgone => exact hgone ▸ hunlinked
  next =>
    apply (asks_readLink _).andThen respects_holds hw
    intro w₁ found hsame hw₁
    cases found with
    | none => exact .pure hw₁ (h.of_files hsame.1)
    | some image =>
      apply (asks_cacheImageSource image source).andThen respects_holds hw₁
      intro w₂ _ hsame' hw₂
      exact .pure hw₂ ((h.of_files hsame.1).of_files hsame'.1)

/-- At the start the links are kept at every moment. -/
theorem cleanupStagedMountLinksEntry_ensures (hapart : Apart paths)
    (hreads : Reads fine paths link source) (hsees : Sees fine paths)
    (h : Kept paths link source origin w) :
    Ensures (answering fine) (Holds paths link source origin) w
      (cleanupStagedMountLinksEntry paths) fun _ _ => True := by
  have hwarm : ∀ {w' : World}, Placed paths link source origin w' →
      Ensures (answering fine) (Holds paths link source origin) w' (warmImageLink paths)
        fun _ _ => True := by
    intro w' hplaced
    exact (warmImageLink_ensures hapart hreads hplaced).mono fun _ _ _ => trivial
  unfold cleanupStagedMountLinksEntry
  apply Ensures.andThen _ (stat_ensures paths.stagedMountLink (.inl h))
  rintro _ look hw ⟨rfl, hfound, hmissing, -⟩
  cases look with
  | failed => exact .pure hw trivial
  | missing =>
    cases h.placed_or_staged with
    | inl hplaced => exact hwarm hplaced
    | inr hstaged =>
      have habsent := hmissing rfl
      rw [hstaged.1.2] at habsent
      cases habsent
  | found =>
    apply Ensures.andThen _ (stat_ensures paths.mountLink hw)
    rintro _ look hw ⟨rfl, hfound', hmissing', hfailed'⟩
    have hplaced : w.files paths.mountLink ≠ none → Placed paths link source origin w := by
      intro hpresent
      cases h.placed_or_staged with
      | inl hplaced => exact hplaced
      | inr hstaged => exact absurd hstaged.1.1 hpresent
    cases look with
    | found =>
      have hunlinked := (hplaced (hfound' rfl)).unlinkStaged hapart
      apply Ensures.andThen _ (unlink_ensures hw hunlinked.holds)
      rintro w' _ hw' hcases
      cases hcases with
      | inl hsame => exact hwarm (hsame ▸ hplaced (hfound' rfl))
      | inr hgone => exact hwarm (hgone ▸ hunlinked)
    | failed =>
      -- the branch goes on as if the link were there
      obtain ⟨answer, hfine, hfails⟩ := hfailed' rfl
      apply hwarm
      apply hplaced
      intro habsent
      rw [hsees w answer habsent hfine] at hfails
      cases hfails
    | missing =>
      have hstaged : Staged paths link source origin w := by
        cases h.placed_or_staged with
        | inl hplaced' =>
          have habsent := hmissing' rfl
          rw [hplaced'.1] at habsent
          cases habsent
        | inr hstaged => exact hstaged
      apply Ensures.andThen _ (rename_ensures hstaged.1.2 hw (hstaged.restore hapart).holds)
      intro w' renamed hw' hcases
      cases hcases with
      | inl hmoved =>
        obtain ⟨rfl, rfl⟩ := hmoved
        exact hwarm (hstaged.restore hapart)
      | inr hkept =>
        obtain ⟨rfl, rfl, -⟩ := hkept
        exact .pure hw' trivial

/-- A link that is in its place stays there while the image link is looked at, whatever the calls
answer. -/
theorem warmImageLink_keeps (hapart : Apart paths) (h : w.files paths.mountLink = some link) :
    Ensures (answering fine) (fun w' => w'.files paths.mountLink = some link) w
      (warmImageLink paths) fun w' _ => w'.files paths.mountLink = some link := by
  have hrespects : Respects fun w' => w'.files paths.mountLink = some link := by
    intro w w' hsame hlink
    rw [hsame.1]
    exact hlink
  have hunlink : ∀ {w' : World}, w'.files paths.mountLink = some link →
      Ensures (answering fine) (fun w' => w'.files paths.mountLink = some link) w'
        (do let _ ← unlink paths.mountImageLink; return true : Routine Bool)
        fun w' _ => w'.files paths.mountLink = some link := by
    intro w' hlink
    have hkept : (w'.unlinked paths.mountImageLink).files paths.mountLink = some link := by
      simp [World.unlinked, put, Function.update_of_ne hapart.image, hlink]
    apply Ensures.andThen _ (unlink_ensures hlink hkept)
    intro w'' _ hw'' _
    exact .pure hw'' hw''
  unfold warmImageLink
  apply (asks_readLink _).andThen hrespects h
  intro w₁ found _ hw₁
  cases found with
  | none => exact hunlink hw₁
  | some sourcePath =>
    simp only
    split
    · exact hunlink hw₁
    · apply (asks_readLink _).andThen hrespects hw₁
      intro w₂ found _ hw₂
      cases found with
      | none => exact .pure hw₂ hw₂
      | some image =>
        apply (asks_cacheImageSource image sourcePath).andThen hrespects hw₂
        intro w₃ _ _ hw₃
        exact .pure hw₃ hw₃

/-- At the start the link is put back if renames work and `stat` tells which of the two files
are there, whatever the other calls answer. -/
theorem cleanupStagedMountLinksEntry_restores (hapart : Apart paths) (h : w.Survives paths link) :
    Ensures (answering (Restoring paths)) (fun w' => w'.Survives paths link) w
      (cleanupStagedMountLinksEntry paths) fun w' _ => w'.files paths.mountLink = some link := by
  have hwarm : ∀ {w' : World}, w'.files paths.mountLink = some link →
      Ensures (answering (Restoring paths)) (fun w' => w'.Survives paths link) w'
        (warmImageLink paths) fun w' _ => w'.files paths.mountLink = some link := by
    intro w' hlink
    exact (warmImageLink_keeps hapart hlink).strengthen (fun _ _ _ _ hcall => hcall)
      fun _ hplaced => .inl hplaced
  unfold cleanupStagedMountLinksEntry
  apply Ensures.andThen _ (stat_ensures paths.stagedMountLink h)
  rintro _ look hw ⟨rfl, hfound, hmissing, hfailed⟩
  cases look with
  | failed =>
    obtain ⟨answer, ⟨-, htold⟩, hfails⟩ := hfailed rfl
    apply Ensures.pure hw
    cases h with
    | inl hplaced => exact hplaced
    | inr hstaged =>
      rw [htold (.inr rfl) hstaged.1] at hfails
      cases hfails
  | missing =>
    cases h with
    | inl hplaced => exact hwarm hplaced
    | inr hstaged =>
      have habsent := hmissing rfl
      rw [hstaged.2] at habsent
      cases habsent
  | found =>
    apply Ensures.andThen _ (stat_ensures paths.mountLink hw)
    rintro _ look hw ⟨rfl, hfound', hmissing', hfailed'⟩
    cases h with
    | inl hplaced =>
      cases look with
      | failed => exact hwarm hplaced
      | missing =>
        have habsent := hmissing' rfl
        rw [hplaced] at habsent
        cases habsent
      | found =>
        have hkept : (w.unlinked paths.stagedMountLink).files paths.mountLink = some link := by
          simp [World.unlinked, put, Function.update_of_ne hapart.staged, hplaced]
        apply Ensures.andThen _ (unlink_ensures hw (.inl hkept))
        rintro w' _ hw' hcases
        cases hcases with
        | inl hsame => exact hwarm (hsame ▸ hplaced)
        | inr hgone => exact hwarm (hgone ▸ hkept)
    | inr hstaged =>
      cases look with
      | found => exact absurd hstaged.1 (hfound' rfl)
      | failed =>
        obtain ⟨answer, ⟨-, htold⟩, hfails⟩ := hfailed' rfl
        rw [htold (.inl rfl) hstaged.1] at hfails
        cases hfails
      | missing =>
        have hplaced : (w.renamed paths.stagedMountLink paths.mountLink link).files
            paths.mountLink = some link := by simp [World.renamed, put]
        apply Ensures.andThen _ (rename_ensures hstaged.2 hw (.inl hplaced))
        intro w' renamed hw' hcases
        cases hcases with
        | inl hmoved =>
          obtain ⟨rfl, rfl⟩ := hmoved
          exact hwarm hplaced
        | inr hkept =>
          obtain ⟨-, -, answer, ⟨hworks, -⟩, hfails⟩ := hkept
          rw [hworks _ _ rfl] at hfails
          cases hfails

/-- A judgement names the source that it was given. -/
theorem judgeSource_ensures {I : World → Prop} (hI : Respects I) (ctx : CleanupContext)
    (image : Option Text) (hw : I w) :
    Ensures (answering fine) I w (judgeSource ctx source image) fun w' judgement =>
      Same w w' ∧ judgement.sourcePath = source := by
  have hneeds : ∀ hit : Bool, Ensures (answering fine) I w (do
      return ⟨source, hit, ← imageOrSourceNeedsCleanup source image⟩ : Routine Judgement)
      fun w' judgement => Same w w' ∧ judgement.sourcePath = source := by
    intro hit
    apply (asks_imageOrSourceNeedsCleanup source image).andThen hI hw
    intro w' needs hsame hw'
    exact .pure hw' ⟨hsame, rfl⟩
  have hsame : Same w w := ⟨rfl, rfl⟩
  unfold judgeSource
  split
  · exact .pure hw ⟨hsame, rfl⟩
  · split
    · simp only
      split
      · exact .pure hw ⟨hsame, rfl⟩
      · split
        · exact .pure hw ⟨hsame, rfl⟩
        · exact hneeds true
    · exact hneeds false

/-- The judgement of a link names the source that it holds. -/
theorem judgeLink_ensures (hreads : Reads fine paths link source) (ctx : CleanupContext)
    (h : Placed paths link source origin w) :
    Ensures (answering fine) (Holds paths link source origin) w (judgeLink ctx paths)
      fun w' judgement => Same w w' ∧ judgement.sourcePath = source := by
  unfold judgeLink
  apply Ensures.andThen _ (readLink_ensures hreads h.1 h.holds)
  rintro _ _ hw ⟨rfl, rfl⟩
  apply (asks_resolveMountImageSourcePath paths source).andThen respects_holds hw
  intro w₁ image hsame hw₁
  apply (judgeSource_ensures respects_holds ctx image hw₁).mono
  rintro w₂ judgement ⟨hsame', hsource⟩
  exact ⟨⟨hsame'.1.trans hsame.1, hsame'.2.trans hsame.2⟩, hsource⟩

/-- What is known of the links and the mounts behind the unmounting. -/
structure Released (paths : TitleLinkPaths) (link source : Text) (origin w : World)
    (release : Release) : Prop where
  unmounted : release.keepMountLink = false → w.stack = []
  staged : release.mountLinkStaged = true → Staged paths link source origin w

/-- After the staged part the link is where the result says. -/
theorem unmountStaged_ensures (hapart : Apart paths) (ctx : CleanupContext)
    (h : Placed paths link source origin w) :
    Ensures (answering fine) (Holds paths link source origin) w (unmountStaged ctx paths)
      fun w' result => ∀ release, result = some release →
        Released paths link source origin w' release := by
  unfold unmountStaged unmountControlledMountStack
  split
  · apply Ensures.andThen _ (unmountLayers_ensures respects_holds pops_holds _ h.holds)
    rintro w₁ unmounted hw₁ ⟨-, hempty⟩
    apply Ensures.pure hw₁
    intro release hrelease
    cases hrelease
    exact ⟨fun hkeep => hempty (by simpa using hkeep), nofun⟩
  · have hstaged := h.stage hapart
    apply Ensures.andThen _ (rename_ensures h.1 h.holds (.inl hstaged.2))
    intro w₁ renamed hw₁ hcases
    cases hcases with
    | inr hfailed =>
      obtain ⟨rfl, rfl, -⟩ := hfailed
      exact .pure hw₁ nofun
    | inl hmoved =>
      obtain ⟨rfl, rfl⟩ := hmoved
      apply Ensures.andThen _ (unmountLayers_ensures respects_holds pops_holds _ hw₁)
      rintro w₂ unmounted hw₂ ⟨hfiles, hempty⟩
      apply Ensures.pure hw₂
      intro release hrelease
      cases hrelease
      exact ⟨fun hkeep => hempty (by simpa using hkeep), fun _ => hstaged.of_files hfiles⟩

/-- While the source is mounted the stack is not given free. -/
theorem releaseStack_ensures (hapart : Apart paths) (hsource : source ≠ []) (ctx : CleanupContext)
    (hunmount : ctx.unmountSystemExBind = true) (scanPaths : List Text) (titleId : Text)
    {judgement : Judgement} (hjudged : judgement.sourcePath = source)
    (h : Placed paths link source origin w) (hmounted : w.Mounted source) :
    Ensures (answering fine) (Holds paths link source origin) w
      (releaseStack ctx scanPaths titleId paths judgement) fun w' result =>
        ∀ release, result = some release → Released paths link source origin w' release := by
  subst hjudged
  unfold releaseStack
  split
  next hkeep => simp [hunmount] at hkeep
  next =>
    apply Ensures.andThen _ (inspectTitleStack_ensures respects_holds
      ⟨scanPaths, titleId, judgement.sourcePath, ctx.removedSourceRoot⟩ hsource h.holds hmounted)
    rintro w₁ seen hw₁ ⟨hsame, hours⟩
    have hplaced := h.of_files hsame.1
    cases seen with
    | none => exact .pure hw₁ nofun
    | some state =>
      have hmatches : stackMatchesLink ctx judgement state = true := by
        simp [stackMatchesLink, hsource, hours state rfl]
      simp only [hmatches]
      split
      next hno => cases hno
      next =>
        split
        · apply Ensures.pure hw₁
          rintro _ hrelease
          cases hrelease
          exact ⟨nofun, nofun⟩
        · exact unmountStaged_ensures hapart ctx hplaced

/-- The last part removes only links that nothing needs. -/
theorem finishCleanup_ensures (hapart : Apart paths) {release : Release}
    (hw : Holds paths link source origin w) (h : Released paths link source origin w release) :
    Ensures (answering fine) (Holds paths link source origin) w (finishCleanup paths release)
      fun _ _ => True := by
  cases hkeep : release.keepMountLink with
  | false => exact holds_of_unmounted _ (h.unmounted hkeep)
  | true =>
    cases hstaged : release.mountLinkStaged with
    | false =>
      simp only [finishCleanup, hkeep, hstaged]
      exact .pure hw trivial
    | true =>
      have hlink := h.staged hstaged
      simp only [finishCleanup, hkeep, hstaged]
      apply Ensures.andThen _ (rename_ensures hlink.1.2 hw (hlink.restore hapart).holds)
      intro w' _ hw' _
      exact .pure hw' trivial

/-- A cleanup of a mounted title keeps the links, or unmounts all. -/
theorem cleanupMountLinksEntry_ensures (hapart : Apart paths)
    (hreads : Reads fine paths link source) (hsource : source ≠ []) {ctx : CleanupContext}
    (hunmount : ctx.unmountSystemExBind = true) (scanPaths : List Text) (titleId : Text)
    (h : Kept paths link source origin w) (hmounted : w.Mounted source) :
    Ensures (answering fine) (Holds paths link source origin) w
      (cleanupMountLinksEntry ctx scanPaths titleId paths) fun _ _ => True := by
  unfold cleanupMountLinksEntry
  apply asks_titleProtected.andThen respects_holds (.inl h)
  intro w₁ isProtected hsame₁ hw₁
  split
  · exact .pure hw₁ trivial
  · apply Ensures.andThen _ (stat_ensures paths.mountLink hw₁)
    rintro _ look _ ⟨rfl, hfound, -⟩
    cases look with
    | missing => exact .pure hw₁ trivial
    | failed => exact .pure hw₁ trivial
    | found =>
      have hplaced : Placed paths link source origin w₁ := by
        cases (h.of_files hsame₁.1).placed_or_staged with
        | inl hplaced => exact hplaced
        | inr hstaged => exact absurd hstaged.1.1 (hfound rfl)
      apply Ensures.andThen _ (judgeLink_ensures hreads ctx hplaced)
      rintro w₂ judgement hw₂ ⟨hsame₂, hjudged⟩
      split
      · exact .pure hw₂ trivial
      · have hmounted₂ : w₂.Mounted source := by
          unfold World.Mounted
          rw [hsame₂.2, hsame₁.2]
          exact hmounted
        apply Ensures.andThen _ (releaseStack_ensures hapart hsource ctx hunmount scanPaths
          titleId hjudged (hplaced.of_files hsame₂.1) hmounted₂)
        intro w₃ result hw₃ hreleased
        cases result with
        | none => exact .pure hw₃ trivial
        | some release =>
          obtain ⟨hunmounted, hstaged⟩ := hreleased release rfl
          apply finishCleanup_ensures hapart hw₃
          exact ⟨fun hkeep => hunmounted (Bool.or_eq_false_iff.1 hkeep).1, hstaged⟩

end Mounted

/-- A link that can be read names something. -/
theorem readMountLinkFile_ne_nil {faults : ReadFaults} {size : Nat} {file : Option Text}
    {out : Text} (h : readMountLinkFile faults size file = some out) : out ≠ [] := by
  unfold readMountLinkFile MountLinks.firstLine at h
  split at h
  · cases h
  · split at h
    · cases h
    · split at h
      · cases h
      · split at h
        · cases h
        · simp only at h
          split at h
          · cases h
          next hout =>
            cases h
            exact hout

/-! ## All runs -/

section Runs

variable {titleId link source : Text}

/-- The answers that a run may get: any, or for a mounted title those that it needs. -/
def Fine (titleId source : Text) (origin : World) (job : Job) (w : World) (op : Op)
    (answer : Answer) : Prop :=
  origin.Mounted source → Attended (buildTitleLinkPaths titleId) job w op answer

/-- Reading the link of a mounted source works. -/
theorem reads_of_mounted {origin : World} (hmounted : origin.Mounted source)
    (hlink : readMountLinkFile ReadFaults.none maxPath (some link) = some source) (job : Job) :
    Reads (Fine titleId source origin job) (buildTitleLinkPaths titleId) link source := by
  intro w answer hpresent hfine
  rw [(hfine hmounted).1 rfl (by simp [hpresent])]
  exact hlink

/-- In the staged cleanup a mounted source is seen. -/
theorem sees_of_mounted {origin : World} (hmounted : origin.Mounted source) :
    Sees (Fine titleId source origin .staged) (buildTitleLinkPaths titleId) := by
  intro w answer habsent hfine
  exact (hfine hmounted).2 rfl rfl habsent

/-- What holds of a state between two calls. -/
structure Invariant (titleId link source : Text) (s : State) : Prop where
  origin : s.origin.Mounted source → s.origin.Survives (buildTitleLinkPaths titleId) link
  suffix : s.world.stack <:+ s.origin.stack
  holds : s.origin.Mounted source →
    Holds (buildTitleLinkPaths titleId) link source s.origin s.world
  task : ∀ job program, s.task = some (job, program) → s.origin.Mounted source →
    Ensures (answering (Fine titleId source s.origin job))
      (Holds (buildTitleLinkPaths titleId) link source s.origin) s.world program fun _ _ => True

/-- A link that survives is kept by standing still. -/
theorem kept_self {paths : TitleLinkPaths} (h : w.Survives paths link) :
    Kept paths link source w w := ⟨h, fun _ => rfl⟩

/-- The invariant gives what the theorem promises. -/
theorem Invariant.survives (h : Invariant titleId link source s)
    (hmounted : s.world.Mounted source) : s.world.Survives (buildTitleLinkPaths titleId) link := by
  have horigin : s.origin.Mounted source := h.suffix.subset hmounted
  cases h.holds horigin with
  | inl hkept => exact hkept.1
  | inr hempty =>
    unfold World.Mounted at hmounted
    rw [hempty] at hmounted
    cases hmounted

/-- A run that begins. -/
theorem Invariant.start (htitle : titleId.length = 9)
    (hlink : readMountLinkFile ReadFaults.none maxPath (some link) = some source)
    (hsource : source ≠ []) {s : State} (h : Invariant titleId link source s) {job : Job}
    (hunmounts : job.unmounts = true) :
    Invariant titleId link source ⟨s.world, s.world, some (job, job.program titleId)⟩ where
  origin := h.survives
  suffix := List.suffix_rfl
  holds hmounted := .inl (kept_self (h.survives hmounted))
  task job' program hjob hmounted := by
    cases hjob
    have hapart := apart_buildTitleLinkPaths htitle
    have hkept : Kept (buildTitleLinkPaths titleId) link source s.world s.world :=
      kept_self (h.survives hmounted)
    have hreads : Reads (Fine titleId source s.world job) (buildTitleLinkPaths titleId) link
        source := reads_of_mounted hmounted hlink job
    cases job with
    | cleanup ctx scanPaths =>
      exact cleanupMountLinksEntry_ensures hapart hreads hsource hunmounts scanPaths titleId
        hkept hmounted
    | staged =>
      exact cleanupStagedMountLinksEntry_ensures hapart hreads (sees_of_mounted hmounted) hkept

/-- One call of the running task keeps the invariant. -/
theorem Invariant.run (h : Invariant titleId link source s) {job : Job} {op : Op}
    {next : op.Response → Routine Bool} (htask : s.task = some (job, .call op next))
    {answer : Answer} (hfine : Fine titleId source s.origin job s.world op answer) :
    Invariant titleId link source ⟨(s.world.respond answer op).2, s.origin,
      some (job, next (s.world.respond answer op).1)⟩ where
  origin := h.origin
  suffix := (respond_stack s.world answer op).trans h.suffix
  holds hmounted := ((h.task job _ htask hmounted).2 _ _ ⟨answer, hfine, rfl⟩).now
  task job' program hjob hmounted := by
    cases hjob
    exact (h.task job _ htask hmounted).2 _ _ ⟨answer, hfine, rfl⟩

/-- One step of the system keeps the invariant. -/
theorem Invariant.step (htitle : titleId.length = 9)
    (hlink : readMountLinkFile ReadFaults.none maxPath (some link) = some source)
    (hsource : source ≠ []) {s s' : State} (h : Invariant titleId link source s)
    {choice : Choice} (hattends : Attends titleId source s choice)
    (hnext : s.next titleId link choice = some s') : Invariant titleId link source s' := by
  cases choice with
  | start job =>
    simp only [State.next] at hnext
    split at hnext
    · split at hnext
      next hunmounts =>
        cases hnext
        exact h.start htitle hlink hsource hunmounts
      next => cases hnext
    · cases hnext
  | run answer =>
    simp only [State.next] at hnext
    split at hnext
    next job op next htask =>
      cases hnext
      exact h.run htask fun hmounted => hattends job op next answer htask rfl hmounted
    next => cases hnext
  | stop =>
    cases hnext
    exact ⟨h.origin, h.suffix, h.holds, nofun⟩
  | others stack =>
    simp only [State.next] at hnext
    split at hnext
    next hothers =>
      cases hnext
      exact ⟨fun _ => hothers.2, List.suffix_rfl, fun _ => .inl (kept_self hothers.2), nofun⟩
    next => cases hnext

/-! ## Main results -/

/-- Every call can be answered so that nothing fails. -/
theorem restoring_total (paths : TitleLinkPaths) (w : World) (op : Op) :
    ∃ response w', answering (Restoring paths) w op response w' :=
  ⟨_, _, ⟨false, EIO, ReadFaults.none, false⟩, ⟨fun _ _ _ => rfl, fun _ _ => rfl⟩, rfl⟩

/-- Where the link can be read, and the start is told when it is missing, no mounted title is
stranded. -/
theorem cleanup_never_strands (htitle : titleId.length = 9)
    (hlink : readMountLinkFile ReadFaults.none maxPath (some link) = some source) {s : State}
    (h : Reachable ((machine titleId link).restrict (Attends titleId source)) s) :
    NotStranded titleId link source s := by
  have hsource : source ≠ [] := readMountLinkFile_ne_nil hlink
  have hinvariant : Invariant titleId link source s := by
    apply h.invariant
    · rintro _ ⟨w, hplaced, rfl⟩
      exact ⟨fun _ => .inl hplaced, List.suffix_rfl, fun _ => .inl (kept_self (.inl hplaced)),
        nofun⟩
    · rintro s choice s' hs ⟨hnext, hattends⟩
      exact hs.step htitle hlink hsource hattends hnext
  constructor
  · exact hinvariant.survives
  · intro hsurvives
    constructor
    · exact Run.exists (restoring_total _) _ _
    · intro w result hrun
      exact (cleanupStagedMountLinksEntry_restores (apart_buildTitleLinkPaths htitle)
        hsurvives).run hrun
  · exact hinvariant.holds

end Runs

/-! ## An interrupted cleanup -/

section Interrupted

def exampleTitle : Text := "PPSA01234".toList

def exampleSource : Text := "/mnt/shadowmnt/game".toList

/-- A mounted title with its link and its image link. -/
def exampleWorld : World where
  files := put (put (fun _ => none) (buildTitleLinkPaths exampleTitle).mountLink
    (some exampleSource)) (buildTitleLinkPaths exampleTitle).mountImageLink
    (some "/data/game.pfs".toList)
  stack := [⟨.nullfs, exampleSource⟩]
  images := fun _ => none

/-- A call that succeeds. -/
def succeeds : Choice := .run ⟨false, EIO, ReadFaults.none, false⟩

/-- A cleanup that is stopped when the link is staged. -/
def interruptedCleanup : List Choice :=
  [.start (.cleanup ⟨"/mnt/shadowmnt".toList, true, true, false, false⟩ [])] ++
    List.replicate 8 succeeds ++ [.stop]

/-- The start at which `stat` of the link fails. -/
def failedStart : List Choice :=
  [.start .staged, succeeds, .run ⟨true, EIO, ReadFaults.none, false⟩, succeeds, succeeds]

def Choice.works : Choice → Bool
  | .run answer => !answer.fails && answer.read = ReadFaults.none
  | _ => true

/-- Calls that all work are attended to. -/
theorem attends_of_works {titleId source : Text} {choice : Choice} (h : choice.works = true) :
    Attends titleId source s choice := by
  rintro job op next answer - rfl -
  simp only [Choice.works, Bool.and_eq_true, Bool.not_eq_true', decide_eq_true_eq] at h
  exact ⟨fun _ _ => h.2, fun _ _ _ => h.1⟩

/-- Steps that succeed. -/
def State.nextWorking (s : State) (choice : Choice) : Option State :=
  if choice.works then s.next exampleTitle exampleSource choice else none

/-- A cleanup is interrupted behind the staging rename, and the next one restores the link. -/
theorem cleanup_never_strands_interrupted : ∃ s : State,
    s.world.files (buildTitleLinkPaths exampleTitle).mountLink = none ∧
      s.world.Mounted exampleSource ∧ NotStranded exampleTitle exampleSource exampleSource s := by
  have hrun : ((interruptedCleanup.foldlM State.nextWorking ⟨exampleWorld, exampleWorld, none⟩).map
      fun s => (s.world.files (buildTitleLinkPaths exampleTitle).mountLink, s.world.stack)) =
      some (none, [⟨.nullfs, exampleSource⟩]) := by decide +kernel
  rcases Option.map_eq_some_iff.mp hrun with ⟨s, hs, hpair⟩
  obtain ⟨hstaged, hstack⟩ := Prod.mk.inj hpair
  have hstep : ∀ s choice t, State.nextWorking s choice = some t →
      ((machine exampleTitle exampleSource).restrict (Attends exampleTitle exampleSource)).step
        s choice t := by
    intro s choice t hnext
    unfold State.nextWorking at hnext
    split at hnext
    next hworks => exact ⟨hnext, attends_of_works hworks⟩
    next => cases hnext
  have hplaced : exampleWorld.files (buildTitleLinkPaths exampleTitle).mountLink =
      some exampleSource := by decide +kernel
  have hreachable : Reachable ((machine exampleTitle exampleSource).restrict
      (Attends exampleTitle exampleSource)) s :=
    .foldlM hstep (.start ⟨exampleWorld, hplaced, rfl⟩) hs
  refine ⟨s, hstaged, ?_, cleanup_never_strands (by decide) (by decide +kernel) hreachable⟩
  unfold World.Mounted
  rw [hstack]
  exact List.mem_singleton_self _

/-- The link of the mounted title is staged. -/
def stagedWorld : World where
  files := put (fun _ => none) (buildTitleLinkPaths exampleTitle).stagedMountLink
    (some exampleSource)
  stack := [⟨.nullfs, exampleSource⟩]
  images := fun _ => none

/-- Where `stat` of the missing link fails at the start, the image link of a mounted title is
lost; and where `stat` of the staged link fails, that link is not put back although renames
work. -/
theorem failed_stat_strands :
    (¬∀ (titleId link source : Text) (s : State), titleId.length = 9 →
      readMountLinkFile ReadFaults.none maxPath (some link) = some source →
      Reachable (machine titleId link) s → NotStranded titleId link source s) ∧
    ¬∀ (titleId link : Text) (w w' : World) (result : Bool), titleId.length = 9 →
      w.Survives (buildTitleLinkPaths titleId) link →
      Run (answering RenamesWork) w (Job.staged.program titleId) w' result →
        w'.files (buildTitleLinkPaths titleId).mountLink = some link := by
  constructor
  · intro hclaim
    have hrun : (((interruptedCleanup ++ failedStart).foldlM
        (State.next exampleTitle exampleSource) ⟨exampleWorld, exampleWorld, none⟩).map fun s =>
          (s.origin.stack, s.world.stack,
            s.origin.files (buildTitleLinkPaths exampleTitle).mountImageLink,
            s.world.files (buildTitleLinkPaths exampleTitle).mountImageLink)) =
        some ([⟨.nullfs, exampleSource⟩], [⟨.nullfs, exampleSource⟩],
          some "/data/game.pfs".toList, none) := by decide +kernel
    rcases Option.map_eq_some_iff.mp hrun with ⟨s, hs, hresult⟩
    simp only [Prod.mk.injEq] at hresult
    obtain ⟨horigin, hstack, himage, hlost⟩ := hresult
    have hplaced : exampleWorld.files (buildTitleLinkPaths exampleTitle).mountLink =
        some exampleSource := by decide +kernel
    have hreachable : Reachable (machine exampleTitle exampleSource) s :=
      .foldlM (fun _ _ _ hnext => hnext) (.start ⟨exampleWorld, hplaced, rfl⟩) hs
    have hmounted : s.origin.Mounted exampleSource := by
      unfold World.Mounted
      rw [horigin]
      exact List.mem_singleton_self _
    have hreleased := (hclaim exampleTitle exampleSource exampleSource s (by decide)
      (by decide +kernel) hreachable).released hmounted
    cases hreleased with
    | inl hkept =>
      have hsame := hkept.2 (by decide +kernel)
      rw [himage, hlost] at hsame
      cases hsame
    | inr hempty =>
      rw [hstack] at hempty
      cases hempty
  · intro hclaim
    have hrun : Run (answering RenamesWork) stagedWorld (Job.staged.program exampleTitle)
        stagedWorld true :=
      Run.call ⟨⟨true, EIO, ReadFaults.none, false⟩, nofun, rfl⟩ (Run.done _ _)
    have hrestored := hclaim exampleTitle exampleSource stagedWorld stagedWorld true (by decide)
      (by decide +kernel) hrun
    have hmissing : stagedWorld.files (buildTitleLinkPaths exampleTitle).mountLink = none := by
      decide +kernel
    rw [hmissing] at hrestored
    cases hrestored

end Interrupted

end ShadowMount.LinkCleanup
