import ShadowMount.PackageInstall.Polling

/-!
# Package installation - Completion and cancelling

An installation that ends with success has been confirmed by the system: the last report names no
error, and it says either that the package is complete or, for a patch whose record is gone, the
patch file itself does.  A record that the package shares with an installed base counts only when
it has been seen to change.  {lit}`sceAppInstUtilCancelInstall`, which would remove a base, is
called only for a base that was not installed before.

A size above {lit}`INT64_MAX` and one in a missing record are no sizes, and a package that names
no version is content with any.

Main results:

- Theorem {lit}`completion_confirmed`: what an installation that succeeds has seen, and when a
  content is cancelled.
- Theorem {lit}`completion_not_as_expected`: the limits of it.
-/

namespace ShadowMount.PackageInstall

open StorageJob

variable {a : Attempt} {info : Pkg.Info} {ctx ctx' : Context} {status : Option Failure}

theorem Attempt.parsed_of_prepare (h : a.prepare ctx = (ctx', .ok info)) : a.parsed = .ok info := by
  unfold Attempt.prepare at h
  dsimp only at h
  split at h
  · cases h
  · split at h
    · cases h
    · split at h
      · cases h
      · exact congrArg Prod.snd h

theorem packageKind_base {parsed : Pkg.Info} {baseInstalled pkgInstalled : Bool}
    (h : packageKind parsed baseInstalled pkgInstalled = .ok info) (hkind : info.pkgKind = .base) :
    info = parsed ∧ pkgInstalled = false := by
  unfold packageKind at h
  split at h
  next =>
    split at h
    next =>
      cases h
      cases hkind
    next => cases h
  next hnew =>
    split at h
    next => cases h
    next =>
      cases h
      exact ⟨rfl, by simpa [hkind] using hnew⟩

theorem Attempt.kind_of_submit {parsed : Pkg.Info} (h : a.submit ctx parsed = (ctx', info, none)) :
    packageKind parsed a.baseInstalled a.pkgInstalled = .ok info := by
  unfold Attempt.submit at h
  split at h
  next => cases h
  next kind hkind =>
    split at h
    next => cases h
    next =>
      split at h
      next => cases h
      next =>
        dsimp only at h
        split at h
        next => cases h
        next =>
          split at h
          next => cases h
          next =>
            obtain ⟨-, rfl, -⟩ := Prod.mk.inj h |>.imp_right Prod.mk.inj
            exact hkind

theorem Attempt.finish_status (submitted done : Bool) :
    (a.finish ctx info submitted done status).status = none ↔ status = none := by
  cases status with
  | none => exact Iff.rfl
  | some e => exact iff_of_false nofun nofun

/-- When a task is cancelled at the end. -/
theorem Attempt.finish_cancel {submitted done : Bool} {id : Text}
    (h : (a.finish ctx info submitted done status).cancelInstall = some id) :
    status ≠ none ∧ submitted = true ∧ info.pkgKind = .base ∧ id = info.contentId ∧
      (done = true → a.submission.result = 0 ∧ a.submission.type = nativeBase ∧
        a.submission.contentId = info.contentId) := by
  cases status with
  | none => cases h
  | some e =>
    unfold Attempt.finish at h
    dsimp only at h
    split at h
    next hcancel =>
      simp only [Bool.and_eq_true, decide_eq_true_eq] at hcancel
      obtain ⟨⟨hsubmitted, hkind⟩, hbase⟩ := hcancel
      refine ⟨nofun, hsubmitted, hkind, (Option.some.inj h).symm, fun hdone => ?_⟩
      simp only [Attempt.cancelBase, hdone, Bool.not_true, Bool.false_or, Bool.and_eq_true,
        decide_eq_true_eq] at hbase
      exact ⟨hbase.1.1.1, hbase.1.1.2, hbase.2⟩
    next => cases h

/-- A package file is there that is what the package makes of it, and for an update another one
than before. -/
def FileInstalled (info : Pkg.Info) (before : Snapshot) (file : Candidate) : Prop :=
  ∃ current installed, snapshotFile file.found = .ok current ∧ file.parsed = some installed ∧
    sourceMatches installed current = true ∧
    (info.pkgKind = .patch → fileChanged before current = true) ∧
    installed.titleId = info.titleId ∧ installed.contentId = info.contentId ∧
    (info.appVer ≠ [] → installed.appVer = info.appVer)

theorem candidateInstalled_spec {before before' : Snapshot} {file : Candidate}
    (h : candidateInstalled info before file = true)
    (hbefore : info.pkgKind = .patch → before = before') : FileInstalled info before' file := by
  unfold candidateInstalled at h
  split at h
  next => cases h
  next current hcurrent =>
    rw [Bool.and_eq_true] at h
    obtain ⟨hchanged, hparsed⟩ := h
    split at hparsed
    next => cases hparsed
    next installed hinstalled =>
      simp only [sameContent, Bool.and_eq_true, Bool.or_eq_true, decide_eq_true_eq] at hparsed
      obtain ⟨⟨hsource, ⟨⟨⟨-, htitle⟩, hcontent⟩, hversion⟩⟩, -⟩ := hparsed
      refine ⟨current, installed, hcurrent, hinstalled, hsource, fun hkind => ?_, htitle, hcontent,
        fun hnamed => hversion.resolve_left hnamed⟩
      rw [← hbefore hkind]
      exact hchanged

/-- What an installation that succeeds has seen in the rounds of its polling loop: the earlier ones
and the last. -/
structure Completed (a : Attempt) (info : Pkg.Info) (earlier : List Round) (last : Round) :
    Prop where
  noError : ((a.task info).report last).failed = false
  addcont : a.submission.type = nativeAddcont →
    last.addcontResult = 0 ∧ last.addcontStatus = addcontInstalled
  /-- A record that is shared with the base has been seen to change. -/
  replaced : info.pkgKind ≠ .base → a.submission.type = nativeBase →
    ∃ r ∈ earlier ++ [last], r.installReport.isNone = false ∧
      (r.installReport.terminal = false ∨
        ((a.previousReport.result = 0 ∧ a.previousReport.errorCode = 0 ∧
            a.previousReport.terminal = true) ∧
          (r.installReport.total ≠ a.previousReport.total ∨
            r.installReport.downloaded ≠ a.previousReport.downloaded ∨
            r.installReport.patchVersion ≠ a.previousReport.patchVersion)))
  /-- A missing record is that of an add-on or of a patch whose transfer was complete. -/
  missing : ((a.task info).report last).isNone = true → a.submission.type ≠ nativeAddcont →
    a.submission.type = nativePatch ∧ (∃ total, (a.task info).Transferred earlier total) ∧
      last.installReport.failed = false ∧ last.installReport.terminal = true ∧
      last.installReport.copied = true ∧
      (FileInstalled info (snapshotFile a.previousFiles.1) last.files.1 ∨
        FileInstalled info (snapshotFile a.previousFiles.2) last.files.2)
  /-- A record that is there tells of a complete package. -/
  present : ((a.task info).report last).isNone = false →
    ((a.task info).report last).copied = true ∧
      (((a.task info).report last).isCompleted = true ∨
        (((a.task info).report last).isPlayable = true ∧
          (((a.task info).HasSize last ∧
              ((a.task info).report last).total ≤ ((a.task info).report last).downloaded) ∨
            (info.pkgKind = .base ∧ (∀ r ∈ earlier ++ [last], ¬ (a.task info).HasSize r) ∧
              last.served = true))))

/-- A completed task was reported so. -/
theorem Completes.completed {earlier : List Round} {last : Round}
    (h : Completes (a.task info) earlier last) : Completed a info earlier last := by
  refine ⟨h.noError, h.addcont, fun hkind htype => ?_, fun hnone htype => ?_, h.present⟩
  · have hshared : (a.task info).shared = true := by
      simp [Task.shared, Attempt.task, hkind, htype]
    obtain ⟨r, hr, hpresent, hreplaces⟩ := h.replaced hshared
    have hreport : (a.task info).report r = r.installReport := by
      unfold Task.report
      rw [if_neg]
      intro hpatch
      exact absurd (htype.symm.trans hpatch) (by decide)
    rw [hreport] at hpresent hreplaces
    refine ⟨r, hr, hpresent, ?_⟩
    simpa [Task.replaces, Attempt.task, hkind, and_assoc, or_assoc] using hreplaces
  · obtain ⟨hpatch, htotal, hgeneral, hretired⟩ := h.missing hnone htype
    refine ⟨hpatch, htotal, hgeneral, ?_⟩
    simp only [Task.patchRetired, Bool.and_eq_true, packagePatchResultInstalled, List.any_cons,
      List.any_nil, Bool.or_false, Bool.or_eq_true] at hretired
    obtain ⟨⟨hterminal, hcopied⟩, hfile⟩ := hretired
    refine ⟨hterminal, hcopied, hfile.imp (fun hfile => ?_) fun hfile => ?_⟩
    · apply candidateInstalled_spec hfile
      exact fun hkind => congrArg Prod.fst (if_pos hkind)
    · apply candidateInstalled_spec hfile
      exact fun hkind => congrArg Prod.snd (if_pos hkind)

theorem recalls_start (t : Task) (ctx : Context) (deadline : Nat) :
    Recalls t [] ⟨ctx, false, 0, deadline⟩ :=
  ⟨fun _ => rfl, nofun, fun hne => absurd rfl hne, fun _ _ _ hr => absurd hr List.not_mem_nil⟩

/-- An installation that succeeds has been completed in one of the rounds of its loop, and has not
cancelled anything.  What is cancelled is a base that was not installed before, of which the
submission is still running or has become the task of a base. -/
theorem completion_confirmed (a : Attempt) (activityUs : Nat) (server stream : Bool)
    (rounds : List Round) (f : Finished)
    (h : packageInstall a (Context.initial activityUs server stream) rounds = some f) :
    (f.status = none → f.cancelInstall = none ∧ ∃ parsed info earlier last later,
      a.parsed = .ok parsed ∧ packageKind parsed a.baseInstalled a.pkgInstalled = .ok info ∧
        rounds = earlier ++ last :: later ∧ Completed a info earlier last) ∧
    ∀ id, f.cancelInstall = some id → f.status ≠ none ∧ ∃ parsed, a.parsed = .ok parsed ∧
      parsed.pkgKind = .base ∧ a.pkgInstalled = false ∧ id = parsed.contentId ∧
        ((a.doneLate = false ∧ ∃ ctx e, (waitLooks ctx a.waits).2 = some e) ∨
          (a.submission.result = 0 ∧ a.submission.type = nativeBase ∧
            a.submission.contentId = parsed.contentId)) := by
  unfold packageInstall at h
  -- An installation that fails before its loop.
  have hfails : ∀ ctx info submitted done e, f = a.finish ctx info submitted done (some e) →
      f.status ≠ none := by
    rintro ctx info submitted done e rfl
    exact nofun
  have hrefused : ∀ ctx info e, f = a.finish ctx info false false (some e) →
      ∀ id, f.cancelInstall ≠ some id := by
    rintro ctx info e rfl id hcancel
    exact nomatch (Attempt.finish_cancel hcancel).2.1
  split at h
  next ctx e heq =>
    have hf := (Option.some.inj h).symm
    exact ⟨fun hnone => absurd hnone (hfails _ _ _ _ _ hf),
      fun id hid => absurd hid (hrefused _ _ _ hf id)⟩
  next ctx parsed heq =>
    have hparsed := Attempt.parsed_of_prepare heq
    split at h
    next =>
      have hf := (Option.some.inj h).symm
      exact ⟨fun hnone => absurd hnone (hfails _ _ _ _ _ hf),
        fun id hid => absurd hid (hrefused _ _ _ hf id)⟩
    next ctx₁ info hsubmit =>
      have hkind := Attempt.kind_of_submit hsubmit
      -- Whatever is cancelled now is the base that was submitted.
      have hcancelled : ∀ ctx done status id,
          f = a.finish ctx info true done status → f.cancelInstall = some id →
            (done = false → a.doneLate = false ∧ ∃ ctx e, (waitLooks ctx a.waits).2 = some e) →
            f.status ≠ none ∧ ∃ parsed, a.parsed = .ok parsed ∧ parsed.pkgKind = .base ∧
              a.pkgInstalled = false ∧ id = parsed.contentId ∧
              ((a.doneLate = false ∧ ∃ ctx e, (waitLooks ctx a.waits).2 = some e) ∨
                (a.submission.result = 0 ∧ a.submission.type = nativeBase ∧
                  a.submission.contentId = parsed.contentId)) := by
        rintro ctx done status id rfl hcancel hrunning
        obtain ⟨hstatus, -, hbase, hid, hdone⟩ := Attempt.finish_cancel hcancel
        obtain ⟨rfl, hnew⟩ := packageKind_base hkind hbase
        refine ⟨mt (Attempt.finish_status true done).mp hstatus, info, hparsed, hbase, hnew,
          hid, ?_⟩
        cases done with
        | false => exact Or.inl (hrunning rfl)
        | true => exact Or.inr (hdone rfl)
      split at h
      next ctx₂ e hwait =>
        have hf := (Option.some.inj h).symm
        refine ⟨fun hnone => absurd hnone (hfails _ _ _ _ _ hf), fun id hid => ?_⟩
        refine hcancelled _ _ _ id hf hid fun hlate => ⟨hlate, ctx₁, e, ?_⟩
        rw [hwait]
      next ctx₂ hwait =>
        split at h
        next =>
          have hf := (Option.some.inj h).symm
          exact ⟨fun hnone => absurd hnone (hfails _ _ _ _ _ hf),
            fun id hid => hcancelled _ _ _ id hf hid nofun⟩
        next =>
          split at h
          next =>
            have hf := (Option.some.inj h).symm
            exact ⟨fun hnone => absurd hnone (hfails _ _ _ _ _ hf),
              fun id hid => hcancelled _ _ _ id hf hid nofun⟩
          next =>
            obtain ⟨⟨ctx₃, status⟩, hloop, hf⟩ := Option.map_eq_some_iff.mp h
            refine ⟨fun hnone => ?_, fun id hid => hcancelled _ _ _ id hf.symm hid nofun⟩
            subst hf
            obtain rfl := (Attempt.finish_status true true).mp hnone
            obtain ⟨earlier, last, later, hrounds, hcompletes⟩ :=
              pollLoop_completes (recalls_start _ _ _) hloop
            exact ⟨rfl, parsed, info, earlier, last, later, hparsed, hkind, hrounds,
              hcompletes.completed⟩

/-- Nothing has happened. -/
def quietLook : Look where
  now := 1
  streamStatus := none
  sourceMatches := true
  bytesServed := 0
  lastRequestUs := 0
  cancelRequested := false
  stopRequested := false
  sleeping := false

/-- A file of 1000 bytes. -/
def sampleStat : FileStat where
  size := 1000
  device := 1
  inode := 7
  ctime := 50
  mtime := 50
  mtimeNs := 0
  ctimeNs := 0
  regular := true

/-- A package of a kind, with the version that it names. -/
def samplePackage (kind : PkgKind) (version : Text) : Pkg.Info :=
  { infoOfStat sampleStat with
    titleId := "PPSA00001".toList
    contentId := "EP0001-PPSA00001_00-0000000000000000".toList
    appVer := version
    pkgKind := kind }

def sampleReport (status : String) (size transferred : Nat) : Report where
  status := status.toList
  downloaded := transferred
  total := size
  errorCode := 0
  patchVersion := []
  localCopyPercent := 0
  copyOnly := false
  result := 0

/-- An installation at which nothing goes wrong before its loop. -/
def sampleAttempt (package : Pkg.Info) (type : Int) : Attempt where
  blocked := false
  blockedLate := false
  firstLook := quietLook
  scannerHeld := true
  shellcoreHeld := true
  scannerTries := []
  shellcoreBegins := true
  parsed := .ok package
  source := "/data/game.pkg".toList
  resolved := "/data/game.pkg".toList
  token := "0123456789abcdef".toList
  host := "127.0.0.1".toList
  port := 9090
  baseInstalled := true
  pkgInstalled := false
  titleProtected := false
  serverStatus := none
  look := quietLook
  previousReport := sampleReport "playable" 0 0
  previousFiles := (.error (.errno .ENOENT), .error (.errno .ENOENT))
  threadStatus := none
  waits := []
  submission := ⟨0, package.contentId, type⟩
  doneLate := true
  startUs := 1
  endLook := quietLook

/-- A round with a report on the task, one on the game, and the patch file that is found. -/
def sampleRound (report general : Report) (patch : Option Pkg.Info) : Round where
  look := quietLook
  installReport := general
  patchReport := report
  addcontResult := 0
  addcontStatus := 0
  files := (⟨.error (.errno .ENOENT), none, none⟩,
    match patch with
    | some installed => ⟨.ok sampleStat, some installed, some sampleStat⟩
    | none => ⟨.error (.errno .ENOENT), none, none⟩)
  served := true
  now := 1
  progressUs := 1
  waits := fun _ => quietLook

/-- The rounds of an update: the transfer is complete, then the record is gone and the file is
there. -/
def updateRounds (installed : Pkg.Info) : List Round :=
  [sampleRound (sampleReport "installing" 100 100) (sampleReport "playable" 0 0) none,
    sampleRound (sampleReport "none" 0 0) (sampleReport "playable" 0 0) (some installed)]

/-- The update of a game to the version 1.05. -/
theorem completion_confirmed_update :
    packageInstall (sampleAttempt (samplePackage .patch "01.05".toList) nativePatch)
        (Context.initial 1 false false) (updateRounds (samplePackage .patch "01.05".toList)) =
      some ⟨none, none⟩ ∧
    ∃ parsed info earlier last later,
      (sampleAttempt (samplePackage .patch "01.05".toList) nativePatch).parsed = .ok parsed ∧
        packageKind parsed true false = .ok info ∧
        updateRounds (samplePackage .patch "01.05".toList) = earlier ++ last :: later ∧
        Completed (sampleAttempt (samplePackage .patch "01.05".toList) nativePatch) info earlier
          last := by
  have hrun : packageInstall (sampleAttempt (samplePackage .patch "01.05".toList) nativePatch)
      (Context.initial 1 false false) (updateRounds (samplePackage .patch "01.05".toList)) =
        some ⟨none, none⟩ := by
    decide +kernel
  have hconfirmed := completion_confirmed _ 1 false false _ _ hrun
  exact ⟨hrun, (hconfirmed.1 rfl).2⟩

/-- What one would expect of an installation that succeeds if a size counted whatever it is and
wherever it is reported, and if a patch file always had the version of the package. -/
structure Expected (a : Attempt) (info : Pkg.Info) (earlier : List Round) (last : Round) :
    Prop where
  noError : ((a.task info).report last).failed = false
  addcont : a.submission.type = nativeAddcont →
    last.addcontResult = 0 ∧ last.addcontStatus = addcontInstalled
  replaced : info.pkgKind ≠ .base → a.submission.type = nativeBase →
    ∃ r ∈ earlier ++ [last], r.installReport.terminal = false ∨
      (a.task info).generalSnapshot = true ∧
        (r.installReport.total ≠ a.previousReport.total ∨
          r.installReport.downloaded ≠ a.previousReport.downloaded ∨
          r.installReport.patchVersion ≠ a.previousReport.patchVersion)
  retired : a.submission.type = nativePatch → ((a.task info).report last).isNone = true →
    (∃ before r after, earlier = before ++ r :: after ∧ 0 < r.patchReport.total ∧
      r.patchReport.total ≤ r.patchReport.downloaded ∧
      ∀ r' ∈ after, r'.patchReport.downloaded < r'.patchReport.total →
        r'.patchReport.total = r.patchReport.total) ∧
    ∃ file ∈ [(a.previousFiles.1, last.files.1), (a.previousFiles.2, last.files.2)],
      ∃ current installed, snapshotFile file.2.found = .ok current ∧
        file.2.parsed = some installed ∧ fileChanged (snapshotFile file.1) current = true ∧
        installed.titleId = info.titleId ∧ installed.contentId = info.contentId ∧
        installed.appVer = info.appVer
  otherwise : a.submission.type ≠ nativeAddcont →
    (a.submission.type = nativePatch → ((a.task info).report last).isNone = false) →
    ((a.task info).report last).copied = true ∧
      (((a.task info).report last).isCompleted = true ∨
        (((a.task info).report last).isPlayable = true ∧
          ((0 < ((a.task info).report last).total ∧
              ((a.task info).report last).total ≤ ((a.task info).report last).downloaded) ∨
            (info.pkgKind = .base ∧
              (∀ r ∈ earlier ++ [last], ((a.task info).report r).total = 0) ∧
              last.served = true))))

/-- The rounds of a base whose report has a size that is too large. -/
def oversizedRounds : List Round :=
  [sampleRound (sampleReport "none" 0 0) (sampleReport "playable" (2 ^ 63) 0) none]

/-- The rounds of a base of which a size is reported with a missing record only. -/
def missingSizeRounds : List Round :=
  [sampleRound (sampleReport "none" 0 0) (sampleReport "none" 100 0) none,
    sampleRound (sampleReport "none" 0 0) (sampleReport "playable" 0 0) none]

/-- An update that names no version is complete with another version; a base is complete by what
was served of it although a report has named a size above `INT64_MAX`, or a report without
a record has named any. -/
theorem completion_not_as_expected :
    (packageInstall (sampleAttempt (samplePackage .patch []) nativePatch)
        (Context.initial 1 false false) (updateRounds (samplePackage .patch "01.05".toList)) =
        some ⟨none, none⟩ ∧
      ∀ earlier last later,
        updateRounds (samplePackage .patch "01.05".toList) = earlier ++ last :: later →
          ¬ Expected (sampleAttempt (samplePackage .patch []) nativePatch)
            (samplePackage .patch []) earlier last) ∧
    (packageInstall (sampleAttempt (samplePackage .base []) nativeBase)
        (Context.initial 1 true false) oversizedRounds = some ⟨none, none⟩ ∧
      ∀ earlier last later, oversizedRounds = earlier ++ last :: later →
        ¬ Expected (sampleAttempt (samplePackage .base []) nativeBase) (samplePackage .base [])
          earlier last) ∧
    packageInstall (sampleAttempt (samplePackage .base []) nativeBase)
        (Context.initial 1 true false) missingSizeRounds = some ⟨none, none⟩ ∧
      ∀ earlier last later, missingSizeRounds = earlier ++ last :: later →
        ¬ Expected (sampleAttempt (samplePackage .base []) nativeBase) (samplePackage .base [])
          earlier last := by
  refine ⟨⟨by decide +kernel, ?_⟩, ⟨by decide +kernel, ?_⟩, by decide +kernel, ?_⟩
  · intro earlier last later hrounds hexpected
    match earlier, hrounds with
    | [], hrounds =>
      obtain ⟨rfl, -⟩ := List.cons.inj hrounds
      rcases (hexpected.otherwise (by decide) fun _ => by decide +kernel).2 with hstate | hstate
      · exact absurd hstate (by decide +kernel)
      · exact absurd hstate.1 (by decide +kernel)
    | [_], hrounds =>
      obtain ⟨rfl, -⟩ := List.cons.inj (List.cons.inj hrounds).2
      -- The only file that is there has a version, and the package has none.
      obtain ⟨-, file, hfile, current, installed, hfound, hparsed, -, -, -, hversion⟩ :=
        hexpected.retired rfl (by decide +kernel)
      rcases List.mem_cons.mp hfile with rfl | hfile
      · cases hfound
      · rw [List.mem_singleton.mp hfile] at hparsed
        cases hparsed
        exact absurd hversion (by decide +kernel)
    | _ :: _ :: _, hrounds => simp [updateRounds] at hrounds
  · intro earlier last later hrounds hexpected
    match earlier, hrounds with
    | [], hrounds =>
      obtain ⟨rfl, -⟩ := List.cons.inj hrounds
      rcases (hexpected.otherwise (by decide) nofun).2 with hstate | ⟨-, hfull | hserved⟩
      · exact absurd hstate (by decide +kernel)
      · exact absurd hfull.2 (by decide +kernel)
      · exact absurd (hserved.2.1 _ List.mem_cons_self) (by decide +kernel)
    | _ :: _, hrounds => simp [oversizedRounds] at hrounds
  · intro earlier last later hrounds hexpected
    match earlier, hrounds with
    | [], hrounds =>
      obtain ⟨rfl, -⟩ := List.cons.inj hrounds
      rcases (hexpected.otherwise (by decide) nofun).2 with hstate | hstate
      · exact absurd hstate (by decide +kernel)
      · exact absurd hstate.1 (by decide +kernel)
    | [first], hrounds =>
      obtain ⟨rfl, hrest⟩ := List.cons.inj hrounds
      obtain ⟨rfl, -⟩ := List.cons.inj hrest
      rcases (hexpected.otherwise (by decide) nofun).2 with hstate | ⟨-, hfull | hserved⟩
      · exact absurd hstate (by decide +kernel)
      · exact absurd hfull.1 (by decide +kernel)
      · exact absurd (hserved.2.1 _ List.mem_cons_self) (by decide +kernel)
    | _ :: _ :: _, hrounds => simp [missingSizeRounds] at hrounds

end ShadowMount.PackageInstall
