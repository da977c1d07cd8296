import ShadowMount.PackageInstall.Model

/-!
# Package installation - The history of the polling loop

The variables of the loop sum up the rounds before: whether the system was seen to work on the
replacement of a base, the size of the last complete transfer, and whether any size was seen at
all.  The invariant says what rounds each of them stands for; one lemma tells what a turn does to
it, another what a turn has seen that ends the loop with success.
-/

namespace ShadowMount.PackageInstall

open StorageJob

variable {t : Task} {s s' : Poll} {r : Round} {earlier : List Round} {ctx ctx' : Context}
variable {installed : Int}

/-- The fields of the context on which completion depends are the same. -/
structure Context.Agrees (ctx ctx' : Context) : Prop where
  nativeProgress : ctx'.nativeProgress = ctx.nativeProgress
  server : ctx'.server = ctx.server

theorem Context.Agrees.refl (ctx : Context) : ctx.Agrees ctx := ⟨rfl, rfl⟩

theorem Context.Agrees.trans {ctx'' : Context} (h : ctx.Agrees ctx') (h' : ctx'.Agrees ctx'') :
    ctx.Agrees ctx'' :=
  ⟨h'.nativeProgress.trans h.nativeProgress, h'.server.trans h.server⟩

theorem packageInstallCancelled_agrees (ctx : Context) (look : Look) :
    ctx.Agrees (packageInstallCancelled ctx look).1 := by
  have hstream : ctx.Agrees (ctx.checkStream look) := by
    unfold Context.checkStream
    split <;> exact ⟨rfl, rfl⟩
  have hsource : ∀ ctx : Context, ctx.Agrees (ctx.checkSource look) := by
    intro ctx
    unfold Context.checkSource
    split <;> exact ⟨rfl, rfl⟩
  have hserver : ∀ ctx : Context, ctx.Agrees (ctx.checkServer look) := by
    intro ctx
    unfold Context.checkServer
    dsimp only
    split
    · split <;> exact ⟨rfl, rfl⟩
    · exact ⟨rfl, rfl⟩
  have hactivity : ∀ ctx : Context, ctx.Agrees (ctx.checkActivity look) := by
    intro ctx
    unfold Context.checkActivity
    split <;> exact ⟨rfl, rfl⟩
  exact ((hstream.trans (hsource _)).trans (hserver _)).trans (hactivity _)

theorem waitLooks_agrees (looks : List Look) (ctx : Context) :
    ctx.Agrees (waitLooks ctx looks).1 := by
  induction looks generalizing ctx with
  | nil => exact Context.Agrees.refl ctx
  | cons look rest ih =>
    have hlook := packageInstallCancelled_agrees ctx look
    unfold waitLooks
    dsimp only
    split
    · exact hlook
    · exact hlook.trans (ih _)

theorem publishPackageProgress_agrees (ctx : Context) (total bytes now : Nat) :
    ctx.Agrees (publishPackageProgress ctx total bytes now) := by
  unfold publishPackageProgress
  dsimp only
  repeat' split
  all_goals exact ⟨rfl, rfl⟩

/-- The variables of the loop that sum up the rounds are the same. -/
structure Poll.Agrees (s s' : Poll) : Prop where
  ctx : s.ctx.Agrees s'.ctx
  replacementObserved : s'.replacementObserved = s.replacementObserved
  patchCompletedTotal : s'.patchCompletedTotal = s.patchCompletedTotal

theorem Poll.Agrees.trans {s'' : Poll} (h : s.Agrees s') (h' : s'.Agrees s'') : s.Agrees s'' :=
  ⟨h.ctx.trans h'.ctx, h'.replacementObserved.trans h.replacementObserved,
    h'.patchCompletedTotal.trans h.patchCompletedTotal⟩

theorem Poll.openWindow_agrees (s : Poll) (r : Round) : s.Agrees (s.openWindow r) := by
  unfold Poll.openWindow
  split <;> exact ⟨Context.Agrees.refl _, rfl, rfl⟩

/-- A turn goes on with the same variables, or it ends, and with success only if something
holds. -/
def Turn.Goes (s : Poll) (P : Prop) : Turn → Prop
  | .again s' => s.Agrees s'
  | .ended _ status => status = none → P

theorem Turn.Goes.of_agrees {turn : Turn} {P Q : Prop} (h : turn.Goes s' P) (hs : s.Agrees s')
    (hPQ : P → Q) : turn.Goes s Q := by
  cases turn with
  | again s'' => exact hs.trans h
  | ended ctx status => exact fun hstatus => hPQ (h hstatus)

/-- A turn that waits completes nothing. -/
theorem waitTurn_goes (s : Poll) (r : Round) : (waitTurn s r).Goes s False := by
  have hagrees := waitLooks_agrees (List.ofFn r.waits) s.ctx
  unfold waitTurn waitForPackagePoll
  split
  next ctx heq =>
    rw [heq] at hagrees
    exact ⟨hagrees, rfl, rfl⟩
  next => exact nofun

theorem waitTask_goes (s : Poll) (r : Round) : (waitTask s r).Goes s False := by
  unfold waitTask
  split
  · exact nofun
  · split
    · exact nofun
    · exact waitTurn_goes s r

/-- A round has shown the replacement of a base. -/
def Task.ShowsReplacement (t : Task) (r : Round) : Prop :=
  (t.report r).isNone = false ∧ t.replaces (t.report r).toNativeStatus = true

/-- A round has a record with a size. -/
def Task.HasSize (t : Task) (r : Round) : Prop :=
  (t.report r).isNone = false ∧ (t.report r).sized = true

/-- A round of the list has shown a complete transfer, and no later one an incomplete transfer of
another size. -/
def Task.Transferred (t : Task) (earlier : List Round) (total : Nat) : Prop :=
  ∃ before r after, earlier = before ++ r :: after ∧ t.HasSize r ∧ (t.report r).total = total ∧
    (t.report r).total ≤ (t.report r).downloaded ∧
    ∀ r' ∈ after, t.HasSize r' → (t.report r').downloaded < (t.report r').total →
      (t.report r').total = total

/-- What the variables of the loop stand for. -/
structure Recalls (t : Task) (earlier : List Round) (s : Poll) : Prop where
  unrelated : t.type ≠ nativePatch → s.patchCompletedTotal = 0
  replaced : s.replacementObserved = true → ∃ r ∈ earlier, t.ShowsReplacement r
  transferred : s.patchCompletedTotal ≠ 0 → t.Transferred earlier s.patchCompletedTotal
  unsized : t.shared = false → s.ctx.nativeProgress = false → ∀ r ∈ earlier, ¬ t.HasSize r

theorem Recalls.agrees (h : Recalls t earlier s) (hs : s.Agrees s') : Recalls t earlier s' where
  unrelated htype := hs.patchCompletedTotal.trans (h.unrelated htype)
  replaced hobserved := h.replaced (hs.replacementObserved ▸ hobserved)
  transferred htotal := by
    rw [hs.patchCompletedTotal] at htotal ⊢
    exact h.transferred htotal
  unsized hshared hprogress := h.unsized hshared (hs.ctx.nativeProgress ▸ hprogress)

/-- A full transfer is still one after a further report. -/
theorem Task.Transferred.concat {total : Nat} (h : t.Transferred earlier total)
    (hr : t.HasSize r → (t.report r).downloaded < (t.report r).total →
      (t.report r).total = total) : t.Transferred (earlier ++ [r]) total := by
  obtain ⟨before, full, after, rfl, hsize, htotal, hfull, hafter⟩ := h
  refine ⟨before, full, after ++ [r], by simp, hsize, htotal, hfull, fun r' hr' => ?_⟩
  rcases List.mem_append.mp hr' with hr' | hr'
  · exact hafter r' hr'
  · rw [List.mem_singleton.mp hr']
    exact hr

theorem Task.HasSize.transferred (h : t.HasSize r)
    (hfull : (t.report r).total ≤ (t.report r).downloaded) :
    t.Transferred (earlier ++ [r]) (t.report r).total := by
  refine ⟨earlier, r, [], rfl, h, rfl, hfull, fun r' hr' => ?_⟩
  cases hr'

/-- The history grows by a round that adds nothing to the variables. -/
theorem Recalls.concat (h : Recalls t earlier s)
    (htransferred : s.patchCompletedTotal ≠ 0 → t.HasSize r →
      (t.report r).downloaded < (t.report r).total → (t.report r).total = s.patchCompletedTotal)
    (hunsized : t.shared = false → s.ctx.nativeProgress = false → ¬ t.HasSize r) :
    Recalls t (earlier ++ [r]) s := by
  refine ⟨h.unrelated, ?_, ?_, ?_⟩
  · intro hobserved
    obtain ⟨r', hr', hshows⟩ := h.replaced hobserved
    exact ⟨r', List.mem_append_left _ hr', hshows⟩
  · intro htotal
    exact (h.transferred htotal).concat (htransferred htotal)
  · intro hshared hprogress r' hr'
    rcases List.mem_append.mp hr' with hr' | hr'
    · exact h.unsized hshared hprogress r' hr'
    · rw [List.mem_singleton.mp hr']
      exact hunsized hshared hprogress

/-- A round without a record. -/
theorem Recalls.missing (h : Recalls t earlier s) (hnone : (t.report r).isNone = true) :
    Recalls t (earlier ++ [r]) s := by
  have hsize : ¬ t.HasSize r := by
    intro hsize
    rw [hsize.1] at hnone
    cases hnone
  exact h.concat (fun _ hsized => absurd hsized hsize) fun _ _ => hsize

theorem Recalls.unreplaced (h : Recalls t earlier s) (hshared : t.shared = true) :
    Recalls t (earlier ++ [r]) s := by
  have htotal : s.patchCompletedTotal = 0 := by
    simp only [Task.shared, Bool.and_eq_true, decide_eq_true_eq] at hshared
    apply h.unrelated
    rw [hshared.2]
    decide
  apply h.concat
  · exact fun hne => absurd htotal hne
  · intro hother
    rw [hshared] at hother
    cases hother

theorem Recalls.observe (h : Recalls t earlier s) (hseen : ∃ r ∈ earlier, t.ShowsReplacement r) :
    Recalls t earlier { s with replacementObserved := true } :=
  ⟨h.unrelated, fun _ => hseen, h.transferred, h.unsized⟩

/-- The noted sizes are those of the reports. -/
theorem Recalls.noteSizes (h : Recalls t earlier s) (hpresent : (t.report r).isNone = false) :
    Recalls t (earlier ++ [r]) (noteSizes t s r) := by
  unfold PackageInstall.noteSizes
  dsimp only
  split
  next hsized =>
    have hsize : t.HasSize r := ⟨hpresent, hsized⟩
    have hprogress := (publishPackageProgress_agrees { s.ctx with nativeProgress := true }
      (t.report r).total (t.report r).downloaded r.progressUs).nativeProgress
    refine ⟨?_, ?_, ?_, ?_⟩
    · intro htype
      dsimp only
      rw [if_neg htype]
      exact h.unrelated htype
    · intro hobserved
      obtain ⟨r', hr', hshows⟩ := h.replaced hobserved
      exact ⟨r', List.mem_append_left _ hr', hshows⟩
    · dsimp only
      split
      next =>
        split
        next hfull =>
          exact fun _ => hsize.transferred hfull
        next hpartial =>
          split
          next => exact fun hne => absurd rfl hne
          next hsame =>
            intro htotal
            apply (h.transferred htotal).concat
            intro _ _
            exact (not_not.mp hsame).symm
      next htype =>
        intro hne
        exact absurd (h.unrelated htype) hne
    · intro _ hfalse
      exact nomatch hprogress.symm.trans hfalse
  next hunsized =>
    have hsize : ¬ t.HasSize r := fun hsize => hunsized hsize.2
    exact h.concat (fun _ hsized => absurd hsized hsize) fun _ _ => hsize

/-- What a turn that reaches its end may complete on. -/
theorem pollEnd_goes (t : Task) (s : Poll) (r : Round) (installed : Int) :
    (pollEnd t s r installed).Goes s (completed t s.ctx r = true ∧
      (t.type = nativeAddcont → installed = addcontInstalled)) := by
  unfold pollEnd
  split
  next => exact (waitTask_goes _ r).of_agrees (s.openWindow_agrees r) False.elim
  next hconfirmed =>
    dsimp only
    split
    next hcompleted =>
      intro _
      refine ⟨hcompleted, fun htype => ?_⟩
      by_contra hmissing
      exact hconfirmed ⟨hcompleted, htype, hmissing⟩
    next =>
      have hreset : s.Agrees { s with taskStartDeadlineUs := 0 } :=
        ⟨Context.Agrees.refl _, rfl, rfl⟩
      exact (waitTurn_goes _ r).of_agrees hreset False.elim

/-- What a turn without a task may complete on. -/
theorem pollMissing_goes (t : Task) (s : Poll) (r : Round) (installed : Int) :
    (pollMissing t s r installed).Goes s
      ((t.type = nativeAddcont ∧ installed = addcontInstalled) ∨
        (t.type = nativePatch ∧ s.patchCompletedTotal ≠ 0 ∧ r.installReport.failed = false ∧
          t.patchRetired r = true)) := by
  have hwait : ∀ P, (waitTask (s.openWindow r) r).Goes s P := fun P =>
    (waitTask_goes _ r).of_agrees (s.openWindow_agrees r) False.elim
  unfold pollMissing
  split
  next haddcont => exact fun _ => Or.inl haddcont
  next =>
    split
    next hpatch =>
      split
      next => exact nofun
      next hgeneral =>
        split
        next hretired =>
          intro _
          exact Or.inr ⟨hpatch.1, hpatch.2, by simpa using hgeneral, hretired⟩
        next => exact hwait _
    next => exact hwait _

theorem Task.installed_spec (h : t.installed r = .ok installed)
    (hinstalled : installed = addcontInstalled) :
    r.addcontResult = 0 ∧ r.addcontStatus = addcontInstalled := by
  have hzero : (0 : Int) ≠ addcontInstalled := by decide
  unfold Task.installed at h
  dsimp only at h
  split at h
  next =>
    split at h
    next =>
      cases h
      exact absurd hinstalled hzero
    next =>
      split at h
      next => cases h
      next hresult =>
        cases h
        exact ⟨not_not.mp hresult, hinstalled⟩
  next =>
    cases h
    exact absurd hinstalled hzero

/-- What the rounds of a loop have been that ends with success in its last round. -/
structure Completes (t : Task) (earlier : List Round) (last : Round) : Prop where
  noError : (t.report last).failed = false
  addcont : t.type = nativeAddcont →
    last.addcontResult = 0 ∧ last.addcontStatus = addcontInstalled
  replaced : t.shared = true → ∃ r ∈ earlier ++ [last], t.ShowsReplacement r
  missing : (t.report last).isNone = true → t.type ≠ nativeAddcont →
    t.type = nativePatch ∧ (∃ total, t.Transferred earlier total) ∧
      last.installReport.failed = false ∧ t.patchRetired last = true
  present : (t.report last).isNone = false →
    (t.report last).copied = true ∧ ((t.report last).isCompleted = true ∨
      ((t.report last).isPlayable = true ∧
        ((t.HasSize last ∧ (t.report last).total ≤ (t.report last).downloaded) ∨
          (t.info.pkgKind = .base ∧ (∀ r ∈ earlier ++ [last], ¬ t.HasSize r) ∧
            last.served = true))))

/-- When the poll completes the task. -/
theorem Recalls.completes (h : Recalls t (earlier ++ [r]) s)
    (hnoError : (t.report r).failed = false) (hpresent : (t.report r).isNone = false)
    (hinstalled : t.installed r = .ok installed)
    (hobserved : t.shared = true → s.replacementObserved = true)
    (hcompleted : completed t s.ctx r = true)
    (haddcont : t.type = nativeAddcont → installed = addcontInstalled) : Completes t earlier r := by
  refine ⟨hnoError, fun htype => Task.installed_spec hinstalled (haddcont htype),
    fun hshared => h.replaced (hobserved hshared), fun hnone => ?_, fun _ => ?_⟩
  · rw [hpresent] at hnone
    cases hnone
  · unfold completed at hcompleted
    simp only [Bool.and_eq_true, Bool.or_eq_true] at hcompleted
    obtain ⟨hcopied, hstate⟩ := hcompleted
    refine ⟨hcopied, hstate.imp_right fun hplayable => ⟨hplayable.1, ?_⟩⟩
    have hdownloaded := hplayable.2
    unfold downloaded at hdownloaded
    dsimp only at hdownloaded
    split at hdownloaded
    next hsized => exact Or.inl ⟨⟨hpresent, hsized⟩, by simpa using hdownloaded⟩
    next =>
      simp only [Bool.and_eq_true, decide_eq_true_eq, Bool.not_eq_true'] at hdownloaded
      obtain ⟨⟨⟨hkind, hprogress⟩, -⟩, hserved⟩ := hdownloaded
      have hshared : t.shared = false := by simp [Task.shared, hkind]
      exact Or.inr ⟨hkind, h.unsized hshared hprogress, hserved⟩

/-- What a turn does to the invariant, and what it has seen when it ends the loop. -/
def Turn.Follows (t : Task) (earlier : List Round) (r : Round) : Turn → Prop
  | .again s => Recalls t (earlier ++ [r]) s
  | .ended _ status => status = none → Completes t earlier r

/-- A turn that goes its way keeps what is recalled. -/
theorem Recalls.follows {turn : Turn} {P : Prop} (h : Recalls t (earlier ++ [r]) s)
    (hturn : turn.Goes s P) (hP : P → Completes t earlier r) : turn.Follows t earlier r := by
  cases turn with
  | again s' => exact h.agrees hturn
  | ended ctx status => exact fun hstatus => hP (hturn hstatus)

/-- A poll of a task that is present. -/
theorem pollPresent_follows (h : Recalls t earlier s) (hnoError : (t.report r).failed = false)
    (hpresent : (t.report r).isNone = false) (hinstalled : t.installed r = .ok installed) :
    (pollPresent t s r installed).Follows t earlier r := by
  unfold pollPresent
  split
  next hshared =>
    split
    next hreplaces =>
      have hnoted := (h.noteSizes hpresent).observe
        ⟨r, List.mem_append_right _ List.mem_cons_self, hpresent, hreplaces⟩
      have hsame : PackageInstall.noteSizes t { s with replacementObserved := true } r =
          { PackageInstall.noteSizes t s r with replacementObserved := true } := by
        unfold PackageInstall.noteSizes
        dsimp only
        split <;> rfl
      rw [hsame]
      refine hnoted.follows (pollEnd_goes t _ r installed) ?_
      rintro ⟨hcompleted, haddcont⟩
      exact hnoted.completes hnoError hpresent hinstalled (fun _ => rfl) hcompleted haddcont
    next => exact (h.unreplaced hshared.1).follows (waitTask_goes s r) False.elim
  next hknown =>
    have hnoted := h.noteSizes hpresent
    refine hnoted.follows (pollEnd_goes t _ r installed) ?_
    rintro ⟨hcompleted, haddcont⟩
    refine hnoted.completes hnoError hpresent hinstalled ?_ hcompleted haddcont
    intro hshared
    have hobserved : s.replacementObserved = true := by
      by_contra hnot
      exact hknown ⟨hshared, by simpa using hnot⟩
    unfold PackageInstall.noteSizes
    dsimp only
    split <;> exact hobserved

/-- What one turn does to the invariant, and what it has seen when it ends the loop. -/
theorem pollTurn_follows (h : Recalls t earlier s) (r : Round) :
    (pollTurn t s r).Follows t earlier r := by
  have hagrees := packageInstallCancelled_agrees s.ctx r.look
  unfold pollTurn
  dsimp only
  split
  next => exact nofun
  next =>
    split
    next => exact nofun
    next hfailed =>
      have hnoError : (t.report r).failed = false := by simpa using hfailed
      have hnow : Recalls t earlier { s with ctx := (packageInstallCancelled s.ctx r.look).1 } :=
        h.agrees ⟨hagrees, rfl, rfl⟩
      split
      next => exact nofun
      next =>
        split
        next => exact nofun
        next installed hinstalled =>
          split
          next hnone =>
            refine (hnow.missing hnone).follows (pollMissing_goes t _ r installed) ?_
            intro hended
            refine ⟨hnoError, fun htype => ?_, fun hshared => ?_, fun _ htype => ?_,
              fun hpresent => ?_⟩
            · rcases hended with haddcont | hpatch
              · exact Task.installed_spec hinstalled haddcont.2
              · exact absurd (htype.symm.trans hpatch.1) (by decide)
            · simp only [Task.shared, Bool.and_eq_true, decide_eq_true_eq] at hshared
              rcases hended with haddcont | hpatch
              · exact absurd (hshared.2.symm.trans haddcont.1) (by decide)
              · exact absurd (hshared.2.symm.trans hpatch.1) (by decide)
            · obtain ⟨hpatch, htotal, hgeneral, hretired⟩ :=
                hended.resolve_left fun haddcont => htype haddcont.1
              exact ⟨hpatch, ⟨_, hnow.transferred htotal⟩, hgeneral, hretired⟩
            · rw [hnone] at hpresent
              cases hpresent
          next hpresent =>
            exact pollPresent_follows hnow hnoError (by simpa using hpresent) hinstalled

/-- A loop that ends with success has completed in one of its rounds, after the earlier ones. -/
theorem pollLoop_completes {rounds : List Round} :
    ∀ {earlier : List Round} {s : Poll}, Recalls t earlier s →
      pollLoop t s rounds = some (ctx, none) →
      ∃ more last later, rounds = more ++ last :: later ∧ Completes t (earlier ++ more) last := by
  induction rounds with
  | nil =>
    intro earlier s _ hloop
    cases hloop
  | cons r rest ih =>
    intro earlier s h hloop
    have hturn := pollTurn_follows h r
    unfold pollLoop at hloop
    split at hloop
    next s' hagain =>
      rw [hagain] at hturn
      obtain ⟨more, last, later, rfl, hcompletes⟩ := ih hturn hloop
      exact ⟨r :: more, last, later, rfl, by simpa using hcompletes⟩
    next ctx' status hended =>
      rw [hended] at hturn
      cases hloop
      exact ⟨[], r, rest, rfl, by simpa using hturn rfl⟩

end ShadowMount.PackageInstall
