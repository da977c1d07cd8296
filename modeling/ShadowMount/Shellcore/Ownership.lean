import ShadowMount.Shellcore.Service

/-!
# ShellCore service - launch ownership invariant

The record names up to two owners and at most one title being released.  This
file proves the invariant that ties them together over every interleaving of the
locked sections, including the failure and rollback paths.

Main results:

- Theorem {lit}`ServiceInvariant.claim` and its siblings: each locked section
  keeps the invariant of the record.
-/

namespace ShadowMount.Shellcore

open Foundation

variable {t : Text} {s : Service} {slot : OwnerSlot}

/-- The invariant of the shared record. -/
structure ServiceInvariant (s : Service) : Prop where
  named : ∀ slot, (s.owner slot).titleId = [] ∨
    isSupportedGameTitleId (s.owner slot).titleId = true
  distinct : s.prepared.titleId ≠ [] → s.prepared.titleId ≠ s.outgoing.titleId
  releasing_not_live : s.releasingTitleId ≠ [] → ∀ slot,
    (s.owner slot).titleId = s.releasingTitleId → ¬(s.owner slot).Live
  exclusive : ¬(s.externalMutationInProgress = true ∧ s.prepareInProgress = true)

/-- The invariant of the system: the record, and the one release body that the
record names. -/
structure Ownership (s : State) : Prop extends ServiceInvariant s.service where
  release_named : ∀ t ∈ s.releases, t ≠ []
  release_recorded : ∀ t ∈ s.releases, strlcpy maxTitleId t = s.service.releasingTitleId
  one_release : s.releases.length ≤ 1

theorem strlcpy_supported (h : isSupportedGameTitleId t = true) : strlcpy maxTitleId t = t := by
  have hlen : t.length = 9 := by
    simp only [isSupportedGameTitleId, Bool.and_eq_true, decide_eq_true_eq] at h
    exact h.1.1.1
  simp only [strlcpy, maxTitleId]
  exact List.take_of_length_le (by omega)

theorem eq_of_strlcpy_supported {u : Text} (h : isSupportedGameTitleId u = true)
    (heq : strlcpy maxTitleId t = u) : t = u := by
  have hlen : u.length = 9 := by
    simp only [isSupportedGameTitleId, Bool.and_eq_true, decide_eq_true_eq] at h
    exact h.1.1.1
  simp only [strlcpy, maxTitleId] at heq
  have htake := congrArg List.length heq
  rw [List.length_take, hlen] at htake
  rw [← heq]
  exact (List.take_of_length_le (by omega)).symm

theorem strlcpy_ne_nil (h : t ≠ []) : strlcpy maxTitleId t ≠ [] := by
  cases t with
  | nil => exact absurd rfl h
  | cons ch t => simp [strlcpy, maxTitleId]

/-- An owner matches the title it names. -/
theorem mountOwnerMatches_iff {o : MountOwner} :
    mountOwnerMatches o t = true ↔ o.titleId ≠ [] ∧ o.titleId = t := by
  simp [mountOwnerMatches]

theorem findMountOwner_eq_some (h : findMountOwner s t = some slot) :
    (s.owner slot).titleId ≠ [] ∧ (s.owner slot).titleId = t := by
  unfold findMountOwner at h
  split at h
  · rename_i hmatch
    cases h
    exact mountOwnerMatches_iff.mp hmatch
  · split at h
    · rename_i hmatch
      cases h
      exact mountOwnerMatches_iff.mp hmatch
    · cases h

/-- An owner of a named title is the one that is found, because the two owners
have different names. -/
theorem findMountOwner_of_owner (h : ServiceInvariant s) (hne : (s.owner slot).titleId ≠ []) :
    findMountOwner s (s.owner slot).titleId = some slot := by
  cases slot with
  | prepared =>
    simp only [Service.owner] at hne ⊢
    simp [findMountOwner, mountOwnerMatches, hne]
  | outgoing =>
    simp only [Service.owner] at hne ⊢
    have hprepared : mountOwnerMatches s.prepared s.outgoing.titleId = false := by
      by_contra hmatch
      rw [Bool.not_eq_false, mountOwnerMatches_iff] at hmatch
      exact h.distinct hmatch.1 hmatch.2
    have houtgoing : mountOwnerMatches s.outgoing s.outgoing.titleId = true :=
      mountOwnerMatches_iff.mpr ⟨hne, rfl⟩
    simp [findMountOwner, hprepared, houtgoing]

/-- Replacing the two owners by others that inherit their names and their
liveness, under the same releasing title. -/
theorem ServiceInvariant.replace {s' : Service} (h : ServiceInvariant s)
    (hnamed : ∀ slot, (s'.owner slot).titleId = [] ∨
      isSupportedGameTitleId (s'.owner slot).titleId = true)
    (hdistinct : s'.prepared.titleId ≠ [] → s'.prepared.titleId ≠ s'.outgoing.titleId)
    (hreleasing : s'.releasingTitleId = s.releasingTitleId)
    (hlive : ∀ slot, (s'.owner slot).Live → s.releasingTitleId ≠ [] →
      (s'.owner slot).titleId = s.releasingTitleId →
      ∃ slot', (s.owner slot').Live ∧ (s.owner slot').titleId = s.releasingTitleId)
    (hexclusive : ¬(s'.externalMutationInProgress = true ∧ s'.prepareInProgress = true)) :
    ServiceInvariant s' where
  named := hnamed
  distinct := hdistinct
  releasing_not_live := by
    intro hne slot hslot hslotlive
    rw [hreleasing] at hne hslot
    obtain ⟨slot', hlive', hname'⟩ := hlive slot hslotlive hne hslot
    exact h.releasing_not_live hne slot' hname' hlive'
  exclusive := hexclusive

theorem ServiceInvariant.flags {s' : Service} (h : ServiceInvariant s)
    (hprepared : s'.prepared = s.prepared) (houtgoing : s'.outgoing = s.outgoing)
    (hreleasing : s'.releasingTitleId = s.releasingTitleId)
    (hexclusive : ¬(s'.externalMutationInProgress = true ∧ s'.prepareInProgress = true)) :
    ServiceInvariant s' := by
  have howner : ∀ slot, s'.owner slot = s.owner slot := by
    intro slot
    cases slot with
    | prepared => exact hprepared
    | outgoing => exact houtgoing
  refine h.replace ?_ ?_ hreleasing ?_ hexclusive
  · intro slot
    rw [howner]
    exact h.named slot
  · rw [hprepared, houtgoing]
    exact h.distinct
  · intro slot hslot hne hname
    rw [howner] at hslot hname
    exact ⟨slot, hslot, hname⟩

theorem serviceInvariant_initial : ServiceInvariant Service.initial where
  named slot := by cases slot <;> exact .inl rfl
  distinct h := absurd rfl h
  releasing_not_live h := absurd rfl h
  exclusive := by simp [Service.initial]

@[simp]
theorem not_live_zero : ¬MountOwner.zero.Live := by
  simp [MountOwner.Live, MountOwner.zero]

@[simp]
theorem not_live_setMountOwner (t : Text) : ¬(setMountOwner t).Live := by
  simp [MountOwner.Live, setMountOwner, MountOwner.zero]

/-- A title is claimed. -/
theorem ServiceInvariant.claim (h : ServiceInvariant s) {titleId : Text}
    (hsupported : isSupportedGameTitleId titleId = true) (launchRequest : Bool) :
    ServiceInvariant (claimPreparedTitle s titleId launchRequest).1 := by
  have hcopy := strlcpy_supported hsupported
  unfold claimPreparedTitle
  split
  · exact h
  · rename_i hbusy
    simp only [Bool.or_eq_true, decide_eq_true_eq, not_or, Bool.not_eq_true] at hbusy
    obtain ⟨⟨-, hexternal⟩, -⟩ := hbusy
    split
    · rename_i hempty
      split
      · rename_i hmatch
        obtain ⟨hne, -⟩ := mountOwnerMatches_iff.mp hmatch
        split
        · exact h
        · -- the outgoing owner moves back to the prepared slot
          refine h.replace ?_ ?_ rfl ?_ (by simp [hexternal])
          · intro slot
            cases slot with
            | prepared => exact h.named .outgoing
            | outgoing => exact .inl rfl
          · intro _
            exact hne
          · intro slot hlive _ hname
            cases slot with
            | prepared => exact ⟨.outgoing, hlive, hname⟩
            | outgoing => exact absurd hlive not_live_zero
      · rename_i hmatch
        refine h.replace ?_ ?_ rfl ?_ (by simp [hexternal])
        · intro slot
          cases slot with
          | prepared => exact .inr (by simpa [Service.owner, setMountOwner, hcopy])
          | outgoing => exact h.named .outgoing
        · intro _ heq
          simp only [setMountOwner, hcopy] at heq
          refine hmatch (mountOwnerMatches_iff.mpr ⟨?_, heq.symm⟩)
          rw [← heq]
          intro hnil
          rw [hnil] at hsupported
          exact absurd hsupported (by decide)
        · intro slot hlive _ hname
          cases slot with
          | prepared => exact absurd hlive (not_live_setMountOwner _)
          | outgoing => exact ⟨.outgoing, hlive, hname⟩
    · rename_i hnonempty
      split
      · rename_i hmatch
        split
        · exact h
        · -- a game switch: the prepared owner becomes the outgoing one
          refine h.replace ?_ ?_ rfl ?_ (by simp [hexternal])
          · intro slot
            cases slot with
            | prepared => exact .inr (by simpa [Service.owner, setMountOwner, hcopy])
            | outgoing => exact h.named .prepared
          · intro _ heq
            simp only [setMountOwner, hcopy] at heq
            simp only [Bool.not_eq_true'] at hmatch
            have hmatched := mountOwnerMatches_iff.mpr ⟨hnonempty, heq.symm⟩
            rw [hmatch] at hmatched
            cases hmatched
          · intro slot hlive _ hname
            cases slot with
            | prepared => exact absurd hlive (not_live_setMountOwner _)
            | outgoing => exact ⟨.prepared, hlive, hname⟩
      · split
        · exact h
        · exact h.flags rfl rfl rfl (by simp [hexternal])

/-- The end of a preparation keeps the owners. -/
theorem ServiceInvariant.finish {s : Service} (h : ServiceInvariant s) (titleId : Text)
    (cancelLaunch : Bool) : ServiceInvariant (finishPreparedTitle s titleId cancelLaunch) := by
  unfold finishPreparedTitle
  split
  · exact h.flags rfl rfl rfl (by simp)
  · exact h

/-- A rollback gives the slot back. -/
theorem ServiceInvariant.rollback (h : ServiceInvariant s) (titleId : Text) :
    ServiceInvariant (rollbackPreparedTitle s titleId) := by
  unfold rollbackPreparedTitle
  split
  · split
    · rename_i hne
      refine h.replace ?_ ?_ rfl ?_ (by simp)
      · intro slot
        cases slot with
        | prepared => exact h.named .outgoing
        | outgoing => exact .inl rfl
      · intro _
        exact hne
      · intro slot hlive _ hname
        cases slot with
        | prepared => exact ⟨.outgoing, hlive, hname⟩
        | outgoing => exact absurd hlive not_live_zero
    · refine h.replace ?_ ?_ rfl ?_ (by simp)
      · intro slot
        cases slot with
        | prepared => exact .inl rfl
        | outgoing => exact h.named .outgoing
      · intro hne
        exact absurd rfl hne
      · intro slot hlive _ hname
        cases slot with
        | prepared => exact absurd hlive not_live_zero
        | outgoing => exact ⟨.outgoing, hlive, hname⟩
  · exact h

/-- An owner may be cleared. -/
theorem ServiceInvariant.clearOwned (h : ServiceInvariant s) (titleId : Text) :
    ServiceInvariant (clearOwnedTitle s titleId) := by
  unfold clearOwnedTitle
  split
  · exact h
  · refine h.replace ?_ ?_ rfl ?_ (by simp)
    · intro slot
      cases slot with
      | prepared => exact .inl rfl
      | outgoing => exact h.named .outgoing
    · intro hne
      exact absurd rfl hne
    · intro slot hlive _ hname
      cases slot with
      | prepared => exact absurd hlive not_live_zero
      | outgoing => exact ⟨.outgoing, hlive, hname⟩
  · refine h.replace ?_ ?_ rfl ?_ h.exclusive
    · intro slot
      cases slot with
      | prepared => exact h.named .prepared
      | outgoing => exact .inl rfl
    · intro hne
      exact hne
    · intro slot hlive _ hname
      cases slot with
      | prepared => exact ⟨.prepared, hlive, hname⟩
      | outgoing => exact absurd hlive not_live_zero

/-- A release that is not blocked finds no live owner. -/
theorem not_live_of_not_releaseBlocked {titleId : Text} {publicRequest : Bool}
    {expected : Option MountOwner} {activeGame : Bool}
    (hblocked : releaseBlocked s titleId publicRequest expected activeGame = false)
    (hslot : findMountOwner s titleId = some slot) : ¬(s.owner slot).Live := by
  intro hlive
  simp only [releaseBlocked, hslot, Bool.or_eq_false_iff] at hblocked
  obtain ⟨⟨⟨⟨⟨⟨⟨⟨hinternal, hsuperseded⟩, -⟩, -⟩, -⟩, -⟩, -⟩, hpublic⟩, -⟩ := hblocked
  have hdecide : decide (s.owner slot).Live = true := by simpa using hlive
  cases expected with
  | some expected =>
    -- only an exited owner matches the exit snapshot
    simp only [releaseSuperseded, hslot, Bool.or_eq_false_iff, Bool.not_eq_eq_eq_not,
      Bool.not_false] at hsuperseded
    have hexited := hsuperseded.1.1.1.1.1
    rw [hlive.2] at hexited
    cases hexited
  | none =>
    cases publicRequest with
    | true => simp [hdecide] at hpublic
    | false => simp [hdecide] at hinternal

/-- A release begins. -/
theorem ServiceInvariant.beginRelease (h : ServiceInvariant s) (titleId : Text)
    (publicRequest : Bool) (expected : Option MountOwner) (activeGame : Bool) :
    ServiceInvariant
      (beginRuntimeRelease s titleId publicRequest expected activeGame).1 := by
  unfold beginRuntimeRelease
  split
  · exact h
  · rename_i hblocked
    refine ⟨h.named, h.distinct, ?_, h.exclusive⟩
    intro hne slot hname hlive
    -- an owner carries a supported name, so the copied title is the title itself
    have hname' : (s.owner slot).titleId = strlcpy maxTitleId titleId := hname
    rcases h.named slot with hempty | hsupported
    · exact hne (by rw [← hname', hempty])
    · have htitle : titleId = (s.owner slot).titleId :=
        eq_of_strlcpy_supported hsupported hname'.symm
      have hslot : findMountOwner s titleId = some slot := by
        rw [htitle]
        refine findMountOwner_of_owner h ?_
        rw [hname']
        exact hne
      exact not_live_of_not_releaseBlocked (by simpa using hblocked) hslot hlive

theorem ServiceInvariant.endRelease (h : ServiceInvariant s) (titleId : Text) :
    ServiceInvariant (endRuntimeRelease s titleId) := by
  unfold endRuntimeRelease
  split
  · exact ⟨h.named, h.distinct, fun hne => absurd rfl hne, h.exclusive⟩
  · exact h

/-- Rewriting one owner under its own name keeps the invariant, unless it comes
to life while its title is being released. -/
theorem ServiceInvariant.setOwner (h : ServiceInvariant s) (slot : OwnerSlot) {o : MountOwner}
    (hname : o.titleId = (s.owner slot).titleId)
    (hlive : o.Live → (s.owner slot).Live ∨ s.releasingTitleId ≠ o.titleId) :
    ServiceInvariant (s.setOwner slot o) := by
  have hnames : ∀ slot', ((s.setOwner slot o).owner slot').titleId =
      (s.owner slot').titleId := by
    intro slot'
    cases slot <;> cases slot' <;> first | exact hname | rfl
  refine h.replace ?_ ?_ ?_ ?_ ?_
  · intro slot'
    rw [hnames]
    exact h.named slot'
  · have hprepared := hnames .prepared
    have houtgoing := hnames .outgoing
    simp only [Service.owner] at hprepared houtgoing
    rw [hprepared, houtgoing]
    exact h.distinct
  · cases slot <;> rfl
  · intro slot' hslot _ htitle
    by_cases hsame : slot' = slot
    · subst hsame
      have howner : (s.setOwner slot' o).owner slot' = o := by
        cases slot' <;> rfl
      rw [howner] at hslot htitle
      rcases hlive hslot with hold | hother
      · exact ⟨slot', hold, by rw [← hname]; exact htitle⟩
      · exact absurd htitle.symm hother
    · have howner : (s.setOwner slot o).owner slot' = s.owner slot' := by
        cases slot <;> cases slot' <;> first | rfl | exact absurd rfl hsame
      rw [howner] at hslot htitle
      exact ⟨slot', hslot, htitle⟩
  · cases slot <;> exact h.exclusive

/-- A process is bound. -/
theorem ServiceInvariant.bind (h : ServiceInvariant s) (titleId : Text) (appId : Nat) (pid : Int)
    (managed : Bool) : ServiceInvariant (bindPreparedApp s titleId appId pid managed).1 := by
  unfold bindPreparedApp
  split
  · exact h
  · simp only
    split
    · exact h
    · rename_i hguard
      simp only [Bool.or_eq_true, decide_eq_true_eq, not_or] at hguard
      cases hslot : findMountOwner s titleId with
      | none =>
        simp only
        split
        · exact h.flags rfl rfl rfl h.exclusive
        · exact h
      | some slot =>
        obtain ⟨-, hname⟩ := findMountOwner_eq_some hslot
        have hset : ServiceInvariant (s.setOwner slot
            { s.owner slot with appId := appId, pid := pid, gameExited := false,
                                exitTimeUs := 0 }) :=
          h.setOwner _ rfl (fun _ => .inr (by rw [hname]; exact hguard.1))
        simp only
        cases slot with
        | prepared =>
          simp only [if_true]
          split <;> exact hset.flags rfl rfl rfl (by simp)
        | outgoing =>
          simp only [reduceCtorEq, if_false]
          split
          · exact hset.flags rfl rfl rfl hset.exclusive
          · exact hset

theorem not_live_markExited (o : MountOwner) (exitTimeUs now : Nat) :
    ¬(markExited o exitTimeUs now).Live := by
  simp [MountOwner.Live, markExited]

/-- An exit marks the owner of its process. -/
theorem ServiceInvariant.gameExit (h : ServiceInvariant s) (pid : Int) (exitTimeUs now : Nat) :
    ServiceInvariant (noteGameExit s pid exitTimeUs now).1 := by
  unfold noteGameExit
  split
  · exact h
  · split
    · split
      · exact h
      · refine h.setOwner .outgoing rfl ?_
        exact fun hlive => absurd hlive (not_live_markExited _ _ _)
    · split
      · split
        · exact h
        · refine h.setOwner .prepared rfl ?_
          exact fun hlive => absurd hlive (not_live_markExited _ _ _)
      · exact h

theorem ServiceInvariant.launchRequest (h : ServiceInvariant s) (titleId : Text) :
    ServiceInvariant (noteLaunchRequest s titleId) := by
  unfold noteLaunchRequest
  split
  · split
    · have hset : ServiceInvariant (s.setOwner .prepared
          { s.prepared with sandboxReadyHandled := false }) :=
        h.setOwner _ rfl (fun hlive => .inl hlive)
      exact hset.flags rfl rfl rfl h.exclusive
    · exact h.flags rfl rfl rfl h.exclusive
  · exact h.flags rfl rfl rfl h.exclusive

theorem ServiceInvariant.launchRejected (h : ServiceInvariant s) (titleId : Text) :
    ServiceInvariant (noteLaunchRejected s titleId) := by
  unfold noteLaunchRejected
  split
  · exact h.flags rfl rfl rfl h.exclusive
  · exact h

theorem ServiceInvariant.launchFailed (h : ServiceInvariant s) (titleId : Text) :
    ServiceInvariant (noteLaunchFailed s titleId) := by
  unfold noteLaunchFailed
  split
  · exact h
  · exact h.flags rfl rfl rfl h.exclusive

theorem ServiceInvariant.sandboxReady (h : ServiceInvariant s) (titleId : Text) :
    ServiceInvariant (noteSandboxReady s titleId) := by
  have hmark : ∀ s : Service, ServiceInvariant s →
      ServiceInvariant (markSandboxReady s titleId) := by
    intro s hs
    unfold markSandboxReady
    split
    · exact hs
    · exact hs.setOwner _ rfl (fun hlive => .inl hlive)
  unfold noteSandboxReady
  refine hmark _ ?_
  split
  · exact h.flags rfl rfl rfl h.exclusive
  · exact h

/-- A mutation begins while nothing is prepared. -/
theorem ServiceInvariant.beginExternal (h : ServiceInvariant s) :
    ServiceInvariant (tryBeginExternalMutation s).1 := by
  unfold tryBeginExternalMutation
  split
  · rename_i havailable
    simp only [launchPreparationPending, Bool.and_eq_true, Bool.not_eq_eq_eq_not,
      Bool.not_true, Bool.or_eq_false_iff] at havailable
    exact h.flags rfl rfl rfl (by simp [havailable.1.2.1.1])
  · exact h

theorem ServiceInvariant.endExternal (h : ServiceInvariant s) :
    ServiceInvariant (endExternalMutation s) :=
  h.flags rfl rfl rfl (by simp [endExternalMutation])

theorem releasingTitleId_bind (s : Service) (titleId : Text) (appId : Nat) (pid : Int)
    (managed : Bool) :
    (bindPreparedApp s titleId appId pid managed).1.releasingTitleId =
      s.releasingTitleId := by
  unfold bindPreparedApp
  split
  · rfl
  · simp only
    split
    · rfl
    · cases findMountOwner s titleId with
      | none =>
        simp only
        split <;> rfl
      | some slot => cases slot <;> simp only [reduceCtorEq, if_true, if_false] <;> split <;> rfl

theorem releasingTitleId_sandboxReady (s : Service) (titleId : Text) :
    (noteSandboxReady s titleId).releasingTitleId = s.releasingTitleId := by
  have hmark : ∀ s : Service,
      (markSandboxReady s titleId).releasingTitleId = s.releasingTitleId := by
    intro s
    unfold markSandboxReady
    split
    · rfl
    · rename_i slot _
      cases slot <;> rfl
  unfold noteSandboxReady
  rw [hmark]
  split <;> rfl

/-- Is the step one of the two release sections? -/
def Step.isRelease : Step → Bool
  | .beginRelease _ _ _ _ | .endRelease _ => true
  | _ => false

/-- Every other section leaves the release bodies and the name of the title being
released alone. -/
theorem next_release (s : State) {i : Step} (hi : i.isRelease = false) :
    (next s i).releases = s.releases ∧
      (next s i).service.releasingTitleId = s.service.releasingTitleId := by
  cases i with
  | beginRelease titleId publicRequest expected activeGame => cases hi
  | endRelease titleId => cases hi
  | claim titleId launchRequest =>
    simp only [next]
    split
    · refine ⟨rfl, ?_⟩
      simp only [claimPreparedTitle]
      repeat' split
      all_goals rfl
    · exact ⟨rfl, rfl⟩
  | bind titleId appId pid managed => exact ⟨rfl, releasingTitleId_bind _ _ _ _ _⟩
  | sandboxReady titleId => exact ⟨rfl, releasingTitleId_sandboxReady _ _⟩
  | launchRequest titleId =>
    refine ⟨rfl, ?_⟩
    simp only [next, noteLaunchRequest]
    split <;> rfl
  | launchRejected titleId =>
    refine ⟨rfl, ?_⟩
    simp only [next, noteLaunchRejected]
    split <;> rfl
  | finish titleId cancelLaunch =>
    refine ⟨rfl, ?_⟩
    simp only [next, finishPreparedTitle]
    split <;> rfl
  | rollback titleId =>
    refine ⟨rfl, ?_⟩
    simp only [next, rollbackPreparedTitle]
    repeat' split
    all_goals rfl
  | clearOwned titleId =>
    refine ⟨rfl, ?_⟩
    simp only [next, clearOwnedTitle]
    split <;> rfl
  | gameExit pid exitTimeUs now =>
    refine ⟨rfl, ?_⟩
    simp only [next, noteGameExit]
    repeat' split
    all_goals rfl
  | launchFailed titleId =>
    refine ⟨rfl, ?_⟩
    simp only [next, noteLaunchFailed]
    split <;> rfl
  | beginExternal =>
    refine ⟨rfl, ?_⟩
    simp only [next, tryBeginExternalMutation]
    split <;> rfl
  | endExternal => exact ⟨rfl, rfl⟩

/-- One step keeps the invariant. -/
theorem ServiceInvariant.next {s : State} (h : ServiceInvariant s.service) (i : Step) :
    ServiceInvariant (next s i).service := by
  cases i with
  | launchRequest titleId => exact h.launchRequest titleId
  | launchRejected titleId => exact h.launchRejected titleId
  | claim titleId launchRequest =>
    simp only [Shellcore.next]
    split
    · rename_i hsupported
      exact h.claim hsupported launchRequest
    · exact h
  | finish titleId cancelLaunch => exact h.finish titleId cancelLaunch
  | rollback titleId => exact h.rollback titleId
  | clearOwned titleId => exact h.clearOwned titleId
  | beginRelease titleId publicRequest expected activeGame =>
    have hbegin := h.beginRelease titleId publicRequest expected activeGame
    simp only [Shellcore.next]
    split
    · exact h
    · split <;> rename_i hresult
      · rw [hresult] at hbegin
        exact hbegin
      · exact h
  | endRelease titleId =>
    simp only [Shellcore.next]
    split
    · exact h.endRelease titleId
    · exact h
  | bind titleId appId pid managed => exact h.bind titleId appId pid managed
  | gameExit pid exitTimeUs now => exact h.gameExit pid exitTimeUs now
  | launchFailed titleId => exact h.launchFailed titleId
  | sandboxReady titleId => exact h.sandboxReady titleId
  | beginExternal => exact h.beginExternal
  | endExternal => exact h.endExternal

/-- One step keeps the invariant of the system. -/
theorem Ownership.next {s : State} (h : Ownership s) (i : Step) :
    Ownership (next s i) := by
  have hservice := h.toServiceInvariant.next i
  by_cases hi : i.isRelease = false
  · obtain ⟨hreleases, htitle⟩ := next_release s hi
    refine ⟨hservice, ?_, ?_, ?_⟩
    · rw [hreleases]
      exact h.release_named
    · rw [hreleases, htitle]
      exact h.release_recorded
    · rw [hreleases]
      exact h.one_release
  · cases i with
    | beginRelease titleId publicRequest expected activeGame =>
      refine ⟨hservice, ?_, ?_, ?_⟩ <;> simp only [Shellcore.next] <;> split
      · exact h.release_named
      · rename_i hne
        split
        · intro t ht
          rcases List.mem_cons.mp ht with rfl | ht
          · exact hne
          · exact h.release_named t ht
        · exact h.release_named
      · exact h.release_recorded
      · rename_i hne
        split <;> rename_i hresult
        · simp only [beginRuntimeRelease] at hresult
          split at hresult <;> rename_i hblocked
          · cases hresult
          · cases hresult
            have hidle : s.service.releasingTitleId = [] := by
              simp only [releaseBlocked, Bool.or_eq_true, not_or] at hblocked
              simpa using hblocked.1.1.1.1.1.2
            intro t ht
            rcases List.mem_cons.mp ht with rfl | ht
            · rfl
            · exact absurd ((h.release_recorded t ht).trans hidle)
                (strlcpy_ne_nil (h.release_named t ht))
        · exact h.release_recorded
      · exact h.one_release
      · split <;> rename_i hresult
        · simp only [beginRuntimeRelease] at hresult
          split at hresult <;> rename_i hblocked
          · cases hresult
          · have hidle : s.service.releasingTitleId = [] := by
              simp only [releaseBlocked, Bool.or_eq_true, not_or] at hblocked
              simpa using hblocked.1.1.1.1.1.2
            have hnone : s.releases = [] := by
              refine List.eq_nil_iff_forall_not_mem.mpr (fun t ht => ?_)
              exact strlcpy_ne_nil (h.release_named t ht)
                ((h.release_recorded t ht).trans hidle)
            simp [hnone]
        · exact h.one_release
    | endRelease titleId =>
      simp only [Shellcore.next] at hservice ⊢
      split
      · rename_i hmem
        rw [if_pos hmem] at hservice
        -- the body that ends is the only one
        have hnone : s.releases.erase titleId = [] := by
          have hlen := List.length_erase_of_mem hmem
          have hone := h.one_release
          exact List.length_eq_zero_iff.mp (by omega)
        refine ⟨hservice, ?_, ?_, ?_⟩ <;> simp [hnone]
      · exact h
    | _ => exact absurd rfl hi

theorem ownership_initial : Ownership State.initial where
  toServiceInvariant := serviceInvariant_initial
  release_named := by simp [State.initial]
  release_recorded := by simp [State.initial]
  one_release := by simp [State.initial]

/-- The invariant holds in every reachable state. -/
theorem reachable_ownership {s : State} (hs : Reachable launchSystem s) : Ownership s := by
  refine hs.invariant ?_ ?_
  · rintro s rfl
    exact ownership_initial
  · rintro s i t h rfl
    exact h.next i

/-- Over every interleaving of the locked sections, from the initial state: the
prepared and the outgoing owner never name the same title, at most one title is
being released and it is the one the record names, no owner of a title being
released is bound to a live process, and an external mutation never overlaps a
preparation in progress. -/
theorem launch_ownership (s : State) (hs : Reachable launchSystem s) :
    (s.service.prepared.titleId ≠ [] →
        s.service.prepared.titleId ≠ s.service.outgoing.titleId) ∧
      s.releases.length ≤ 1 ∧
      (∀ t ∈ s.releases, strlcpy maxTitleId t = s.service.releasingTitleId) ∧
      (∀ t ∈ s.releases, ∀ slot, (s.service.owner slot).titleId = t →
        ¬(s.service.owner slot).Live) ∧
      (s.service.releasingTitleId ≠ [] → ∀ slot,
        (s.service.owner slot).titleId = s.service.releasingTitleId →
        ¬(s.service.owner slot).Live) ∧
      ¬(s.service.externalMutationInProgress = true ∧
        s.service.prepareInProgress = true) := by
  have hinv := reachable_ownership hs
  refine ⟨hinv.distinct, hinv.one_release, hinv.release_recorded, ?_,
    hinv.releasing_not_live, hinv.exclusive⟩
  intro t ht slot hname
  have hrecorded := hinv.release_recorded t ht
  have hnamed := hinv.release_named t ht
  rcases hinv.named slot with hempty | hsupported
  · exact absurd (hname.symm.trans hempty) hnamed
  · refine hinv.releasing_not_live ?_ slot ?_
    · rw [← hrecorded]
      exact strlcpy_ne_nil hnamed
    · rw [← hrecorded, hname, strlcpy_supported (hname ▸ hsupported)]

/-- A reachable state in which a title was claimed and prepared, its launch failed,
and its release is still running. -/
theorem launch_ownership_during_release :
    let title := "PPSA13197".toList
    let s := [.claim title true, .finish title false, .launchFailed title,
      .beginRelease title false none false].foldl next State.initial
    s.releases = [title] ∧ ¬(s.service.owner .prepared).Live := by
  intro title s
  have hreleases : s.releases = [title] := by decide
  have hinv := launch_ownership s (.foldl _)
  exact ⟨hreleases, hinv.2.2.2.1 title (by simp [hreleases]) .prepared (by decide)⟩

end ShadowMount.Shellcore
