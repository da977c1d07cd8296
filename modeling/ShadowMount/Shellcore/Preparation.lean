import ShadowMount.Shellcore.Ownership

/-!
# ShellCore service - preparations and releases

A preparation is the body of {lit}`mount_managed_title_runtime` between a successful
{lit}`claim_prepared_title` and the {lit}`finish_prepared_title` or
{lit}`rollback_prepared_title` of the same caller.  The record marks it by one flag
that belongs to nobody: binding the application clears it whether or not the
preparation is over.  So the system keeps beside the record the preparations that are
really running, and lets only them finish or roll back.

Main results:

- Theorem {lit}`preparation_excludes_release`: on such runs no title is prepared and
  released at the same time.
-/

namespace ShadowMount.Shellcore

open Foundation

variable {i : Step}

/-- A running preparation: its title, and whether its claim took a new owner slot. -/
structure Preparation where
  titleId : Text
  claimed : Bool
deriving DecidableEq

/-- The launch service and the preparations that are running. -/
structure Activity where
  state : State
  preparing : List Preparation
deriving DecidableEq

def Activity.service (s : Activity) : Service :=
  s.state.service

/-- Is the title being prepared? -/
def Activity.Preparing (s : Activity) (titleId : Text) : Prop :=
  ∃ p ∈ s.preparing, p.titleId = titleId

instance (s : Activity) (titleId : Text) : Decidable (s.Preparing titleId) :=
  inferInstanceAs (Decidable (∃ p ∈ s.preparing, p.titleId = titleId))

/-- One locked section, run by the body it belongs to. -/
inductive Event where
  | claim (titleId : Text) (launchRequest : Bool)
  | endPreparation (p : Preparation) (ready : Bool)
  | clearReleased (titleId : Text)
  | stop
  | other (i : Step)
deriving DecidableEq

/-- The sections that only a preparation or a release may run. -/
def Step.ofBody : Step → Bool
  | .claim _ _ | .finish _ _ | .rollback _ | .clearOwned _ => true
  | _ => false

/-- The section that ends a preparation: a preparation that failed gives back the slot
it took, and one that took none only ends. -/
def Preparation.ending (p : Preparation) (ready : Bool) : Step :=
  if ready then .finish p.titleId false
  else if p.claimed then .rollback p.titleId
  else .finish p.titleId true

/-- One event.  The service is stopped after the threads that prepare and release have
been joined. -/
def Activity.next (s : Activity) : Event → Activity
  | .claim titleId launchRequest =>
    if isSupportedGameTitleId titleId then
      match claimPreparedTitle s.service titleId launchRequest with
      | (service, .ok claimed) =>
        { state := { s.state with service := service }
          preparing := { titleId := titleId, claimed := claimed } :: s.preparing }
      | (_, .error _) => s
    else s
  | .endPreparation p ready =>
    if p ∈ s.preparing then
      { state := Shellcore.next s.state (p.ending ready)
        preparing := s.preparing.erase p }
    else s
  | .clearReleased titleId =>
    if titleId ∈ s.state.releases then
      { s with state := Shellcore.next s.state (.clearOwned titleId) }
    else s
  | .stop =>
    if s.preparing = [] ∧ s.state.releases = [] then { s with state := State.initial }
    else s
  | .other i => if i.ofBody then s else { s with state := Shellcore.next s.state i }

def Activity.initial : Activity where
  state := State.initial
  preparing := []

/-- The launch service under every interleaving of its threads. -/
def activitySystem : System Activity Event :=
  System.ofFunction Activity.initial Activity.next

/-- What a successful claim does: it resumes the outgoing owner, takes the empty slot,
switches games, or repeats the preparation of the prepared owner. -/
theorem claimPreparedTitle_ok {s service : Service} {titleId : Text}
    {launchRequest claimed : Bool}
    (h : claimPreparedTitle s titleId launchRequest = (service, .ok claimed)) :
    s.prepareInProgress = false ∧ s.releasingTitleId ≠ titleId ∧
      service.prepareInProgress = true ∧
      ((claimed = false ∧ s.prepared.titleId = [] ∧ s.outgoing.titleId = titleId ∧
          service.prepared = s.outgoing ∧ service.outgoing = .zero) ∨
        (claimed = true ∧ s.prepared.titleId = [] ∧
          mountOwnerMatches s.outgoing titleId = false ∧
          service.prepared = setMountOwner titleId ∧ service.outgoing = s.outgoing) ∨
        (claimed = true ∧ mountOwnerMatches s.prepared titleId = false ∧
          s.prepared.titleId ≠ [] ∧ s.outgoing.titleId = [] ∧
          service.prepared = setMountOwner titleId ∧ service.outgoing = s.prepared) ∨
        (claimed = false ∧ s.prepared.titleId = titleId ∧
          service.prepared = s.prepared ∧ service.outgoing = s.outgoing)) := by
  unfold claimPreparedTitle at h
  split at h
  · cases (Prod.mk.inj h).2
  · rename_i hbusy
    simp only [Bool.or_eq_true, decide_eq_true_eq, not_or, Bool.not_eq_true] at hbusy
    obtain ⟨⟨hidle, -⟩, hreleasing⟩ := hbusy
    refine ⟨hidle, hreleasing, ?_⟩
    split at h
    · rename_i hempty
      split at h
      · rename_i hmatch
        split at h
        · cases (Prod.mk.inj h).2
        · cases h
          exact ⟨rfl, .inl ⟨rfl, hempty, (mountOwnerMatches_iff.mp hmatch).2, rfl, rfl⟩⟩
      · rename_i hmatch
        cases h
        exact ⟨rfl, .inr (.inl ⟨rfl, hempty, by simpa using hmatch, rfl, rfl⟩)⟩
    · rename_i hnonempty
      split at h
      · rename_i hmatch
        split at h
        · cases (Prod.mk.inj h).2
        · rename_i hswitch
          simp only [Bool.or_eq_true, decide_eq_true_eq, not_or, not_not] at hswitch
          cases h
          exact ⟨rfl, .inr (.inr (.inl
            ⟨rfl, by simpa using hmatch, hnonempty, hswitch.2, rfl, rfl⟩))⟩
      · rename_i hmatch
        split at h
        · cases (Prod.mk.inj h).2
        · cases h
          simp only [Bool.not_eq_true', Bool.not_eq_false] at hmatch
          exact ⟨rfl, .inr (.inr (.inr
            ⟨rfl, (mountOwnerMatches_iff.mp hmatch).2, rfl, rfl⟩))⟩

/-- Every event is a section of the launch system, the restart of its record, or
nothing at all. -/
theorem Activity.next_state (s : Activity) (e : Event) :
    (s.next e).state = s.state ∨ (∃ i, (s.next e).state = Shellcore.next s.state i) ∨
      (s.next e).state = State.initial := by
  cases e with
  | claim titleId launchRequest =>
    simp only [Activity.next]
    split
    · rename_i hsupported
      split
      · rename_i service claimed hclaim
        refine .inr (.inl ⟨.claim titleId launchRequest, ?_⟩)
        simp only [Shellcore.next, if_pos hsupported]
        rw [show s.state.service = s.service from rfl, hclaim]
      · exact .inl rfl
    · exact .inl rfl
  | endPreparation p ready =>
    simp only [Activity.next]
    split
    · exact .inr (.inl ⟨_, rfl⟩)
    · exact .inl rfl
  | clearReleased titleId =>
    simp only [Activity.next]
    split
    · exact .inr (.inl ⟨.clearOwned titleId, rfl⟩)
    · exact .inl rfl
  | stop =>
    simp only [Activity.next]
    split
    · exact .inr (.inr rfl)
    · exact .inl rfl
  | other i =>
    simp only [Activity.next]
    split
    · exact .inl rfl
    · exact .inr (.inl ⟨i, rfl⟩)

variable {s : Activity}

theorem Ownership.activity (h : Ownership s.state) (e : Event) : Ownership (s.next e).state := by
  rcases s.next_state e with hsame | ⟨i, hstep⟩ | hstop
  · rw [hsame]
    exact h
  · rw [hstep]
    exact h.next i
  · rw [hstop]
    exact ownership_initial

/-- Such a section keeps the name of an owner, and its process too, unless it binds the
title of the owner or notes the exit of its process. -/
def OwnerStep (i : Step) (o o' : MountOwner) : Prop :=
  o'.titleId = o.titleId ∧
    ((o'.pid = o.pid ∧ o'.gameExited = o.gameExited) ∨
      (∃ appId pid managed, i = .bind o.titleId appId pid managed ∧ 0 < pid ∧
        o'.pid = pid ∧ o'.gameExited = false) ∨
      (∃ exitTimeUs now, i = .gameExit o.pid exitTimeUs now ∧ o'.gameExited = true))

theorem OwnerStep.same {o o' : MountOwner} (htitle : o'.titleId = o.titleId) (hpid : o'.pid = o.pid)
    (hexited : o'.gameExited = o.gameExited) : OwnerStep i o o' :=
  ⟨htitle, .inl ⟨hpid, hexited⟩⟩

theorem owner_setOwner (s : Service) (slot slot' : OwnerSlot) (o : MountOwner) :
    (s.setOwner slot o).owner slot' = if slot' = slot then o else s.owner slot' := by
  cases slot <;> cases slot' <;> rfl

/-- What binding does: nothing, or it gives the process to the owner that is found,
and ends the preparation if that owner is the prepared one. -/
theorem bindPreparedApp_cases (s : Service) (titleId : Text) (appId : Nat) (pid : Int)
    (managed : Bool) :
    ((∀ slot, (bindPreparedApp s titleId appId pid managed).1.owner slot = s.owner slot) ∧
        (bindPreparedApp s titleId appId pid managed).1.prepareInProgress =
          s.prepareInProgress) ∨
      (0 < pid ∧ ∃ slot, findMountOwner s titleId = some slot ∧
        (∀ slot', (bindPreparedApp s titleId appId pid managed).1.owner slot' =
          if slot' = slot then
            { s.owner slot with appId := appId, pid := pid, gameExited := false,
                                exitTimeUs := 0 }
          else s.owner slot') ∧
        (slot = .outgoing → (bindPreparedApp s titleId appId pid managed).1.prepareInProgress =
          s.prepareInProgress)) := by
  unfold bindPreparedApp
  split
  · exact .inl ⟨fun _ => rfl, rfl⟩
  · rename_i hargs
    simp only [Bool.or_eq_true, decide_eq_true_eq, not_or, Int.not_le] at hargs
    simp only
    split
    · exact .inl ⟨fun _ => rfl, rfl⟩
    · cases hslot : findMountOwner s titleId with
      | none =>
        left
        simp only
        split <;> exact ⟨fun slot => by cases slot <;> rfl, rfl⟩
      | some slot =>
        right
        refine ⟨hargs.2, slot, rfl, ?_, ?_⟩
        · intro slot'
          cases slot <;> simp only [reduceCtorEq, if_true, if_false] <;> split <;>
            cases slot' <;> rfl
        · intro houtgoing
          subst houtgoing
          simp only [reduceCtorEq, if_false]
          split <;> rfl

theorem next_isRelease (s : State) (hi : i.isRelease = true) :
    (∀ slot, (next s i).service.owner slot = s.service.owner slot) ∧
      (next s i).service.prepareInProgress = s.service.prepareInProgress := by
  cases i with
  | beginRelease titleId publicRequest expected activeGame =>
    simp only [next]
    split
    · exact ⟨fun _ => rfl, rfl⟩
    · split <;> rename_i hbegin
      · simp only [beginRuntimeRelease] at hbegin
        split at hbegin
        · cases hbegin
        · cases hbegin
          exact ⟨fun slot => by cases slot <;> rfl, rfl⟩
      · exact ⟨fun _ => rfl, rfl⟩
  | endRelease titleId =>
    simp only [next, endRuntimeRelease]
    repeat' split
    all_goals exact ⟨fun slot => by cases slot <;> rfl, rfl⟩
  | _ => cases hi

theorem markSandboxReady_owner (s : Service) (titleId : Text) (slot : OwnerSlot) :
    ((markSandboxReady s titleId).owner slot).titleId = (s.owner slot).titleId ∧
      ((markSandboxReady s titleId).owner slot).pid = (s.owner slot).pid ∧
      ((markSandboxReady s titleId).owner slot).gameExited = (s.owner slot).gameExited := by
  unfold markSandboxReady
  split
  · exact ⟨rfl, rfl, rfl⟩
  · rename_i slot' _
    rw [owner_setOwner]
    split
    · rename_i hslot
      subst hslot
      exact ⟨rfl, rfl, rfl⟩
    · exact ⟨rfl, rfl, rfl⟩

theorem noteGameExit_owner (s : Service) (pid : Int) (exitTimeUs now : Nat)
    (slot : OwnerSlot) :
    (noteGameExit s pid exitTimeUs now).1.owner slot = s.owner slot ∨
      ((s.owner slot).pid = pid ∧ (noteGameExit s pid exitTimeUs now).1.owner slot =
        markExited (s.owner slot) exitTimeUs now) := by
  unfold noteGameExit
  split
  · exact .inl rfl
  · split
    · rename_i hpid
      split
      · exact .inl rfl
      · cases slot with
        | prepared => exact .inl rfl
        | outgoing => exact .inr ⟨hpid, rfl⟩
    · split
      · rename_i hpid
        split
        · exact .inl rfl
        · cases slot with
          | prepared => exact .inr ⟨hpid, rfl⟩
          | outgoing => exact .inl rfl
      · exact .inl rfl

/-- What a step may do to an owner. -/
theorem next_owner (s : State) (hbody : i.ofBody = false) (slot : OwnerSlot) :
    OwnerStep i (s.service.owner slot) ((next s i).service.owner slot) := by
  cases i with
  | claim titleId launchRequest => cases hbody
  | finish titleId cancelLaunch => cases hbody
  | rollback titleId => cases hbody
  | clearOwned titleId => cases hbody
  | bind titleId appId pid managed =>
    rcases bindPreparedApp_cases s.service titleId appId pid managed with
      ⟨hsame, -⟩ | ⟨hpid, found, hfound, howner, -⟩
    · have hkept := hsame slot
      exact OwnerStep.same (congrArg MountOwner.titleId hkept) (congrArg MountOwner.pid hkept)
        (congrArg MountOwner.gameExited hkept)
    · have hslot := howner slot
      simp only [next]
      rw [hslot]
      split
      · rename_i hsame
        subst hsame
        refine ⟨rfl, .inr (.inl ⟨appId, pid, managed, ?_, hpid, rfl, rfl⟩)⟩
        rw [(findMountOwner_eq_some hfound).2]
      · exact OwnerStep.same rfl rfl rfl
  | launchRequest titleId =>
    simp only [next, noteLaunchRequest]
    repeat' split
    all_goals cases slot <;> exact OwnerStep.same rfl rfl rfl
  | launchRejected titleId =>
    simp only [next, noteLaunchRejected]
    split <;> cases slot <;> exact OwnerStep.same rfl rfl rfl
  | beginRelease titleId publicRequest expected activeGame =>
    rw [(next_isRelease s rfl).1 slot]
    exact OwnerStep.same rfl rfl rfl
  | endRelease titleId =>
    rw [(next_isRelease s rfl).1 slot]
    exact OwnerStep.same rfl rfl rfl
  | gameExit pid exitTimeUs now =>
    simp only [next]
    rcases noteGameExit_owner s.service pid exitTimeUs now slot with hsame | ⟨hpid, hexited⟩
    · rw [hsame]
      exact OwnerStep.same rfl rfl rfl
    · rw [hexited]
      refine ⟨rfl, .inr (.inr ⟨exitTimeUs, now, ?_, rfl⟩)⟩
      rw [hpid]
  | launchFailed titleId =>
    simp only [next, noteLaunchFailed]
    split <;> cases slot <;> exact OwnerStep.same rfl rfl rfl
  | sandboxReady titleId =>
    simp only [next, noteSandboxReady]
    obtain ⟨htitle, hpid, hexited⟩ := markSandboxReady_owner
      (if s.service.pendingLaunchTitleId = titleId then
        { s.service with pendingSandboxReadyHandled := true } else s.service) titleId slot
    refine OwnerStep.same (htitle.trans ?_) (hpid.trans ?_) (hexited.trans ?_)
    all_goals split <;> cases slot <;> rfl
  | beginExternal =>
    simp only [next, tryBeginExternalMutation]
    split <;> cases slot <;> exact OwnerStep.same rfl rfl rfl
  | endExternal => cases slot <;> exact OwnerStep.same rfl rfl rfl

/-- Outside the bodies only binding the application of the prepared owner clears the
flag. -/
theorem next_prepareInProgress (s : State) (hbody : i.ofBody = false)
    (hbind : ∀ titleId appId pid managed, i = .bind titleId appId pid managed →
      0 < pid → s.service.prepared.titleId ≠ titleId) :
    (next s i).service.prepareInProgress = s.service.prepareInProgress := by
  cases i with
  | claim titleId launchRequest => cases hbody
  | finish titleId cancelLaunch => cases hbody
  | rollback titleId => cases hbody
  | clearOwned titleId => cases hbody
  | bind titleId appId pid managed =>
    rcases bindPreparedApp_cases s.service titleId appId pid managed with
      ⟨-, hflag⟩ | ⟨hpid, found, hfound, -, hflag⟩
    · exact hflag
    · cases found with
      | prepared =>
        exact absurd (findMountOwner_eq_some hfound).2
          (hbind titleId appId pid managed rfl hpid)
      | outgoing => exact hflag rfl
  | launchRequest titleId =>
    simp only [next, noteLaunchRequest]
    split <;> rfl
  | launchRejected titleId =>
    simp only [next, noteLaunchRejected]
    split <;> rfl
  | beginRelease titleId publicRequest expected activeGame => exact (next_isRelease s rfl).2
  | endRelease titleId => exact (next_isRelease s rfl).2
  | gameExit pid exitTimeUs now =>
    simp only [next, noteGameExit]
    repeat' split
    all_goals rfl
  | launchFailed titleId =>
    simp only [next, noteLaunchFailed]
    split <;> rfl
  | sandboxReady titleId =>
    simp only [next, noteSandboxReady, markSandboxReady]
    split
    · split <;> rfl
    · rename_i slot _
      cases slot <;> simp only [Service.setOwner] <;> split <;> rfl
  | beginExternal =>
    simp only [next, tryBeginExternalMutation]
    split <;> rfl
  | endExternal => rfl

/-- No application is bound to a title that is still being prepared. -/
def BoundWhenReady (s : Activity) : Event → Prop
  | .other (.bind titleId _ pid _) => 0 < pid → ¬s.Preparing titleId
  | _ => True

instance (s : Activity) : ∀ e, Decidable (BoundWhenReady s e)
  | .other (.bind titleId _ pid _) =>
    inferInstanceAs (Decidable (0 < pid → ¬s.Preparing titleId))
  | .other (.launchRequest _) | .other (.launchRejected _) | .other (.claim _ _)
  | .other (.finish _ _) | .other (.rollback _) | .other (.clearOwned _)
  | .other (.beginRelease _ _ _ _) | .other (.endRelease _) | .other (.gameExit _ _ _)
  | .other (.launchFailed _) | .other (.sandboxReady _) | .other .beginExternal
  | .other .endExternal | .claim _ _ | .endPreparation _ _ | .clearReleased _ | .stop =>
    isTrue trivial

/-- At most one preparation runs; it has the prepared slot and the flag, and its title
is not being released. -/
structure Exclusive (s : Activity) : Prop where
  owners : Ownership s.state
  single : s.preparing.length ≤ 1
  held : ∀ p ∈ s.preparing, isSupportedGameTitleId p.titleId = true ∧
    s.service.prepared.titleId = p.titleId ∧ s.service.prepareInProgress = true
  apart : ∀ p ∈ s.preparing, p.titleId ∉ s.state.releases

theorem exclusive_initial : Exclusive Activity.initial where
  owners := ownership_initial
  single := by simp [Activity.initial]
  held := by simp [Activity.initial]
  apart := by simp [Activity.initial]

theorem Exclusive.of_idle (howners : Ownership s.state) (hidle : s.preparing = []) :
    Exclusive s where
  owners := howners
  single := by simp [hidle]
  held := by simp [hidle]
  apart := by simp [hidle]

/-- A claim succeeds only when nothing is being prepared, and then has the slot and the
flag to itself. -/
theorem Exclusive.claim (h : Exclusive s) (titleId : Text) (launchRequest : Bool) :
    Exclusive (s.next (.claim titleId launchRequest)) := by
  have howners := h.owners.activity (.claim titleId launchRequest)
  simp only [Activity.next] at howners ⊢
  split
  · rename_i hsupported
    rw [if_pos hsupported] at howners
    split
    · rename_i service claimed hclaim
      rw [hclaim] at howners
      obtain ⟨hflag, hreleasing, hset, hcases⟩ := claimPreparedTitle_ok hclaim
      have hidle : s.preparing = [] := by
        refine List.eq_nil_iff_forall_not_mem.mpr (fun p hp => ?_)
        have hheld := (h.held p hp).2.2
        rw [hflag] at hheld
        cases hheld
      have hname : service.prepared.titleId = titleId := by
        have hcopy : (setMountOwner titleId).titleId = titleId := strlcpy_supported hsupported
        rcases hcases with ⟨-, -, hout, hprepared, -⟩ | ⟨-, -, -, hprepared, -⟩ |
          ⟨-, -, -, -, hprepared, -⟩ | ⟨-, hname, hprepared, -⟩
        · rw [hprepared, hout]
        · rw [hprepared, hcopy]
        · rw [hprepared, hcopy]
        · rw [hprepared, hname]
      refine ⟨howners, by simp [hidle], ?_, ?_⟩
      · intro p hp
        rw [hidle] at hp
        rw [List.mem_singleton.mp hp]
        exact ⟨hsupported, hname, hset⟩
      · intro p hp hreleased
        rw [hidle] at hp
        rw [List.mem_singleton.mp hp] at hreleased
        -- a running release of this title is the one the record names
        have hrecorded := h.owners.release_recorded titleId hreleased
        rw [strlcpy_supported hsupported] at hrecorded
        exact hreleasing hrecorded.symm
    · exact h
  · exact h

theorem Exclusive.endPreparation (h : Exclusive s) (p : Preparation) (ready : Bool) :
    Exclusive (s.next (.endPreparation p ready)) := by
  have howners := h.owners.activity (.endPreparation p ready)
  by_cases hp : p ∈ s.preparing
  · refine Exclusive.of_idle howners ?_
    have hlen := List.length_erase_of_mem hp
    have hsingle := h.single
    simp only [Activity.next, if_pos hp]
    exact List.length_eq_zero_iff.mp (by omega)
  · simpa only [Activity.next, if_neg hp] using h

theorem Exclusive.clearReleased (h : Exclusive s) (titleId : Text) :
    Exclusive (s.next (.clearReleased titleId)) := by
  have howners := h.owners.activity (.clearReleased titleId)
  simp only [Activity.next] at howners ⊢
  split
  · rename_i hreleased
    rw [if_pos hreleased] at howners
    refine ⟨howners, h.single, ?_, h.apart⟩
    intro p hp
    obtain ⟨hsupported, hname, hflag⟩ := h.held p hp
    refine ⟨hsupported, ?_⟩
    -- the released title is not the one in preparation, so the prepared slot stays
    have hother : s.service.prepared.titleId ≠ titleId := by
      intro hsame
      refine h.apart p hp ?_
      rw [← hname, hsame]
      exact hreleased
    simp only [Activity.service, Shellcore.next, clearOwnedTitle] at hother ⊢
    split
    · exact ⟨hname, hflag⟩
    · rename_i hfound
      exact absurd (findMountOwner_eq_some hfound).2 hother
    · exact ⟨hname, hflag⟩
  · exact h

/-- No release begins while a title is prepared. -/
theorem not_beginRelease_preparing (h : Exclusive s) {p : Preparation} (hp : p ∈ s.preparing)
    {publicRequest : Bool} {expected : Option MountOwner} {activeGame : Bool} {service : Service} :
    beginRuntimeRelease s.state.service p.titleId publicRequest expected activeGame ≠
      (service, .ok ()) := by
  intro hbegin
  obtain ⟨hsupported, hname, hflag⟩ := h.held p hp
  have hne : p.titleId ≠ [] := by
    intro hnil
    rw [hnil] at hsupported
    exact absurd hsupported (by decide)
  have hfound : findMountOwner s.state.service p.titleId = some .prepared := by
    have hmatch : mountOwnerMatches s.state.service.prepared p.titleId = true :=
      mountOwnerMatches_iff.mpr ⟨fun hnil => hne (hname.symm.trans hnil), hname⟩
    simp only [findMountOwner, hmatch, if_true]
  simp only [beginRuntimeRelease] at hbegin
  split at hbegin
  · cases hbegin
  · rename_i hblocked
    have hset : s.state.service.prepareInProgress = true := hflag
    simp [releaseBlocked, hfound, hset] at hblocked

/-- A section outside the bodies.  Only the beginning of a release could break the
separation, and it is refused while the flag is up. -/
theorem Exclusive.other (h : Exclusive s) (i : Step) (hready : BoundWhenReady s (.other i)) :
    Exclusive (s.next (.other i)) := by
  have howners := h.owners.activity (.other i)
  simp only [Activity.next] at howners ⊢
  split
  · exact h
  · rename_i hbody
    rw [if_neg hbody] at howners
    have houtside : i.ofBody = false := by simpa using hbody
    refine ⟨howners, h.single, ?_, ?_⟩
    · intro p hp
      obtain ⟨hsupported, hname, hflag⟩ := h.held p hp
      refine ⟨hsupported, (next_owner s.state houtside .prepared).1.trans hname, ?_⟩
      refine (next_prepareInProgress s.state houtside ?_).trans hflag
      rintro titleId appId pid managed rfl hpid hsame
      exact hready hpid ⟨p, hp, hname.symm.trans hsame⟩
    · intro p hp
      obtain ⟨hsupported, hname, hflag⟩ := h.held p hp
      have hapart := h.apart p hp
      by_cases hrelease : i.isRelease = false
      · rw [(next_release s.state hrelease).1]
        exact hapart
      · cases i with
        | beginRelease titleId publicRequest expected activeGame =>
          simp only [Shellcore.next]
          split
          · exact hapart
          · split <;> rename_i hbegin
            · intro hmem
              rcases List.mem_cons.mp hmem with hsame | hmem
              · exact not_beginRelease_preparing h hp (hsame ▸ hbegin)
              · exact hapart hmem
            · exact hapart
        | endRelease titleId =>
          simp only [Shellcore.next]
          split
          · exact fun hmem => hapart (List.mem_of_mem_erase hmem)
          · exact hapart
        | _ => exact absurd rfl hrelease

/-- One event keeps the separation. -/
theorem Exclusive.next (h : Exclusive s) (e : Event) (hready : BoundWhenReady s e) :
    Exclusive (s.next e) := by
  cases e with
  | claim titleId launchRequest => exact h.claim titleId launchRequest
  | endPreparation p ready => exact h.endPreparation p ready
  | clearReleased titleId => exact h.clearReleased titleId
  | stop =>
    have howners := h.owners.activity .stop
    simp only [Activity.next] at howners ⊢
    split
    · rename_i hidle
      rw [if_pos hidle] at howners
      exact Exclusive.of_idle howners hidle.1
    · exact h
  | other i => exact h.other i hready

/-- On every run that binds no application to a title still being prepared, no state
has a title that is prepared and released at the same time. -/
theorem preparation_excludes_release {s : Activity}
    (hs : Reachable (activitySystem.restrict BoundWhenReady) s) (titleId : Text) :
    ¬(s.Preparing titleId ∧ titleId ∈ s.state.releases) := by
  have hexclusive : Exclusive s := by
    refine hs.invariant ?_ ?_
    · rintro s rfl
      exact exclusive_initial
    · rintro s e t h ⟨rfl, hready⟩
      exact h.next e hready
  rintro ⟨⟨p, hp, rfl⟩, hreleased⟩
  exact hexclusive.apart p hp hreleased

/-- A run in which a title is released while another one is being prepared. -/
theorem preparation_excludes_release_game_switch :
    let old := "PPSA13197".toList
    let new := "PPSA01234".toList
    let s := [Event.other (.launchRequest old), .claim old true,
      .endPreparation ⟨old, true⟩ true, .other (.bind old 7 100 true),
      .other (.launchRequest new), .claim new true, .other (.gameExit 100 5 5),
      .other (.beginRelease old false (some ⟨old, 7, 100, true, false, 5⟩) false)].foldl
        Activity.next Activity.initial
    s.state.releases = [old] ∧ s.Preparing new ∧ ¬s.Preparing old := by
  intro old new s
  have hpath : Path (activitySystem.restrict BoundWhenReady) Activity.initial _ s :=
    Path.of_admits (by decide +kernel)
  have hreleases : s.state.releases = [old] := by decide +kernel
  have hexcluded := preparation_excludes_release
    (hpath.reachable (.start rfl)) old
  refine ⟨hreleases, by decide +kernel, fun hpreparing => hexcluded ⟨hpreparing, ?_⟩⟩
  rw [hreleases]
  exact List.mem_singleton_self old

/-- The lifecycle thread has prepared a title for its new process; before it binds the
process, the API thread starts to mount the title once more.  Binding takes the flag
from that mount, the game exits, and its release begins under the mount. -/
theorem released_while_preparing :
    ∃ s titleId, Reachable activitySystem s ∧ s.Preparing titleId ∧
      titleId ∈ s.state.releases := by
  let title := "PPSA13197".toList
  refine ⟨[Event.other (.launchRequest title), .claim title true,
    .endPreparation ⟨title, true⟩ true, .claim title true,
    .endPreparation ⟨title, false⟩ true, .claim title false,
    .other (.bind title 7 100 true), .other (.gameExit 100 5 5),
    .other (.beginRelease title false (some ⟨title, 7, 100, true, false, 5⟩) false)].foldl
      Activity.next Activity.initial, title, .foldl _, ?_, ?_⟩
  · decide +kernel
  · decide +kernel

end ShadowMount.Shellcore
