import ShadowMount.ImageMount.System

/-!
# Mounting and unmounting images - the protocol of the pipelines

What each pipeline may be relied on to do, whatever the other threads do in between:
a detach ioctl is issued only by the task that attached the device and could not publish
it, or by a task that has claimed the attempt and whose record says that no detach was
requested; and a claimed attempt is finished with the record it was claimed with, or with
that record marked as requested if the ioctl was accepted.
-/

namespace ShadowMount.ImageMount

open Foundation
open ImageCache (EntryView)

variable (path : Text) (index : Int) (mountPoint : Text) (generation : Nat) (unitId : Int)
  (backend : AttachBackend) (state : AttachedUnitDetachState) (filePath : Text)
  (settings : Settings) (depth : Nat) (fsType : ImageFsType)

/-- May a task make the call with this in hand? -/
def Hold.allows (hold : Hold) : Op → Prop
  | .attach _ | .claimDetach _ _ _ _ => hold = .nothing
  | .publishAttachment _ _ unitId backend => hold = .unpublished backend unitId
  | .detach backend unitId => hold = .unpublished backend unitId ∨
      ∃ path generation record, hold = .claimed path generation backend unitId record ∧
        record.requested = false
  | .finishDetach path generation unitId backend record =>
    hold = .claimed path generation backend unitId record
  | _ => True

/-- A claim returns the record of its generation, with a known identity. -/
def possibleResponse : (op : Op) → op.Response → Prop
  | .claimDetach _ generation _ _, response => ∀ entry, (response : Outcome EntryView) = .ok entry →
      entry.generation = generation ∧ entry.detachState.nodeIdentityValid = true
  | _, _ => True

def protocol : Protocol Op.Response Hold where
  allowed := Hold.allows
  after := Hold.after
  possible := possibleResponse

variable {α β : Type}

/-- The program leaves alone what the task has in hand. -/
def Keeps (program : Pipeline α) : Prop :=
  ∀ hold, Follows protocol hold program fun hold' _ => hold' = hold

/-- The program begins and ends with nothing in hand. -/
def Balanced (program : Pipeline α) : Prop :=
  Follows protocol .nothing program fun hold' _ => hold' = .nothing

/-- What hands over nothing is balanced. -/
theorem Keeps.balanced {program : Pipeline α} (h : Keeps program) : Balanced program :=
  h .nothing

/-- A part that hands over nothing may come before any other one. -/
theorem Keeps.andThen {program : Pipeline α} {next : α → Pipeline β} {hold : Hold}
    {post : Hold → β → Prop} (h : Keeps program)
    (hnext : ∀ a, Follows protocol hold (next a) post) :
    Follows protocol hold (program >>= next) post := by
  refine .andThen (fun hold' _ => hold' = hold) (h hold) ?_
  rintro _ a rfl
  exact hnext a

/-- Balanced parts follow each other. -/
theorem Balanced.andThen {program : Pipeline α} {next : α → Pipeline β}
    {post : Hold → β → Prop} (h : Balanced program)
    (hnext : ∀ a, Follows protocol .nothing (next a) post) :
    Follows protocol .nothing (program >>= next) post := by
  refine .andThen (fun hold' _ => hold' = .nothing) h ?_
  rintro _ a rfl
  exact hnext a

theorem keeps_pure (a : α) : Keeps (Pure.pure a : Pipeline α) := fun _ => .pure rfl

/-- A call that has nothing to do with what is in hand. -/
theorem keeps_perform {op : Op} (hallows : ∀ hold, Hold.allows hold op)
    (hafter : ∀ hold response, Hold.after hold op response = hold) :
    Keeps (perform op : Pipeline op.Response) :=
  fun hold => .perform (hallows hold) fun response _ => hafter hold response

theorem keeps_findImageCacheEntry : Keeps (findImageCacheEntry path) :=
  keeps_perform (fun _ => trivial) fun _ _ => rfl

theorem keeps_getImageCacheEntry : Keeps (getImageCacheEntry index) :=
  keeps_perform (fun _ => trivial) fun _ _ => rfl

theorem keeps_resolveDeviceFromMountCache : Keeps (resolveDeviceFromMountCache mountPoint) :=
  keeps_perform (fun _ => trivial) fun _ _ => rfl

theorem keeps_beginImageAttachment : Keeps (beginImageAttachment path mountPoint) :=
  keeps_perform (fun _ => trivial) fun _ _ => rfl

theorem keeps_cancelImageAttachment : Keeps (cancelImageAttachment path generation) :=
  keeps_perform (fun _ => trivial) fun _ _ => rfl

theorem keeps_completeImageAttachment :
    Keeps (completeImageAttachment path generation unitId backend) :=
  keeps_perform (fun _ => trivial) fun _ _ => rfl

theorem keeps_cacheImageMount : Keeps (cacheImageMount path mountPoint unitId backend) :=
  keeps_perform (fun _ => trivial) fun _ _ => rfl

theorem keeps_markImageCacheDetachRequested :
    Keeps (markImageCacheDetachRequested path generation unitId backend) :=
  keeps_perform (fun _ => trivial) fun _ _ => rfl

theorem keeps_invalidateImageCacheEntry (expected : EntryView) :
    Keeps (invalidateImageCacheEntry index expected) :=
  keeps_perform (fun _ => trivial) fun _ _ => rfl

theorem keeps_statNode (unitId : Int) : Keeps (statNode backend unitId) :=
  keeps_perform (fun _ => trivial) fun _ _ => rfl

theorem keeps_mountedDevice : Keeps (mountedDevice mountPoint) :=
  keeps_perform (fun _ => trivial) fun _ _ => rfl

theorem keeps_detectImageFsType : Keeps (detectImageFsType path) :=
  keeps_perform (fun _ => trivial) fun _ _ => rfl

theorem keeps_ask (query : Query) : Keeps (ask query) :=
  keeps_perform (fun _ => trivial) fun _ _ => rfl

theorem keeps_holds (query : Query) : Keeps (holds query) := by
  intro hold
  unfold holds
  exact (keeps_ask query).andThen fun _ => .pure rfl

theorem keeps_detachTargetIsReleasedOrReused (unitId : Int) (state : AttachedUnitDetachState) :
    Keeps (detachTargetIsReleasedOrReused backend unitId state) := by
  intro hold
  unfold detachTargetIsReleasedOrReused
  split
  · exact .pure rfl
  · refine (keeps_statNode backend unitId).andThen ?_
    intro response
    split
    · exact .pure rfl
    · split
      · exact .pure rfl
      · exact keeps_holds _ hold

/-- The record that a detach is requested with: no detach was requested, the identity is
known, and it is kept if it was known before. -/
def RequestOf (state : AttachedUnitDetachState) (result : Prepared × AttachedUnitDetachState) :
    Prop :=
  result.1 = .request → result.2.requested = false ∧ result.2.nodeIdentityValid = true ∧
    (state.nodeIdentityValid = true → result.2 = state)

/-- The request is for the device that the record names. -/
theorem prepareKnownUnit_follows (unitId : Int) {request : AttachedUnitDetachState}
    (hvalid : request.nodeIdentityValid = true) (hold : Hold) :
    Follows protocol hold (prepareKnownUnit backend unitId request) fun hold' result =>
      hold' = hold ∧ RequestOf request result := by
  unfold prepareKnownUnit
  refine (keeps_detachTargetIsReleasedOrReused backend unitId request).andThen ?_
  intro released
  split
  · exact .pure ⟨rfl, nofun⟩
  · split
    · exact .pure ⟨rfl, nofun⟩
    · rename_i hrequested
      exact .pure ⟨rfl, fun _ => ⟨by simpa using hrequested, hvalid, fun _ => rfl⟩⟩

/-- The request keeps the recorded identity. -/
theorem prepareAttachedUnitDetach_follows (unitId : Int) (state : AttachedUnitDetachState)
    (hold : Hold) :
    Follows protocol hold (prepareAttachedUnitDetach backend unitId state) fun hold' result =>
      hold' = hold ∧ RequestOf state result := by
  unfold prepareAttachedUnitDetach
  split
  · rename_i hvalid
    exact prepareKnownUnit_follows backend unitId hvalid hold
  · rename_i hunknown
    refine (keeps_statNode backend unitId).andThen ?_
    intro response
    split
    · exact .pure ⟨rfl, nofun⟩
    · refine (prepareKnownUnit_follows backend unitId rfl hold).mono ?_
      rintro hold' result ⟨hsame, hrequest⟩
      refine ⟨hsame, ?_⟩
      intro h
      obtain ⟨hfree, hvalid, -⟩ := hrequest h
      exact ⟨hfree, hvalid, fun hknown => absurd hknown hunknown⟩

theorem keeps_finishFailedDetach (unitId : Int) (state : AttachedUnitDetachState) :
    Keeps (finishFailedDetach backend unitId state) := by
  intro hold
  unfold finishFailedDetach
  split
  · exact keeps_detachTargetIsReleasedOrReused backend unitId state hold
  · exact .pure rfl

/-- The result of a detach. -/
def DetachResult (backend : AttachBackend) (unitId : Int) (state : AttachedUnitDetachState)
    (hold hold' : Hold) (result : Bool × AttachedUnitDetachState) : Prop :=
  (hold' = hold ∧ result.2 = state) ∨
    (state.requested = false ∧ hold' = hold.after (.detach backend unitId) none ∧
      result.2.nodeIdentityValid = true ∧ (state.nodeIdentityValid = true →
        result.2 = { state with requested := true }))

/-- A detach by a task that may issue it: either the ioctl was accepted and the record says
so, or nothing has changed. -/
theorem detachUnit_follows {backend : AttachBackend} {unitId : Int}
    {state : AttachedUnitDetachState} {hold : Hold}
    (hallows : state.requested = false → Hold.allows hold (.detach backend unitId))
    (hunknown : state.nodeIdentityValid = false → state.requested = false) :
    Follows protocol hold (detachUnit backend unitId state)
      (DetachResult backend unitId state hold) := by
  unfold detachUnit
  refine .andThen _ (prepareAttachedUnitDetach_follows backend unitId state hold) ?_
  rintro hold' ⟨prepared, request⟩ ⟨rfl, hrequest⟩
  cases prepared with
  | complete => exact .pure (.inl ⟨rfl, rfl⟩)
  | pending => exact .pure (.inl ⟨rfl, rfl⟩)
  | request =>
    obtain ⟨hrequested, hidentity, hkeep⟩ := hrequest rfl
    have hfree : state.requested = false := by
      cases hvalid : state.nodeIdentityValid with
      | false => exact hunknown hvalid
      | true =>
        have hsame : request = state := hkeep hvalid
        rw [← hsame]
        exact hrequested
    refine (keeps_holds _).andThen ?_
    intro opened
    split
    · refine .bind (.perform (hallows hfree) ?_)
      intro response _
      cases (response : Option Errno) with
      | some e =>
        refine (keeps_finishFailedDetach backend unitId request).andThen ?_
        intro detached
        exact .pure (.inl ⟨rfl, rfl⟩)
      | none =>
        refine .pure (.inr ⟨hfree, rfl, hidentity, ?_⟩)
        intro hvalid
        have hsame : request = state := hkeep hvalid
        rw [hsame]
    · exact .pure (.inl ⟨rfl, rfl⟩)

theorem detachAttachedUnit_follows {backend : AttachBackend} {unitId : Int}
    {state : AttachedUnitDetachState} {hold : Hold}
    (hallows : state.requested = false → Hold.allows hold (.detach backend unitId))
    (hunknown : state.nodeIdentityValid = false → state.requested = false) :
    Follows protocol hold (detachAttachedUnit backend unitId state)
      (DetachResult backend unitId state hold) := by
  unfold detachAttachedUnit
  split
  · exact .pure (.inl ⟨rfl, rfl⟩)
  · cases backend with
    | none => exact .pure (.inl ⟨rfl, rfl⟩)
    | md => exact detachUnit_follows hallows hunknown
    | lvd => exact detachUnit_follows hallows hunknown

theorem keeps_waitForAttachedUnitRelease (unitId : Int) (state : AttachedUnitDetachState) :
    Keeps (waitForAttachedUnitRelease backend unitId state) := by
  intro hold
  unfold waitForAttachedUnitRelease
  split
  · exact .pure rfl
  · refine (keeps_holds _).andThen ?_
    intro disappeared
    split
    · exact .pure rfl
    · exact keeps_detachTargetIsReleasedOrReused backend unitId state hold

/-- A claimed attempt is finished. -/
theorem detachCachedImageDevice_balanced (generation : Nat) (backend : AttachBackend)
    (unitId : Int) : Balanced (detachCachedImageDevice filePath generation backend unitId) := by
  unfold detachCachedImageDevice
  refine .bind (.perform rfl ?_)
  intro response hpossible
  cases response with
  | error e => exact .pure rfl
  | ok cached =>
    obtain ⟨hgeneration, hvalid⟩ := hpossible cached rfl
    refine .andThen _ (detachAttachedUnit_follows
      (fun hfree => .inr ⟨_, _, _, rfl, hfree⟩)
      (fun hunknown => by rw [hvalid] at hunknown; cases hunknown)) ?_
    rintro hold' ⟨detached, state⟩ hresult
    -- the task still holds the claim, with the record that it publishes
    have hold_eq : hold' = .claimed filePath cached.generation backend unitId state := by
      rcases hresult with ⟨rfl, hstate⟩ | ⟨-, rfl, -, hstate⟩
      · have hsame : state = cached.detachState := hstate
        rw [hsame, hgeneration]
        rfl
      · have hsame : state = { cached.detachState with requested := true } := hstate hvalid
        rw [hsame, hgeneration]
        rfl
    refine .bind (.perform hold_eq ?_)
    intro response _
    cases (response : Outcome Unit) with
    | error e => exact .pure rfl
    | ok done =>
      simp only
      split
      · exact .pure rfl
      · split
        · exact keeps_waitForAttachedUnitRelease backend unitId state _
        · exact .pure rfl

/-- A device that is not published may be detached. -/
theorem rollbackUnpublishedAttachedUnit_follows (unitId : Int) :
    Follows protocol (.unpublished backend unitId) (rollbackUnpublishedAttachedUnit backend unitId)
      fun _ _ => True := by
  unfold rollbackUnpublishedAttachedUnit
  refine .andThen _ (detachAttachedUnit_follows (fun _ => .inl rfl) fun _ => rfl) ?_
  rintro hold' ⟨detached, state⟩ hresult
  refine .andThen (fun _ _ => True) ?_ ?_
  · unfold retryRollback
    split
    · exact .pure trivial
    · rename_i hretry
      rcases hresult with ⟨rfl, hstate⟩ | ⟨-, -, hidentity, -⟩
      · have hzero : state = .zero := hstate
        refine (keeps_holds _).andThen ?_
        intro appeared
        split
        · rw [hzero]
          exact (detachAttachedUnit_follows (fun _ => .inl rfl) fun _ => rfl).mono
            fun _ _ _ => trivial
        · exact .pure trivial
      · -- the record of an accepted detach has an identity, so there is no second try
        have hknown : state.nodeIdentityValid = true := hidentity
        simp [hknown] at hretry
  · rintro hold'' ⟨detached', state'⟩ -
    simp only
    split
    · exact (keeps_waitForAttachedUnitRelease backend unitId state' hold'').mono
        fun _ _ _ => trivial
    · exact .pure trivial

theorem keeps_getCachedImageMount : Keeps (getCachedImageMount filePath) := by
  intro hold
  unfold getCachedImageMount
  refine (keeps_findImageCacheEntry filePath).andThen ?_
  intro found
  cases found with
  | none => exact .pure rfl
  | some pair => exact .pure rfl

theorem keeps_invalidateMatchingImageCacheEntry (expected : EntryView) :
    Keeps (invalidateMatchingImageCacheEntry index expected) := by
  intro hold
  unfold invalidateMatchingImageCacheEntry
  refine (keeps_getImageCacheEntry index).andThen ?_
  intro found
  cases found with
  | none => exact .pure rfl
  | some current =>
    simp only
    split
    · refine (keeps_invalidateImageCacheEntry index current).andThen ?_
      intro result
      exact .pure rfl
    · exact .pure rfl

theorem keeps_resolveDeviceFromMount : Keeps (resolveDeviceFromMount mountPoint) := by
  intro hold
  unfold resolveDeviceFromMount
  refine (keeps_resolveDeviceFromMountCache mountPoint).andThen ?_
  intro found
  cases found with
  | none => exact keeps_mountedDevice mountPoint hold
  | some device => exact .pure rfl

theorem keeps_resolvedDevice : Keeps (resolvedDevice mountPoint unitId backend) := by
  intro hold
  unfold resolvedDevice
  split
  · refine (keeps_resolveDeviceFromMount mountPoint).andThen ?_
    intro found
    exact .pure rfl
  · exact .pure rfl

theorem keeps_reserveDetach (expectedGeneration : Nat) (backend : AttachBackend) (unitId : Int) :
    Keeps (reserveDetach filePath expectedGeneration backend unitId) := by
  intro hold
  unfold reserveDetach
  refine (keeps_getCachedImageMount filePath).andThen ?_
  intro found
  cases found with
  | none => exact .pure rfl
  | some pair =>
    simp only
    split
    · exact .pure rfl
    · split
      · exact .pure rfl
      · refine (keeps_markImageCacheDetachRequested _ _ _ _).andThen ?_
        intro marked
        cases marked with
        | ok done => exact .pure rfl
        | error e => exact .pure rfl

theorem keeps_unmountLayers (attempts : Nat) : Keeps (unmountLayers mountPoint attempts) := by
  induction attempts with
  | zero => exact keeps_pure true
  | succ attempts ih =>
    intro hold
    unfold unmountLayers
    refine (keeps_holds _).andThen ?_
    intro active
    split
    · refine (keeps_ask _).andThen ?_
      intro error
      cases error with
      | none => exact ih hold
      | some e => exact .pure rfl
    · exact .pure rfl

/-- A claim is followed by its end. -/
theorem releaseDevice_balanced (generation : Nat) (backend : AttachBackend) (unitId : Int) :
    Balanced (releaseDevice filePath generation backend unitId) := by
  unfold releaseDevice
  split
  · exact detachCachedImageDevice_balanced filePath generation backend unitId
  · exact .pure rfl

theorem keeps_removeMountDirectory : Keeps (removeMountDirectory mountPoint) := by
  intro hold
  unfold removeMountDirectory
  refine (keeps_ask _).andThen ?_
  intro error
  cases error with
  | none => exact .pure rfl
  | some e => exact .pure rfl

/-- An unmount claims the detach and ends the claim. -/
theorem unmountReserved_balanced (mountPoint : Text) (generation : Nat) (backend : AttachBackend)
    (unitId : Int) : Balanced (unmountReserved filePath mountPoint generation backend unitId) := by
  unfold unmountReserved
  refine (keeps_unmountLayers mountPoint _).andThen ?_
  intro unmounted
  split
  · refine (keeps_holds _).andThen ?_
    intro active
    split
    · exact .pure rfl
    · refine (releaseDevice_balanced filePath generation backend unitId).andThen ?_
      intro released
      refine (keeps_removeMountDirectory mountPoint).andThen ?_
      intro removed
      exact .pure rfl
  · exact .pure rfl

theorem unmountChild_balanced {unmountEntry : EntryView → Pipeline UnmountResult}
    (hentry : ∀ entry, Balanced (unmountEntry entry)) (mountPoint : Text) (index : Int) :
    Balanced (unmountChild unmountEntry mountPoint index) := by
  unfold unmountChild
  refine (keeps_getImageCacheEntry index).andThen ?_
  intro found
  cases found with
  | none => exact .pure rfl
  | some entry =>
    simp only
    split
    · exact .pure rfl
    · split
      · exact .pure rfl
      · split
        · exact .pure rfl
        · refine (hentry entry).andThen ?_
          intro result
          split
          · refine (keeps_invalidateMatchingImageCacheEntry index entry).andThen ?_
            intro forgotten
            exact .pure rfl
          · exact .pure rfl

/-- The children are released one after another. -/
theorem unmountChildren_balanced {unmountEntry : EntryView → Pipeline UnmountResult}
    (hentry : ∀ entry, Balanced (unmountEntry entry)) (mountPoint : Text) (slots : List Nat)
    (allUnmounted : Bool) :
    Balanced (unmountChildren unmountEntry mountPoint slots allUnmounted) := by
  induction slots generalizing allUnmounted with
  | nil => exact .pure rfl
  | cons k rest ih =>
    unfold unmountChildren
    refine (unmountChild_balanced hentry mountPoint k).andThen ?_
    intro unmounted
    exact ih (allUnmounted && unmounted)

theorem releaseChildren_balanced {unmountEntry : EntryView → Pipeline UnmountResult}
    (hentry : ∀ entry, Balanced (unmountEntry entry)) (fsType : ImageFsType) (mountPoint : Text) :
    Balanced (releaseChildren settings unmountEntry fsType mountPoint) := by
  unfold releaseChildren
  split
  · exact unmountChildren_balanced hentry mountPoint _ true
  · exact .pure rfl

/-- An unmount ends with nothing in hand. -/
theorem unmountImageImpl_balanced : ∀ (filePath : Text)
    (unitId : Int) (backend : AttachBackend) (expectedGeneration : Nat),
    Balanced (unmountImageImpl settings depth filePath unitId backend expectedGeneration) := by
  induction depth with
  | zero =>
    intro filePath unitId backend expectedGeneration
    exact ⟨trivial, fun never => nomatch never⟩
  | succ depth ih =>
    intro filePath unitId backend expectedGeneration
    unfold unmountImageImpl
    refine (keeps_holds _).andThen ?_
    intro isProtected
    split
    · exact .pure rfl
    · refine (keeps_detectImageFsType filePath).andThen ?_
      intro fsType
      refine (keeps_resolvedDevice _ unitId backend).andThen ?_
      intro device
      refine (keeps_reserveDetach filePath expectedGeneration device.1 device.2).andThen ?_
      intro reserved
      cases reserved with
      | none => exact .pure rfl
      | some generation =>
        refine (releaseChildren_balanced settings (fun entry => ih _ _ _ _) _ _).andThen ?_
        intro released
        split
        · exact unmountReserved_balanced filePath _ generation _ _
        · exact .pure rfl

theorem releaseRuntimeImageAttachment_balanced (filePath : Text) (generation : Nat) :
    Balanced (releaseRuntimeImageAttachment settings depth filePath generation) := by
  unfold releaseRuntimeImageAttachment
  refine (keeps_findImageCacheEntry filePath).andThen ?_
  intro found
  cases found with
  | none => exact .pure rfl
  | some pair =>
    simp only
    split
    · exact .pure rfl
    · split
      · refine (keeps_cancelImageAttachment filePath generation).andThen ?_
        intro result
        exact .pure rfl
      · refine (unmountImageImpl_balanced settings depth _ _ _ _).andThen ?_
        intro result
        split
        · exact (keeps_invalidateMatchingImageCacheEntry _ _).balanced
        · exact .pure rfl

theorem releaseRuntimeImageMount_balanced (filePath : Text) :
    Balanced (releaseRuntimeImageMount settings depth filePath) := by
  unfold releaseRuntimeImageMount
  refine (keeps_findImageCacheEntry filePath).andThen ?_
  intro found
  cases found with
  | none => exact .pure rfl
  | some pair =>
    simp only
    split
    · exact .pure rfl
    · split
      · exact .pure rfl
      · refine (unmountImageImpl_balanced settings depth _ _ _ _).andThen ?_
        intro result
        split
        · refine (keeps_invalidateMatchingImageCacheEntry _ _).andThen ?_
          intro forgotten
          exact .pure rfl
        · exact .pure rfl

theorem reuseExistingImageMount_balanced (filePath mountPoint : Text) :
    Balanced (reuseExistingImageMount settings depth filePath mountPoint) := by
  unfold reuseExistingImageMount
  refine (keeps_holds _).andThen ?_
  intro directory
  split
  · refine (keeps_resolveDeviceFromMount mountPoint).andThen ?_
    intro found
    cases found with
    | none =>
      refine (keeps_holds _).andThen ?_
      intro visible
      exact .pure rfl
    | some device =>
      refine (keeps_holds _).andThen ?_
      intro accessible
      split
      · refine (keeps_cacheImageMount filePath mountPoint _ _).andThen ?_
        intro cached
        cases cached with
        | ok done => exact .pure rfl
        | error e => exact .pure rfl
      · refine (keeps_cacheImageMount filePath mountPoint _ _).andThen ?_
        intro cached
        cases cached with
        | ok done =>
          refine (releaseRuntimeImageMount_balanced settings depth filePath).andThen ?_
          intro released
          exact .pure rfl
        | error e => exact .pure rfl
  · exact .pure rfl

theorem reuseOrMount_balanced (filePath mountPoint : Text) :
    Balanced (reuseOrMount settings depth filePath mountPoint) := by
  unfold reuseOrMount
  refine (reuseExistingImageMount_balanced settings depth filePath mountPoint).andThen ?_
  rintro ⟨reused, cacheFailed⟩
  cases reused with
  | true =>
    refine (keeps_holds _).andThen ?_
    intro sleeping
    exact .pure rfl
  | false => exact .pure rfl

theorem keeps_activeAndAccessible : Keeps (activeAndAccessible mountPoint) := by
  intro hold
  unfold activeAndAccessible
  refine (keeps_holds _).andThen ?_
  intro active
  split
  · exact keeps_holds _ hold
  · exact .pure rfl

theorem handleCachedOrExistingImageMount_balanced (filePath mountPoint : Text) :
    Balanced (handleCachedOrExistingImageMount settings depth filePath mountPoint) := by
  unfold handleCachedOrExistingImageMount
  refine (keeps_holds _).andThen ?_
  intro sleeping
  split
  · exact .pure rfl
  · refine (keeps_getCachedImageMount filePath).andThen ?_
    intro found
    cases found with
    | none => exact reuseOrMount_balanced settings depth filePath mountPoint
    | some pair =>
      simp only
      split
      · refine (releaseRuntimeImageMount_balanced settings depth filePath).andThen ?_
        intro released
        exact .pure rfl
      · split
        · exact .pure rfl
        · refine (keeps_activeAndAccessible mountPoint).andThen ?_
          intro accessible
          split
          · exact .pure rfl
          · refine (releaseRuntimeImageAttachment_balanced settings depth _ _).andThen ?_
            intro released
            split
            · exact reuseOrMount_balanced settings depth filePath mountPoint
            · exact .pure rfl

theorem rejectAttachment_balanced (filePath : Text) (generation : Nat) :
    Balanced (rejectAttachment settings depth filePath generation) := by
  unfold rejectAttachment
  refine (releaseRuntimeImageAttachment_balanced settings depth filePath generation).andThen ?_
  intro released
  exact .pure rfl

/-- A device attached is in hand, and else nothing. -/
theorem attachImageDevice_follows (filePath : Text) (backend : AttachBackend) (generation : Nat) :
    Follows protocol .nothing (attachImageDevice settings depth filePath backend generation)
      fun hold' result => result ≠ none → hold' = .nothing := by
  unfold attachImageDevice
  refine .andThen (fun hold' result =>
    hold' = result.elim .nothing fun unitId => .unpublished backend unitId) ?_ ?_
  · unfold attachDevice
    split
    · exact .pure rfl
    · refine .perform rfl ?_
      intro response _
      cases (response : Option Int) with
      | none => rfl
      | some unitId => rfl
  · intro hold' attached hattached
    cases attached with
    | none =>
      refine (keeps_cancelImageAttachment filePath generation).andThen ?_
      intro cancelled
      exact .pure fun h => absurd rfl h
    | some unitId =>
      refine .bind (.perform hattached ?_)
      intro response _
      cases (response : Outcome Unit) with
      | error e =>
        refine (keeps_cancelImageAttachment filePath generation).andThen ?_
        intro cancelled
        have hhold : protocol.after hold'
            (.publishAttachment filePath generation unitId backend) (.error e) =
            .unpublished backend unitId := hattached
        rw [hhold]
        refine .andThen _ (rollbackUnpublishedAttachedUnit_follows backend unitId) ?_
        intro hold'' detached _
        exact .pure fun h => absurd rfl h
      | ok done =>
        refine (keeps_holds _).andThen ?_
        intro appeared
        split
        · exact .pure fun _ => rfl
        · refine (rejectAttachment_balanced settings depth filePath generation).andThen ?_
          intro released
          exact .pure fun h => absurd rfl h

theorem performImageNmount_balanced (filePath mountPoint : Text) (fsType : ImageFsType)
    (generation : Nat) :
    Balanced (performImageNmount settings depth filePath mountPoint fsType generation) := by
  have hreject := rejectAttachment_balanced settings depth filePath generation
  unfold performImageNmount
  split
  · exact hreject
  · refine (keeps_holds _).andThen ?_
    intro mounted
    split
    · split
      · exact .pure rfl
      · refine (keeps_holds _).andThen ?_
        intro verified
        split
        · exact .pure rfl
        · exact hreject
    · exact hreject

theorem validateMountedImage_balanced (filePath mountPoint : Text) (generation : Nat) :
    Balanced (validateMountedImage settings depth filePath mountPoint generation) := by
  have hreject := rejectAttachment_balanced settings depth filePath generation
  unfold validateMountedImage
  refine (keeps_holds _).andThen ?_
  intro readable
  split
  · refine (keeps_holds _).andThen ?_
    intro clusters
    split
    · refine (keeps_holds _).andThen ?_
      intro accessible
      split
      · exact .pure rfl
      · exact hreject
    · exact hreject
  · exact hreject

theorem keeps_commitAttachment (generation : Nat) (unitId : Int) (backend : AttachBackend) :
    Keeps (commitAttachment filePath generation unitId backend) := by
  intro hold
  unfold commitAttachment
  refine (keeps_holds _).andThen ?_
  intro sleeping
  split
  · exact .pure rfl
  · refine (keeps_completeImageAttachment filePath generation unitId backend).andThen ?_
    intro completed
    exact .pure rfl

/-- A mount of an attached device ends with nothing in hand. -/
theorem mountAttached_balanced (filePath mountPoint : Text) (fsType : ImageFsType)
    (backend : AttachBackend) (generation : Nat) (unitId : Int) :
    Balanced (mountAttached settings depth filePath mountPoint fsType backend generation
      unitId) := by
  have hreject := rejectAttachment_balanced settings depth filePath generation
  unfold mountAttached
  refine (keeps_holds _).andThen ?_
  intro sleeping
  split
  · exact hreject
  · refine (performImageNmount_balanced settings depth filePath mountPoint fsType
      generation).andThen ?_
    intro mounted
    split
    · refine (keeps_holds _).andThen ?_
      intro sleeping
      split
      · exact hreject
      · refine (validateMountedImage_balanced settings depth filePath mountPoint
          generation).andThen ?_
        intro valid
        split
        · refine (keeps_commitAttachment filePath generation unitId backend).andThen ?_
          intro committed
          split
          · exact .pure rfl
          · exact hreject
        · exact .pure rfl
    · exact .pure rfl

theorem keeps_modeAccepted (mode : Option Bool) : Keeps (modeAccepted mountPoint mode) := by
  cases mode with
  | none => exact keeps_pure true
  | some readOnly => exact keeps_holds _

/-- The program follows the protocol from the start of a job on. -/
def Conforms (program : Pipeline Bool) : Prop :=
  Follows protocol .nothing program fun _ _ => True

/-- A balanced program conforms. -/
theorem Balanced.conforms {program : Pipeline Bool} (h : Balanced program) : Conforms program :=
  h.mono fun _ _ _ => trivial

/-- A mount hands its device to the record, or detaches it. -/
theorem mountReserved_conforms (filePath mountPoint : Text) (fsType : ImageFsType) :
    Conforms (mountReserved settings depth filePath mountPoint fsType) := by
  unfold mountReserved
  refine (keeps_beginImageAttachment filePath mountPoint).andThen ?_
  intro reserved
  cases reserved with
  | error e => exact .pure trivial
  | ok generation =>
    refine .andThen _ (attachImageDevice_follows settings depth filePath _ generation) ?_
    intro hold' attached hattached
    cases attached with
    | none => exact .pure trivial
    | some unitId =>
      rw [hattached (by simp)]
      exact (mountAttached_balanced settings depth filePath mountPoint fsType _ generation
        unitId).conforms

theorem mountUnhandled_conforms (filePath mountPoint : Text) (fsType : ImageFsType)
    (mode : Option Bool) :
    Conforms (mountUnhandled settings depth filePath mountPoint fsType mode) := by
  unfold mountUnhandled
  refine (keeps_holds _).andThen ?_
  intro readable
  split
  · refine (keeps_holds _).andThen ?_
    intro sleeping
    split
    · exact .pure trivial
    · refine (keeps_findImageCacheEntry filePath).andThen ?_
      intro found
      cases found with
      | none => exact mountReserved_conforms settings depth filePath mountPoint fsType
      | some pair =>
        simp only
        split
        · exact (keeps_modeAccepted mountPoint mode).balanced.conforms
        · exact mountReserved_conforms settings depth filePath mountPoint fsType
  · exact .pure trivial

theorem mountImageWithMode_conforms (filePath : Text) (fsType : ImageFsType)
    (override : Option Bool) :
    Conforms (mountImageWithMode settings depth filePath fsType override) := by
  unfold mountImageWithMode
  split
  · exact .pure trivial
  · refine (keeps_holds _).andThen ?_
    intro sleeping
    split
    · exact .pure trivial
    · refine (handleCachedOrExistingImageMount_balanced settings depth filePath _).andThen ?_
      rintro ⟨handled, success⟩
      cases handled with
      | true =>
        cases success with
        | true => exact (keeps_modeAccepted _ _).balanced.conforms
        | false => exact .pure trivial
      | false => exact mountUnhandled_conforms settings depth filePath _ fsType _

theorem unmountEntry_balanced (index : Int) (entry : EntryView) :
    Balanced (unmountEntry settings depth index entry) := by
  unfold unmountEntry
  refine (unmountImageImpl_balanced settings depth _ _ _ _).andThen ?_
  intro result
  split
  · exact (keeps_invalidateMatchingImageCacheEntry index entry).balanced
  · exact .pure rfl

theorem releaseImageSlot_balanced (index : Int) :
    Balanced (releaseImageSlot settings depth index) := by
  unfold releaseImageSlot
  refine (keeps_getImageCacheEntry index).andThen ?_
  intro found
  cases found with
  | none => exact .pure rfl
  | some entry =>
    simp only
    split
    · exact .pure rfl
    · split
      · exact .pure rfl
      · refine (keeps_holds _).andThen ?_
        intro isProtected
        split
        · exact .pure rfl
        · exact unmountEntry_balanced settings depth index entry

theorem remountEntry_conforms (entry : EntryView) :
    Conforms (remountEntry settings depth entry) := by
  unfold remountEntry
  refine (keeps_detectImageFsType entry.path).andThen ?_
  intro fsType
  refine Balanced.andThen ?_ ?_
  · unfold prepareImageMountRetry
    refine (keeps_activeAndAccessible _).andThen ?_
    intro accessible
    split
    · exact .pure rfl
    · exact releaseRuntimeImageAttachment_balanced settings depth _ _
  · intro prepared
    split
    · exact mountImageWithMode_conforms settings depth entry.path fsType none
    · exact .pure trivial

theorem cleanupImageSlot_conforms (index : Int) :
    Conforms (cleanupImageSlot settings depth index) := by
  have hunmount := fun entry => (unmountEntry_balanced settings depth index entry).conforms
  unfold cleanupImageSlot
  refine (keeps_getImageCacheEntry index).andThen ?_
  intro found
  cases found with
  | none => exact .pure trivial
  | some entry =>
    simp only
    split
    · exact .pure trivial
    · refine (keeps_holds _).andThen ?_
      intro isProtected
      split
      · exact .pure trivial
      · split
        · exact hunmount entry
        · split
          · exact .pure trivial
          · refine (keeps_holds _).andThen ?_
            intro present
            split
            · exact remountEntry_conforms settings depth entry
            · exact hunmount entry

/-- All jobs follow the protocol. -/
theorem Job.conforms (job : Job) : Conforms (job.program settings depth) := by
  cases job with
  | mount path fsType override =>
      exact mountImageWithMode_conforms settings depth path fsType override
  | unmount path unitId backend =>
    refine (unmountImageImpl_balanced settings depth _ _ _ _).andThen ?_
    intro result
    exact .pure trivial
  | releaseMount path => exact (releaseRuntimeImageMount_balanced settings depth path).conforms
  | releaseSlot index => exact (releaseImageSlot_balanced settings depth index).conforms
  | cleanupSlot index => exact cleanupImageSlot_conforms settings depth index

end ShadowMount.ImageMount
