import ShadowMount.ImageCache.Atomicity
import Mathlib.Data.List.Infix

/-!
# Image cache - what the slots are taken by

A new mount fails when every slot is taken.  A slot is taken by an attachment, which the detach
frees, or by a source mapping, which nothing frees: the invalidation asks for the identity of a
device node, and a mapping has none.

Main results:

- Theorem {lit}`full_cache_accounted`: a mount that finds no slot, over every sequence of calls.
- Theorem {lit}`mappings_fill_cache`: mappings alone can take all slots.
-/

namespace ShadowMount.ImageCache

variable {n : Nat}
variable {e : Entry} {op : Operation} {c c' : Cache n} {path mountPoint : Text} {k : Fin n}
  {j i : Nat}

/-- A slot whose entry is attaching, mounted or waiting for its detach. -/
def Live (e : Entry) : Prop :=
  e.valid = true ∧ (e.state = .attaching ∨ e.state = .mounted ∨ e.state = .detachRequested)

/-- A slot that holds a source mapping and no device. -/
def Mapping (e : Entry) : Prop :=
  e.valid = true ∧ cacheEntryIsMetadataOnly e = true ∧ e.detachState = .zero

theorem not_live_of_mapping (h : Mapping e) : ¬ Live e := by
  have hreleased := (cacheEntryIsMetadataOnly_iff.mp h.2.1).1
  simp [Live, hreleased]

/-- A free slot is zeroed, and a taken one holds an attachment or a mapping. -/
def Tidy (e : Entry) : Prop := e = Entry.zero ∨ Live e ∨ Mapping e

/-- The calls that take a slot for a pair. -/
def Operation.pair : Operation → Option Text × Option Text
  | .sourceMapping path mountPoint | .begin path mountPoint | .mount _ path mountPoint _ _ =>
    (path, mountPoint)
  | _ => (none, none)

/-- A call that names the path or the mount point of an entry. -/
def Operation.Names (op : Operation) (e : Entry) : Prop :=
  op.pair.1 = some e.path ∨ op.pair.2 = some e.mountPoint

/-- What one call does to one slot. -/
inductive Turn (op : Operation) (old : Entry) : Entry → Prop where
  | same : Turn op old old
  | freed : (Mapping old → op.Names old) → Turn op old Entry.zero
  | live {new : Entry} : (Mapping old → op.Names old) → Live new → Turn op old new
  | mapped {new : Entry} : (Mapping old → op.Names old) → Mapping new →
      op = .sourceMapping (some new.path) (some new.mountPoint) → Turn op old new

/-- One call leaves a tidy slot tidy. -/
theorem Turn.tidy {old new : Entry} (h : Turn op old new) (hold : Tidy old) : Tidy new := by
  cases h with
  | same => exact hold
  | freed => exact .inl rfl
  | live _ hlive => exact .inr (.inl hlive)
  | mapped _ hmapping => exact .inr (.inr hmapping)

/-- The slots found have the path and the mount point. -/
theorem findMappingIndicesFrom_found {ks : List (Fin n)} {p m p' m' : Option (Fin n)}
    (hp : ∀ k, p = some k → (c.entries k).valid = true ∧ (c.entries k).path = path)
    (hm : ∀ k, m = some k → (c.entries k).valid = true ∧ (c.entries k).mountPoint = mountPoint)
    (h : findMappingIndicesFrom c path mountPoint ks p m = .ok (p', m')) :
    (∀ k, p' = some k → (c.entries k).valid = true ∧ (c.entries k).path = path) ∧
      ∀ k, m' = some k → (c.entries k).valid = true ∧ (c.entries k).mountPoint = mountPoint := by
  induction ks generalizing p m with
  | nil =>
    cases h
    exact ⟨hp, hm⟩
  | cons k ks ih =>
    have hstep : ∀ (owns : Entry → Prop) [DecidablePred owns] (x : Option (Fin n)),
        (c.entries k).valid = true →
        (∀ j, x = some j → (c.entries j).valid = true ∧ owns (c.entries j)) →
        ∀ j, (if owns (c.entries k) then some k else x) = some j →
          (c.entries j).valid = true ∧ owns (c.entries j) := by
      intro owns _ x hvalid hx j hj
      split at hj
      next howns =>
        cases hj
        exact ⟨hvalid, howns⟩
      next => exact hx j hj
    rw [findMappingIndicesFrom] at h
    dsimp only at h
    split at h
    next => exact ih hp hm h
    next hvalid =>
      simp only [Bool.not_eq_true', Bool.not_eq_false] at hvalid
      split at h
      next => cases h
      next =>
        split at h
        next => cases h
        next =>
          exact ih (hstep (·.path = path) p hvalid hp)
            (hstep (·.mountPoint = mountPoint) m hvalid hm) h

/-- What a successful upsert has done to the slots: the one it returns holds the pair, as before
or as a mapping, and at most one mapping of the mount point was given up. -/
structure Upserted (c c' : Cache n) (path mountPoint : Text) (k : Fin n) : Prop where
  others : ∀ j, j ≠ k → c'.entries j = c.entries j ∨
    (c'.entries j = Entry.zero ∧ (c.entries j).mountPoint = mountPoint)
  valid : (c'.entries k).valid = true
  pair : (c'.entries k).path = path ∧ (c'.entries k).mountPoint = mountPoint
  named : Mapping (c.entries k) →
    (c.entries k).path = path ∨ (c.entries k).mountPoint = mountPoint
  kept : c'.entries k = c.entries k ∨ (Tidy (c.entries k) → Mapping (c'.entries k))

theorem Tidy.mapping (h : Tidy e) (hvalid : e.valid = true)
    (hmeta : cacheEntryIsMetadataOnly e = true) : Mapping e := by
  rcases h with rfl | hlive | hmapping
  · cases hvalid
  · have hreleased := (cacheEntryIsMetadataOnly_iff.mp hmeta).1
    simp [Live, hreleased] at hlive
  · exact hmapping

theorem Tidy.idle (h : Tidy e) (hfree : e.valid = false) : e = Entry.zero := by
  rcases h with rfl | hlive | hmapping
  · rfl
  · rw [hlive.1] at hfree
    cases hfree
  · rw [hmapping.1] at hfree
    cases hfree

/-- The table whose slots are all tidy. -/
def Tidied (c : Cache n) : Prop := ∀ k, Tidy (c.entries k)

theorem Tidied.idleSlots (h : Tidied c) : IdleSlots c := by
  intro k hfree
  rw [(h k).idle hfree]
  rfl

theorem Upserted.retarget (hset : c'.entries = (c.set k e).entries) (hold : Mapping (c.entries k) →
      (c.entries k).path = path ∨ (c.entries k).mountPoint = mountPoint) (hvalid : e.valid = true)
    (hpair : e.path = path ∧ e.mountPoint = mountPoint)
    (hkept : e = c.entries k ∨ (Tidy (c.entries k) → Mapping e)) :
    Upserted c c' path mountPoint k where
  others j hj := by
    rw [hset]
    exact .inl (set_entries_of_ne c e hj)
  valid := by
    rw [hset, set_entries_self]
    exact hvalid
  pair := by
    rw [hset, set_entries_self]
    exact hpair
  named := hold
  kept := by
    rw [hset, set_entries_self]
    exact hkept

/-- The slot that a merge frees had the mount point. -/
theorem Upserted.merged {m : Fin n} (hne : k ≠ m) (hm : (c.entries m).mountPoint = mountPoint)
    (h : Upserted (c.set m Entry.zero) c' path mountPoint k) : Upserted c c' path mountPoint k where
  others j hj := by
    rcases h.others j hj with heq | ⟨hzero, hmount⟩
    · by_cases hjm : j = m
      · subst hjm
        rw [set_entries_self] at heq
        exact .inr ⟨heq, hm⟩
      · rw [set_entries_of_ne c _ hjm] at heq
        exact .inl heq
    · by_cases hjm : j = m
      · subst hjm
        exact .inr ⟨hzero, hm⟩
      · rw [set_entries_of_ne c _ hjm] at hmount
        exact .inr ⟨hzero, hmount⟩
  valid := h.valid
  pair := h.pair
  named := by
    have hnamed := h.named
    rwa [set_entries_of_ne c _ hne] at hnamed
  kept := by
    have hkept := h.kept
    rwa [set_entries_of_ne c _ hne] at hkept

/-- The slot that is resolved holds one of the keys, and a merge gives up the mapping of the mount
point. -/
theorem resolveOrMergeMappingIndex_some {merged : Bool}
    (h : resolveOrMergeMappingIndex c path mountPoint = .ok (some k, c', merged)) :
    (c.entries k).valid = true ∧
      ((c.entries k).path = path ∨ (c.entries k).mountPoint = mountPoint) ∧
      (c' = c ∨ ∃ m, k ≠ m ∧ (c.entries m).mountPoint = mountPoint ∧ c' = c.set m Entry.zero) := by
  unfold resolveOrMergeMappingIndex at h
  cases hfind : findMappingIndices c path mountPoint with
  | error err =>
    rw [hfind] at h
    cases h
  | ok found =>
    obtain ⟨p, m⟩ := found
    obtain ⟨hp, hm⟩ := findMappingIndicesFrom_found (p := none) (m := none) nofun nofun hfind
    rw [hfind] at h
    cases p with
    | none =>
      cases h
      exact ⟨(hm k rfl).1, .inr (hm k rfl).2, .inl rfl⟩
    | some p =>
      cases m with
      | none =>
        cases h
        exact ⟨(hp k rfl).1, .inl (hp k rfl).2, .inl rfl⟩
      | some m =>
        dsimp only at h
        split at h
        next =>
          cases h
          exact ⟨(hp k rfl).1, .inl (hp k rfl).2, .inl rfl⟩
        next hne =>
          split at h
          next => cases h
          next =>
            cases h
            exact ⟨(hp k rfl).1, .inl (hp k rfl).2, .inr ⟨m, hne, (hm m rfl).2, rfl⟩⟩

/-- What a successful update has written. -/
theorem upsertImageSourceMapping_ok (h : upsertImageSourceMapping c path mountPoint = (c', .ok k)) :
    Upserted c c' path mountPoint k := by
  unfold upsertImageSourceMapping at h
  split at h
  next => cases h
  next =>
  split at h
  next => cases h
  next =>
  split at h
  next => cases h
  next j c₁ merged hresolved =>
    obtain ⟨hvalid, hnamed, hcases⟩ := resolveOrMergeMappingIndex_some hresolved
    have hretarget : Upserted c₁ c' path mountPoint k ∧ j = k := by
      have hold : c₁.entries j = c.entries j := by
        rcases hcases with rfl | ⟨m, hne, -, rfl⟩
        · rfl
        · exact set_entries_of_ne c _ hne
      dsimp only at h
      split at h
      next => cases h
      next hallowed =>
        split at h
        next hchanged =>
          cases h
          refine ⟨Upserted.retarget rfl (fun _ => hold ▸ hnamed) (hold ▸ hvalid) ⟨rfl, rfl⟩
            (.inr fun htidy => ?_), rfl⟩
          rw [hchanged, Bool.and_true, Bool.not_eq_true', Bool.not_eq_false] at hallowed
          have hmapping := htidy.mapping (hold ▸ hvalid) hallowed
          exact ⟨hmapping.1, by simpa [cacheEntryIsMetadataOnly] using hmapping.2.1, hmapping.2.2⟩
        next hsame =>
          cases h
          simp only [Bool.or_eq_true, not_or, Bool.not_eq_true, ne_eq, decide_not,
            Bool.not_eq_false', decide_eq_true_eq] at hsame
          refine ⟨Upserted.retarget rfl (fun _ => hold ▸ hnamed) (hold ▸ hvalid) ⟨rfl, rfl⟩
            (.inl ?_), rfl⟩
          rw [← hsame.1.2, ← hsame.2]
    obtain ⟨hretarget, rfl⟩ := hretarget
    rcases hcases with rfl | ⟨m, hne, hm, rfl⟩
    · exact hretarget
    · exact hretarget.merged hne hm
  next c₁ merged hresolved =>
    have hsame : c₁ = c := by
      rcases resolveOrMergeMappingIndex_cases hresolved with ⟨-, rfl⟩ | ⟨-, _, _, hp, -⟩
      · rfl
      · cases hp
    subst hsame
    split at h
    next => cases h
    next free hfree =>
      cases h
      have hfree' := findFreeIndex_eq_some hfree
      refine Upserted.retarget rfl (fun hmapping => ?_) rfl ⟨rfl, rfl⟩ (.inr fun htidy => ?_)
      · rw [hmapping.1] at hfree'
        cases hfree'
      · rw [htidy.idle hfree']
        exact ⟨rfl, rfl, rfl⟩

/-- The upsert fails and changes nothing, or returns a slot of the pair. -/
theorem upsertImageSourceMapping_result (h : Tidied c) (path mountPoint : Text) :
    (∃ err, upsertImageSourceMapping c path mountPoint = (c, .error err)) ∨
      ∃ c' k, upsertImageSourceMapping c path mountPoint = (c', .ok k) ∧
        Upserted c c' path mountPoint k := by
  rcases (upsertImageSourceMapping_cases h.idleSlots path mountPoint).2 with hfailed | ⟨k, hok, -⟩
  · exact .inl hfailed
  · have hpair : upsertImageSourceMapping c path mountPoint =
        ((upsertImageSourceMapping c path mountPoint).1, .ok k) := Prod.ext rfl hok
    exact .inr ⟨_, k, hpair, upsertImageSourceMapping_ok hpair⟩

/-- What the upsert does to the other slots. -/
theorem Upserted.turn {j : Fin n} (h : Upserted c c' path mountPoint k)
    (hop : op.pair = (some path, some mountPoint)) (hj : j ≠ k) :
    Turn op (c.entries j) (c'.entries j) := by
  rcases h.others j hj with heq | ⟨hzero, hmount⟩
  · rw [heq]
    exact .same
  · rw [hzero]
    refine .freed fun _ => .inr ?_
    rw [hop, hmount]

theorem Upserted.names (h : Upserted c c' path mountPoint k)
    (hop : op.pair = (some path, some mountPoint)) :
    Mapping (c.entries k) → op.Names (c.entries k) := by
  intro hmapping
  unfold Operation.Names
  rw [hop]
  rcases h.named hmapping with heq | heq
  · exact .inl (congrArg some heq.symm)
  · exact .inr (congrArg some heq.symm)

theorem refreshAttachedUnitIdentity_state (nodes : NodeView) (e : Entry) :
    (refreshAttachedUnitIdentity nodes e).1.state = e.state := by
  obtain ⟨d, hd⟩ := refreshAttachedUnitIdentity_eq nodes e
  rw [hd]

theorem live_refresh {nodes : NodeView} (h : Live e) :
    Live (refreshAttachedUnitIdentity nodes e).1 := by
  unfold Live
  rw [refreshAttachedUnitIdentity_state, (refreshAttachedUnitIdentity_flags nodes e).1]
  exact h

/-- A call that stores an attachment in the slot of one, or frees it. -/
theorem turn_set (hold : ¬ Mapping (c.entries k)) (hnew : e = Entry.zero ∨ Live e ∨ e = c.entries k)
    (j : Fin n) : Turn op (c.entries j) ((c.set k e).entries j) := by
  by_cases hj : j = k
  · subst hj
    rw [set_entries_self]
    rcases hnew with rfl | hlive | rfl
    · exact .freed fun hmapping => absurd hmapping hold
    · exact .live (fun hmapping => absurd hmapping hold) hlive
    · exact .same
  · rw [set_entries_of_ne c e hj]
    exact .same

theorem not_mapping_of_unitId (h : 0 ≤ e.unitId) : ¬ Mapping e := by
  intro hmapping
  have hneg := (cacheEntryIsMetadataOnly_iff.mp hmapping.2.1).2.1
  omega

theorem not_mapping_of_attaching (h : e.state = .attaching) : ¬ Mapping e := by
  intro hmapping
  rw [(cacheEntryIsMetadataOnly_iff.mp hmapping.2.1).1] at h
  cases h

/-- A published attachment is no mapping. -/
theorem not_mapping_of_record {generation : Nat} {unitId : Int} {backend : AttachBackend}
    (hunit : 0 ≤ unitId) (h : findAttachmentRecord c path generation unitId backend = some k) :
    ¬ Mapping (c.entries k) := by
  obtain ⟨-, -, -, hrecord, -⟩ := findAttachmentRecord_eq_some h
  exact not_mapping_of_unitId (hrecord ▸ hunit)

section Operations

variable {nodes : NodeView} {path mountPoint : Option Text} {generation : Nat} {unitId : Int}
variable {backend : AttachBackend} {detachState : Option AttachedUnitDetachState}
variable {index : Int} {expected : Option EntryView} {j : Fin n}

/-- A mapping takes its slot or shares it. -/
theorem sourceMapping_turn (h : Tidied c) :
    Turn (.sourceMapping path mountPoint) (c.entries j)
      ((cacheImageSourceMapping c path mountPoint).1.entries j) := by
  unfold cacheImageSourceMapping
  split
  next path mountPoint =>
    rcases upsertImageSourceMapping_result h path mountPoint with ⟨err, hfailed⟩ | ⟨c', k, hok, hup⟩
    · rw [hfailed]
      exact .same
    · rw [hok]
      by_cases hj : j = k
      · subst hj
        rcases hup.kept with heq | hmapped
        · dsimp only
          rw [heq]
          exact .same
        · refine .mapped (hup.names rfl) (hmapped (h j)) ?_
          rw [hup.pair.1, hup.pair.2]
      · exact hup.turn rfl hj
  next => exact .same

theorem begin_turn (h : Tidied c) :
    Turn (.begin path mountPoint) (c.entries j)
      ((beginImageAttachment c path mountPoint).1.entries j) := by
  unfold beginImageAttachment
  split
  next path mountPoint =>
    rcases upsertImageSourceMapping_result h path mountPoint with ⟨err, hfailed⟩ | ⟨c', k, hok, hup⟩
    · rw [hfailed]
      exact .same
    · rw [hok]
      dsimp only
      split
      next hbusy =>
        by_cases hj : j = k
        · subst hj
          rcases hup.kept with heq | hmapped
          · rw [heq]
            exact .same
          · rw [(hmapped (h j)).2.1] at hbusy
            cases hbusy
        · exact hup.turn rfl hj
      next =>
        dsimp only
        by_cases hj : j = k
        · subst hj
          rw [set_entries_self]
          exact .live (hup.names rfl) ⟨hup.valid, .inl rfl⟩
        · rw [set_entries_of_ne c' _ hj]
          exact hup.turn rfl hj
  next => exact .same

theorem mount_turn (h : Tidied c) :
    Turn (.mount nodes path mountPoint unitId backend) (c.entries j)
      ((cacheImageMount nodes c path mountPoint unitId backend).1.entries j) := by
  unfold cacheImageMount
  split
  next path mountPoint =>
    split
    next => exact .same
    next =>
      rcases upsertImageSourceMapping_result h path mountPoint with
        ⟨err, hfailed⟩ | ⟨c', k, hok, hup⟩
      · rw [hfailed]
        exact .same
      · rw [hok]
        dsimp only
        by_cases hj : j = k
        · subst hj
          rw [set_entries_self]
          exact .live (hup.names rfl) (live_refresh ⟨hup.valid, .inr (.inl rfl)⟩)
        · rw [set_entries_of_ne c' _ hj]
          exact hup.turn rfl hj
  next => exact .same

theorem cancel_turn :
    Turn (.cancel path generation) (c.entries j)
      ((cancelImageAttachment c path generation).1.entries j) := by
  unfold cancelImageAttachment
  split
  next => exact .same
  next =>
  split
  next => exact .same
  next =>
  split
  next => exact .same
  next k hfind =>
  split
  next howned =>
    simp only [isUnpublishedReservation, Bool.and_eq_true, decide_eq_true_eq] at howned
    exact turn_set (not_mapping_of_attaching howned.1.1.2) (.inl rfl) j
  next => exact .same

theorem publish_turn :
    Turn (.publish nodes path generation unitId backend) (c.entries j)
      ((publishImageAttachment nodes c path generation unitId backend).1.entries j) := by
  unfold publishImageAttachment
  split
  next => exact .same
  next =>
  split
  next => exact .same
  next =>
  split
  next => exact .same
  next k hfind =>
  split
  next howned =>
    simp only [isUnpublishedReservation, Bool.and_eq_true, decide_eq_true_eq] at howned
    have hvalid := (findSourcePathIndex_eq_some hfind).1
    apply turn_set (not_mapping_of_attaching howned.1.1.2) (.inr (.inl (live_refresh _))) j
    exact ⟨hvalid, .inl howned.1.1.2⟩
  next => exact .same

theorem complete_turn :
    Turn (.complete nodes path generation unitId backend) (c.entries j)
      ((completeImageAttachment nodes c path generation unitId backend).1.entries j) := by
  unfold completeImageAttachment
  split
  next => exact .same
  next =>
  split
  next => exact .same
  next =>
  split
  next => exact .same
  next k hfind =>
  dsimp only
  split
  next => exact .same
  next howned =>
    simp only [Bool.or_eq_true, not_or, ne_eq, decide_not, Bool.not_eq_true',
      decide_eq_false_iff_not, not_not] at howned
    have hvalid := (findSourcePathIndex_eq_some hfind).1
    apply turn_set (not_mapping_of_attaching howned.2) (.inr (.inl (live_refresh _))) j
    exact ⟨hvalid, .inr (.inl rfl)⟩

theorem mark_turn :
    Turn (.markDetachRequested nodes path generation unitId backend) (c.entries j)
      ((markImageCacheDetachRequested nodes c path generation unitId backend).1.entries j) := by
  unfold markImageCacheDetachRequested
  split
  next => exact .same
  next =>
  split
  next => exact .same
  next hargs =>
  simp only [not_or, not_lt] at hargs
  split
  next => exact .same
  next k hrecord =>
  have hvalid := (findAttachmentRecord_eq_some hrecord).1
  have hlive : Live (refreshAttachedUnitIdentity nodes
      { c.entries k with state := .detachRequested }).1 :=
    live_refresh ⟨hvalid, .inr (.inr rfl)⟩
  have hnot := not_mapping_of_record hargs.2.1 hrecord
  split <;> rename_i e hrefresh <;> rw [hrefresh] at hlive <;>
    exact turn_set hnot (.inr (.inl hlive)) j

/-- A claim keeps the slot of its entry. -/
theorem claim_turn :
    Turn (.claimDetach nodes path generation unitId backend) (c.entries j)
      ((claimImageCacheDetach nodes c path generation unitId backend).1.entries j) := by
  unfold claimImageCacheDetach
  split
  next => exact .same
  next =>
  split
  next => exact .same
  next hargs =>
  simp only [not_or, not_lt, Bool.not_eq_true', Bool.not_eq_false] at hargs
  split
  next => exact .same
  next k hrecord =>
  obtain ⟨hvalid, -, -, hunit, hbackend⟩ := findAttachmentRecord_eq_some hrecord
  have hnot := not_mapping_of_record hargs.2.1 hrecord
  dsimp only
  split
  next => exact .same
  next =>
  split
  next e hrefused =>
    have hsame := (refreshAttachedUnitIdentity_refused (hunit ▸ hargs.2.1) (hbackend ▸ hargs.2.2)
      hrefused).1
    exact turn_set hnot (.inr (.inr hsame)) j
  next e hrefreshed =>
    have hflags := (refreshAttachedUnitIdentity_flags nodes (c.entries k)).1
    rw [hrefreshed] at hflags
    apply turn_set hnot (.inr (.inl _)) j
    exact ⟨hflags.trans hvalid, .inr (.inr rfl)⟩

theorem finish_turn :
    Turn (.finishDetach path generation unitId backend detachState) (c.entries j)
      ((finishImageCacheDetachAttempt c path generation unitId backend detachState).1.entries
        j) := by
  unfold finishImageCacheDetachAttempt
  split
  next =>
    split
    next => exact .same
    next hargs =>
    simp only [not_or, not_lt] at hargs
    split
    next => exact .same
    next k hrecord =>
    have hvalid := (findAttachmentRecord_eq_some hrecord).1
    dsimp only
    split
    next => exact .same
    next =>
      apply turn_set (not_mapping_of_record hargs.2.1 hrecord) (.inr (.inl _)) j
      exact ⟨hvalid, .inr (.inr rfl)⟩
  next => exact .same

theorem invalidate_turn :
    Turn (.invalidate index expected) (c.entries j)
      ((invalidateImageCacheEntry c index expected).1.entries j) := by
  unfold invalidateImageCacheEntry
  split
  next => exact .same
  next expected =>
    split
    next hindex =>
      dsimp only
      split
      next => exact .same
      next =>
      split
      next => exact .same
      next howned =>
        apply turn_set _ (.inl rfl) j
        intro hmapping
        simp [ownsExpectedAttachment, deviceIdentityMatches, hmapping.2.2,
          AttachedUnitDetachState.zero] at howned
    next => exact .same

end Operations

/-- One call either leaves a slot alone, or frees it or gives it to an attachment or a mapping,
and a mapping is given up only by a call that names it. -/
theorem apply_turn (h : Tidied c) (op : Operation) (k : Fin n) :
    Turn op (c.entries k) ((apply c op).entries k) := by
  cases op with
  | sourceMapping => exact sourceMapping_turn h
  | begin => exact begin_turn h
  | cancel => exact cancel_turn
  | publish => exact publish_turn
  | complete => exact complete_turn
  | mount => exact mount_turn h
  | markDetachRequested => exact mark_turn
  | claimDetach => exact claim_turn
  | finishDetach => exact finish_turn
  | invalidate => exact invalidate_turn

theorem Tidied.apply (h : Tidied c) (op : Operation) : Tidied (apply c op) :=
  fun k => (apply_turn h op k).tidy (h k)

/-- Every reachable table is tidy. -/
theorem Tidied.run (h : Tidied c) (ops : List Operation) : Tidied (run c ops) := by
  induction ops generalizing c with
  | nil => exact h
  | cons op ops ih => exact ih (h.apply op)

theorem tidied_initial : Tidied (Cache.initial : Cache n) := fun _ => .inl rfl

/-- A mapping stays while no call names it. -/
theorem run_mapping_kept (h : Tidied c) (hmapping : Mapping (c.entries k)) (later : List Operation)
    (hquiet : ∀ op ∈ later, ¬ op.Names (c.entries k)) : (run c later).entries k = c.entries k := by
  induction later generalizing c with
  | nil => rfl
  | cons op later ih =>
    have hsame : (apply c op).entries k = c.entries k := by
      have hnot := hquiet op List.mem_cons_self
      have hturn := apply_turn h op k
      generalize (apply c op).entries k = new at hturn ⊢
      cases hturn with
      | same => rfl
      | freed hnames => exact absurd (hnames hmapping) hnot
      | live hnames _ => exact absurd (hnames hmapping) hnot
      | mapped hnames _ _ => exact absurd (hnames hmapping) hnot
    have hrest := ih (h.apply op) (hsame ▸ hmapping)
      (fun later hmem => hsame ▸ hquiet later (List.mem_cons_of_mem op hmem))
    rw [hsame] at hrest
    exact hrest

/-- The slot holds the mapping that one of the calls has recorded, and has held it since. -/
def Recorded (ops : List Operation) (k : Fin n) (e : Entry) : Prop :=
  ∃ earlier later, ops = earlier ++ .sourceMapping (some e.path) (some e.mountPoint) :: later ∧
    ∀ since, since <+: later →
      (run (Cache.initial : Cache n)
        (earlier ++ .sourceMapping (some e.path) (some e.mountPoint) :: since)).entries k = e

/-- In every reachable table a mapping is the one that a call has recorded. -/
theorem run_recorded (ops : List Operation) (k : Fin n)
    (hmapping : Mapping ((run (Cache.initial : Cache n) ops).entries k)) :
    Recorded ops k ((run (Cache.initial : Cache n) ops).entries k) := by
  induction ops using List.reverseRecOn with
  | nil => cases hmapping.1
  | append_singleton ops op ih =>
    have hstep : (run (Cache.initial : Cache n) (ops ++ [op])) = apply (run Cache.initial ops) op :=
      run_append _ ops [op]
    rw [hstep] at hmapping ⊢
    generalize hnew : (apply (run (Cache.initial : Cache n) ops) op).entries k = new at hmapping ⊢
    have hturn := apply_turn (tidied_initial.run ops) op k
    rw [hnew] at hturn
    cases hturn with
    | same =>
      obtain ⟨earlier, later, heq, hheld⟩ := ih hmapping
      have hall := congrArg (· ++ [op]) heq
      simp only [List.append_assoc, List.cons_append] at hall
      refine ⟨earlier, later ++ [op], hall, fun since hsince => ?_⟩
      rcases List.prefix_concat_iff.mp hsince with rfl | hshorter
      · rw [← hall, hstep, hnew]
      · exact hheld since hshorter
    | freed => cases hmapping.1
    | live _ hlive => exact absurd hlive (not_live_of_mapping hmapping)
    | mapped _ _ hop =>
      subst hop
      refine ⟨ops, [], rfl, fun since hsince => ?_⟩
      rw [List.prefix_nil.mp hsince, hstep, hnew]

theorem findMappingIndicesFrom_error {ks : List (Fin n)} {p m : Option (Fin n)} {err : Errno}
    (h : findMappingIndicesFrom c path mountPoint ks p m = .error err) : err = .EEXIST := by
  induction ks generalizing p m with
  | nil => cases h
  | cons k ks ih =>
    rw [findMappingIndicesFrom] at h
    dsimp only at h
    split at h
    next => exact ih h
    next =>
    split at h
    next =>
      cases h
      rfl
    next =>
    split at h
    next =>
      cases h
      rfl
    next => exact ih h

/-- The upsert answers `ENOSPC` when no slot is free. -/
theorem upsertImageSourceMapping_full
    (h : upsertImageSourceMapping c path mountPoint = (c', .error .ENOSPC)) (k : Fin n) :
    (c.entries k).valid = true := by
  unfold upsertImageSourceMapping at h
  split at h
  next => cases h
  next =>
  split at h
  next => cases h
  next =>
  split at h
  next err herr =>
    cases h
    unfold resolveOrMergeMappingIndex at herr
    split at herr
    next err hfind =>
      cases herr
      cases findMappingIndicesFrom_error hfind
    next => cases herr
    next => cases herr
    next =>
    split at herr
    next => cases herr
    next =>
    split at herr
    next => cases herr
    next => cases herr
  next =>
    dsimp only at h
    split at h
    next => cases h
    next =>
    split at h
    next => cases h
    next => cases h
  next c₁ merged hresolved =>
    split at h
    next hnone =>
      cases h
      have hused := Fin.eq_false_of_find?_eq_none hnone k
      rcases resolveOrMergeMappingIndex_cases hresolved with ⟨-, rfl⟩ | ⟨-, _, _, hp, -⟩
      · simpa using hused
      · cases hp
    next => cases h

/-- The calls that start a mount or record one. -/
def Operation.Mounts : Operation → Prop
  | .begin _ _ | .mount _ _ _ _ _ => True
  | _ => False

/-- A mount that finds no slot has found all taken. -/
theorem failure_full (hop : op.Mounts) (h : failure c op = some (some .ENOSPC)) (k : Fin n) :
    (c.entries k).valid = true := by
  cases op with
  | begin path mountPoint =>
    have hfailed := failureOf_eq_some h
    unfold beginImageAttachment at hfailed
    split at hfailed
    next path mountPoint =>
      split at hfailed
      next c' err hupsert =>
        cases hfailed
        exact upsertImageSourceMapping_full hupsert k
      next =>
        split at hfailed
        next => cases hfailed
        next => cases hfailed
    next => cases hfailed
  | mount nodes path mountPoint unitId backend =>
    have hfailed := failureOf_eq_some h
    unfold cacheImageMount at hfailed
    split at hfailed
    next path mountPoint =>
      split at hfailed
      next => cases hfailed
      next =>
      split at hfailed
      next c' err hupsert =>
        cases hfailed
        exact upsertImageSourceMapping_full hupsert k
      next => cases hfailed
    next => cases hfailed
  | _ => cases hop

/-- Over every sequence of calls, a mount that finds no slot: every slot holds an attachment or
the mapping that a call has recorded and that has been there since, and such a mapping stays until
a call names its path or its mount point. -/
theorem full_cache_accounted (ops : List Operation) (op : Operation) (hop : op.Mounts)
    (hfull : failure (run (Cache.initial : Cache n) ops) op = some (some .ENOSPC)) (k : Fin n) :
    let e := (run (Cache.initial : Cache n) ops).entries k
    Live e ∨
      (Mapping e ∧ Recorded ops k e ∧
        ∀ later : List Operation, (∀ call ∈ later, ¬ call.Names e) →
          (run (Cache.initial : Cache n) (ops ++ later)).entries k = e) := by
  intro e
  have htidied : Tidied (run (Cache.initial : Cache n) ops) := tidied_initial.run ops
  have hvalid : e.valid = true := failure_full hop hfull k
  rcases htidied k with hzero | hlive | hmapping
  · have hfree : e.valid = false := congrArg Entry.valid hzero
    rw [hfree] at hvalid
    cases hvalid
  · exact .inl hlive
  · refine .inr ⟨hmapping, run_recorded ops k hmapping, fun later hquiet => ?_⟩
    rw [run_append]
    exact run_mapping_kept htidied hmapping later hquiet

/-- One slot, taken by an attachment. -/
theorem full_cache_accounted_attached :
    let ops : List Operation := [.begin (some "/a.ffpkg".toList) (some "/mnt/a".toList)]
    let op : Operation := .begin (some "/b.ffpkg".toList) (some "/mnt/b".toList)
    failure (run (Cache.initial : Cache 1) ops) op = some (some .ENOSPC) ∧
      (Live ((run (Cache.initial : Cache 1) ops).entries 0) ∨
        (Mapping ((run (Cache.initial : Cache 1) ops).entries 0) ∧
          Recorded ops (0 : Fin 1) ((run (Cache.initial : Cache 1) ops).entries 0) ∧
          ∀ later : List Operation,
            (∀ call ∈ later, ¬ call.Names ((run (Cache.initial : Cache 1) ops).entries 0)) →
              (run (Cache.initial : Cache 1) (ops ++ later)).entries 0 =
                (run (Cache.initial : Cache 1) ops).entries 0)) := by
  intro ops op
  have hfull : failure (run (Cache.initial : Cache 1) ops) op = some (some .ENOSPC) := by
    decide +kernel
  exact ⟨hfull, full_cache_accounted ops op trivial hfull 0⟩

/-- Two characters that number an image. -/
def tag (i : Nat) : Text := [Char.ofNat (48 + i / 64), Char.ofNat (48 + i % 64)]

def imagePath (i : Nat) : Text := "/data/".toList ++ tag i

def imageMountPoint (i : Nat) : Text := "/mnt/".toList ++ tag i

theorem tag_inj (hi : i < 4096) (hj : j < 4096) (h : tag i = tag j) : i = j := by
  have hcode : ∀ a < 64, (Char.ofNat (48 + a)).toNat = 48 + a := by decide
  simp only [tag, List.cons.injEq, and_true] at h
  have hhigh := congrArg Char.toNat h.1
  have hlow := congrArg Char.toNat h.2
  rw [hcode _ (by omega), hcode _ (by omega)] at hhigh hlow
  omega

theorem imagePath_inj (hi : i < 4096) (hj : j < 4096) (h : imagePath i = imagePath j) : i = j :=
  tag_inj hi hj (List.append_cancel_left h)

theorem imageMountPoint_inj (hi : i < 4096) (hj : j < 4096)
    (h : imageMountPoint i = imageMountPoint j) : i = j :=
  tag_inj hi hj (List.append_cancel_left h)

/-- Cache the mappings of the first images. -/
def mapImages (i : Nat) : List Operation :=
  (List.range i).map fun j => .sourceMapping (some (imagePath j)) (some (imageMountPoint j))

/-- The first slots hold the mappings of the first images, the others are free. -/
def Filled (c : Cache n) (i : Nat) : Prop :=
  ∀ k : Fin n, if k < i then
      Mapping (c.entries k) ∧ (c.entries k).path = imagePath k ∧
        (c.entries k).mountPoint = imageMountPoint k
    else c.entries k = Entry.zero

/-- A new image has no slot yet. -/
theorem Filled.findMappingIndices (h : Filled c i) (hn : n < 4096) (hi : i ≤ n) :
    findMappingIndices c (imagePath i) (imageMountPoint i) = .ok (none, none) := by
  have hscan : ∀ ks : List (Fin n),
      findMappingIndicesFrom c (imagePath i) (imageMountPoint i) ks none none =
        .ok (none, none) := by
    intro ks
    induction ks with
    | nil => rfl
    | cons k ks ih =>
      rw [findMappingIndicesFrom]
      have hk := h k
      split at hk
      next hlt =>
        obtain ⟨-, hpath, hmount⟩ := hk
        have hpath' : (c.entries k).path ≠ imagePath i := fun heq => by
          have := imagePath_inj (by omega) (by omega) (hpath.symm.trans heq)
          omega
        have hmount' : (c.entries k).mountPoint ≠ imageMountPoint i := fun heq => by
          have := imageMountPoint_inj (by omega) (by omega) (hmount.symm.trans heq)
          omega
        simp [hpath', hmount', ih]
      next =>
        simp [hk, Entry.zero, ih]
  exact hscan _

/-- In a cache filled so far a new mapping takes the first free slot. -/
theorem Filled.upsert (h : Filled c i) (hn : n < 4096) (hi : i ≤ n) :
    upsertImageSourceMapping c (imagePath i) (imageMountPoint i) =
      match findFreeIndex c with
      | none => (c, .error .ENOSPC)
      | some k =>
        let g := nextCacheGeneration c.generation
        ({ c.set k { c.entries k with
              path := imagePath i
              mountPoint := imageMountPoint i
              unitId := -1
              backend := .none
              state := .released
              generation := g
              valid := true } with
            generation := g }, .ok k) := by
  have hresolve : resolveOrMergeMappingIndex c (imagePath i) (imageMountPoint i) =
      .ok (none, c, false) := by
    rw [resolveOrMergeMappingIndex, h.findMappingIndices hn hi]
  have hempty : ¬ (imagePath i = [] ∨ imageMountPoint i = []) := by
    simp [imagePath, imageMountPoint, tag]
  have hshort : ¬ (maxPath ≤ (imagePath i).length ∨ maxPath ≤ (imageMountPoint i).length) := by
    simp [imagePath, imageMountPoint, tag, maxPath]
  cases hfree : findFreeIndex c <;>
    simp only [upsertImageSourceMapping, if_neg hempty, if_neg hshort, hresolve, hfree]

/-- One more mapping fills one more slot. -/
theorem Filled.next (h : Filled c i) (hn : n < 4096) (hi : i < n) :
    Filled (apply c (.sourceMapping (some (imagePath i)) (some (imageMountPoint i)))) (i + 1) := by
  have hfree : findFreeIndex c = some ⟨i, hi⟩ := by
    apply Fin.find?_eq_some_iff.mpr
    constructor
    · have hk := h ⟨i, hi⟩
      simp only [lt_irrefl, if_false] at hk
      simp [hk, Entry.zero]
    · intro j hj
      have hlt : j.val < i := hj
      have hk := h j
      rw [if_pos hlt] at hk
      simp [hk.1.1]
  have hold := h ⟨i, hi⟩
  simp only [lt_irrefl, if_false] at hold
  intro k
  rw [apply, cacheImageSourceMapping, h.upsert hn hi.le, hfree]
  dsimp only
  by_cases hk : k = ⟨i, hi⟩
  · subst hk
    rw [if_pos (Nat.lt_succ_self i), set_entries_self, hold]
    exact ⟨⟨rfl, rfl, rfl⟩, rfl, rfl⟩
  · rw [set_entries_of_ne c _ hk]
    have hne : k.val ≠ i := fun heq => hk (Fin.ext heq)
    have hother := h k
    split at hother
    next hlt =>
      rw [if_pos (by omega)]
      exact hother
    next hge =>
      rw [if_neg (by omega)]
      exact hother

/-- So many images fill so many slots. -/
theorem filled_mapImages (hn : n < 4096) (hi : i ≤ n) :
    Filled (run (Cache.initial : Cache n) (mapImages i)) i := by
  induction i with
  | zero =>
    intro k
    simp [mapImages, run, Cache.initial]
  | succ i ih =>
    have hstep : mapImages (i + 1) = mapImages i ++
        [.sourceMapping (some (imagePath i)) (some (imageMountPoint i))] := by
      simp [mapImages, List.range_succ]
    rw [hstep, run_append]
    exact (ih (by omega)).next hn (by omega)

/-- Not every mount that finds no slot finds attachments in all of them: the mappings of as many
images as there are slots, none of them attached, leave no slot for another one. -/
theorem mappings_fill_cache :
    ¬ ∀ (ops : List Operation) (op : Operation), op.Mounts →
        failure (run (Cache.initial : Cache maxImageMounts) ops) op = some (some .ENOSPC) →
          ∀ k, Live ((run (Cache.initial : Cache maxImageMounts) ops).entries k) := by
  intro hclaim
  have hsize : maxImageMounts < 4096 := by decide
  have hfilled := filled_mapImages hsize (le_refl maxImageMounts)
  have hnone : findFreeIndex (run (Cache.initial : Cache maxImageMounts)
      (mapImages maxImageMounts)) = none := by
    apply Fin.find?_eq_none_iff.mpr
    intro k
    have hk := hfilled k
    rw [if_pos k.isLt] at hk
    simp [hk.1.1]
  have hfull := hfilled.upsert hsize (le_refl _)
  rw [hnone] at hfull
  have hlive := hclaim (mapImages maxImageMounts)
    (.begin (some (imagePath maxImageMounts)) (some (imageMountPoint maxImageMounts))) trivial
    (by rw [failure, beginImageAttachment, hfull]; rfl) ⟨0, by decide⟩
  have hfirst := hfilled ⟨0, by decide⟩
  rw [if_pos (by decide)] at hfirst
  exact not_live_of_mapping hfirst.1 hlive

end ShadowMount.ImageCache
