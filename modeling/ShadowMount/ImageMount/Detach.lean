import ShadowMount.ImageMount.Protocol
import ShadowMount.ImageMount.Records

/-!
# Mounting and unmounting images - at most one accepted detach

The right to request the detach of a device is held by at most one record of the cache
or task: the record that names the device, the task that has claimed the record, or the
task that has attached the device and not published it.  The operations of the cache hand
the right on, and an accepted detach uses it up.  The one operation that can double it is
{lit}`cache_image_mount`, which records a device without looking who has it already.

Main results:

- Theorem {lit}`detach_at_most_once`: no second detach, and no two claims at once.
- Theorem {lit}`detached_twice`: a mount that meets an unmount makes it happen.
-/

namespace ShadowMount.ImageMount

open Foundation
open ImageCache (Cache Entry EntryView SlotStep)

variable {n : Nat}
variable {units : AttachBackend → Int → Option Device} {log : List Event} {e e' : Entry}
  {nodes : NodeView} {c : Cache n} {k : Fin n} {generation : Nat} {path : Text} {tasks : List Task}
  {task : Task} {backend : AttachBackend} {unitId : Int} {answer : Answer}

/-! ## Rights -/

/-- The right to request the detach of the device of a unit, with what is known about
the device. -/
structure Right where
  backend : AttachBackend
  unitId : Int
  record : AttachedUnitDetachState
deriving DecidableEq

/-- The right of a record of the cache. -/
def entryRight (e : Entry) : Option Right :=
  if e.valid && decide (0 ≤ e.unitId) && !e.detachAttemptActive && !e.detachState.requested then
    some ⟨e.backend, e.unitId, e.detachState⟩
  else none

/-- The right of a task. -/
def Hold.right : Hold → Option Right
  | .nothing => none
  | .unpublished backend unitId => some ⟨backend, unitId, .zero⟩
  | .claimed _ _ backend unitId record =>
    if record.requested then none else some ⟨backend, unitId, record⟩

/-- Records and tasks. -/
abbrev Holder (n : Nat) := Fin n ⊕ Nat

/-- The right of a record or task. -/
def rightOf (c : Cache n) (tasks : List Task) : Holder n → Option Right
  | .inl k => entryRight (c.entries k)
  | .inr t => (tasks[t]?).bind fun task => task.hold.right

/-- Two rights to the same unit. -/
def SameUnit (r r' : Right) : Prop :=
  r.backend = r'.backend ∧ r.unitId = r'.unitId

def identityOf (record : AttachedUnitDetachState) : NodeIdentity :=
  ⟨record.nodeDevice, record.nodeInode, record.nodeRdev⟩

/-- The right is one to the device that the unit has now, and no detach of it was
accepted. -/
def Live (units : AttachBackend → Int → Option Device) (log : List Event) (r : Right) : Prop :=
  ∃ device, units r.backend r.unitId = some device ∧
    ¬Accepted log ⟨r.backend, r.unitId, device.identity⟩ ∧
    (r.record.nodeIdentityValid = true → identityOf r.record = device.identity)

/-- No two have a right to the same unit, and all rights are live. -/
structure Owned (right : Holder n → Option Right)
    (units : AttachBackend → Int → Option Device) (log : List Event) : Prop where
  single : ∀ x y r r', right x = some r → right y = some r' → SameUnit r r' → x = y
  live : ∀ x r, right x = some r → Live units log r

/-- A change in which at most one holder gets a right that it did not have; nobody else
keeps a right to that unit. -/
theorem Owned.transfer {right right' : Holder n → Option Right}
    {units' : AttachBackend → Int → Option Device} {log' : List Event} (h : Owned right units log)
    (y : Holder n)
    (hothers : ∀ x r', x ≠ y → right' x = some r' → ∃ r, right x = some r ∧ SameUnit r r')
    (hnew : ∀ r', right' y = some r' → ∀ x r, x ≠ y → right x = some r → SameUnit r r' →
      right' x = none) (hlive : ∀ x r', right' x = some r' → Live units' log' r') :
    Owned right' units' log' where
  single := by
    have hone : ∀ x r r', x ≠ y → right' x = some r → right' y = some r' → ¬SameUnit r r' := by
      intro x r r' hne hx hy hsame
      rcases hothers x r hne hx with ⟨r₀, hr₀, hsame₀⟩
      have hnone := hnew r' hy x r₀ hne hr₀ ⟨hsame₀.1.trans hsame.1, hsame₀.2.trans hsame.2⟩
      rw [hx] at hnone
      cases hnone
    intro x z r r' hx hz hsame
    by_cases hxy : x = y
    · by_cases hzy : z = y
      · rw [hxy, hzy]
      · subst hxy
        exact absurd ⟨hsame.1.symm, hsame.2.symm⟩ (hone z r' r hzy hz hx)
    · by_cases hzy : z = y
      · subst hzy
        exact absurd hsame (hone x r r' hxy hx hz)
      · rcases hothers x r hxy hx with ⟨r₁, hr₁, hsame₁⟩
        rcases hothers z r' hzy hz with ⟨r₂, hr₂, hsame₂⟩
        exact h.single x z r₁ r₂ hr₁ hr₂ ⟨hsame₁.1.trans (hsame.1.trans hsame₂.1.symm),
          hsame₁.2.trans (hsame.2.trans hsame₂.2.symm)⟩
  live := hlive

/-- Rights that get fewer stay owned. -/
theorem Owned.keep {right right' : Holder n → Option Right}
    {units' : AttachBackend → Int → Option Device} {log' : List Event} (h : Owned right units log)
    (hsub : ∀ x r', right' x = some r' → ∃ r, right x = some r ∧ SameUnit r r' ∧
      (Live units log r → Live units' log' r')) : Owned right' units' log' where
  single := by
    intro x y r r' hx hy hsame
    rcases hsub x r hx with ⟨r₁, hr₁, hsame₁, -⟩
    rcases hsub y r' hy with ⟨r₂, hr₂, hsame₂, -⟩
    exact h.single x y r₁ r₂ hr₁ hr₂ ⟨hsame₁.1.trans (hsame.1.trans hsame₂.1.symm),
      hsame₁.2.trans (hsame.2.trans hsame₂.2.symm)⟩
  live := by
    intro x r' hx
    rcases hsub x r' hx with ⟨r, hr, -, hlive⟩
    exact hlive (h.live x r hr)

/-! ## Records of the cache -/

/-- The records that hold a right. -/
theorem entryRight_eq_some {r : Right} (h : entryRight e = some r) :
    e.valid = true ∧ 0 ≤ e.unitId ∧ e.detachAttemptActive = false ∧
      e.detachState.requested = false ∧ r = ⟨e.backend, e.unitId, e.detachState⟩ := by
  unfold entryRight at h
  split at h
  · rename_i hcond
    simp only [Bool.and_eq_true, decide_eq_true_eq, Bool.not_eq_true'] at hcond
    cases h
    exact ⟨hcond.1.1.1, hcond.1.1.2, hcond.1.2, hcond.2, rfl⟩
  · cases h

theorem entryRight_of (hvalid : e.valid = true) (hunit : 0 ≤ e.unitId)
    (hidle : e.detachAttemptActive = false) (hfree : e.detachState.requested = false) :
    entryRight e = some ⟨e.backend, e.unitId, e.detachState⟩ := by
  simp [entryRight, hvalid, hunit, hidle, hfree]

/-- A look at the node keeps the recorded identity, or records the present one. -/
theorem refreshed_record (nodes : NodeView) (e : Entry) :
    (ImageCache.refreshAttachedUnitIdentity nodes e).1.detachState = e.detachState ∨
      e.detachState.nodeIdentityValid = false ∧
      nodes e.backend e.unitId =
        some (identityOf (ImageCache.refreshAttachedUnitIdentity nodes e).1.detachState) ∧
      (ImageCache.refreshAttachedUnitIdentity nodes e).1.detachState.requested =
        e.detachState.requested := by
  unfold ImageCache.refreshAttachedUnitIdentity
  split
  · exact .inl rfl
  · split
    · exact .inl rfl
    · rename_i hunknown
      split
      · exact .inl rfl
      · rename_i node hnode
        exact .inr ⟨by simpa using hunknown, hnode, rfl⟩

theorem refreshed_requested (nodes : NodeView) (e : Entry) :
    (ImageCache.refreshAttachedUnitIdentity nodes e).1.detachState.requested =
      e.detachState.requested := by
  rcases refreshed_record nodes e with hsame | ⟨-, -, hrequested⟩
  · rw [hsame]
  · exact hrequested

/-- What a successful lookup says. -/
theorem refreshed_known (h : (ImageCache.refreshAttachedUnitIdentity nodes e).2 = true) :
    (ImageCache.refreshAttachedUnitIdentity nodes e).1.detachState.nodeIdentityValid = true := by
  unfold ImageCache.refreshAttachedUnitIdentity at h ⊢
  split
  · rename_i hnone
    rw [if_pos hnone] at h
    cases h
  · rename_i hsome
    rw [if_neg hsome] at h
    split
    · rename_i hknown
      exact hknown
    · rename_i hunknown
      rw [if_neg hunknown] at h
      split at h
      · cases h
      · rfl

variable {r' : Right}

theorem Live.refresh {w : World n} {r : Right} (h : Live w.units log r) (hsame : SameUnit r r')
    (hrecord : r'.record = r.record ∨
      w.nodes r.backend r.unitId = some (identityOf r'.record)) : Live w.units log r' := by
  rcases h with ⟨device, hdevice, hnot, hidentity⟩
  refine ⟨device, ?_, ?_, ?_⟩
  · rw [← hsame.1, ← hsame.2]
    exact hdevice
  · rw [← hsame.1, ← hsame.2]
    exact hnot
  · intro hvalid
    rcases hrecord with heq | hnode
    · rw [heq] at hvalid ⊢
      exact hidentity hvalid
    · unfold World.nodes at hnode
      rw [hdevice] at hnode
      simp only at hnode
      split at hnode
      · exact (Option.some.inj hnode).symm
      · cases hnode

/-- A right outlives the events that detach no device of it. -/
theorem Live.event {r : Right} {event : Event} (h : Live units log r)
    (hevent : ∀ device, event = .detach device true →
      ¬(device.backend = r.backend ∧ device.unitId = r.unitId)) : Live units (event :: log) r := by
  rcases h with ⟨device, hdevice, hnot, hidentity⟩
  refine ⟨device, hdevice, ?_, hidentity⟩
  intro haccepted
  rcases List.mem_cons.mp haccepted with heq | hmem
  · exact hevent _ heq.symm ⟨rfl, rfl⟩
  · exact hnot hmem

/-- The identity of a device is known while its detach is attempted or requested, and a
reservation has an empty record. -/
def RecordOk (e : Entry) : Prop :=
  e.valid = true →
    (0 ≤ e.unitId → e.detachAttemptActive = true ∨ e.detachState.requested = true →
      e.detachState.nodeIdentityValid = true) ∧
    (e.unitId < 0 → e.state = .attaching →
      e.detachState = .zero ∧ e.detachAttemptActive = false)

structure CacheOk (c : Cache n) : Prop where
  wellFormed : ImageCache.WellFormed c
  records : ∀ k, RecordOk (c.entries k)

theorem CacheOk.set_records (h : CacheOk c) (he : RecordOk e) (j : Fin n) :
    RecordOk ((c.set k e).entries j) := by
  by_cases hjk : j = k
  · subst hjk
    rw [ImageCache.set_entries_self]
    exact he
  · rw [ImageCache.set_entries_of_ne c e hjk]
    exact h.records j

/-- Such a change of a slot keeps the record right. -/
theorem recordOk_of_slotStep (h : SlotStep nodes generation e e') (he : RecordOk e) :
    RecordOk e' := by
  cases h with
  | same heq =>
    rw [heq]
    exact he
  | cleared hcleared =>
    intro hvalid
    rw [hcleared] at hvalid
    cases hvalid
  | renewed hgeneration hunit hrecord =>
    intro _
    exact ⟨fun hle => absurd hunit (by omega), fun _ => hrecord⟩
  | touched state hunit heq =>
    have hrecord := refreshed_record nodes { e with state := state }
    rcases ImageCache.refreshAttachedUnitIdentity_eq nodes { e with state := state } with ⟨d, hd⟩
    rw [← heq] at hrecord hd
    subst hd
    intro hvalid
    refine ⟨?_, fun hlt => absurd hunit (by simpa using hlt)⟩
    intro _ hbusy
    rcases hrecord with hsame | ⟨hunknown, -, hrequested⟩
    · rw [hsame] at hbusy ⊢
      exact (he hvalid).1 hunit hbusy
    · rw [hrequested] at hbusy
      have hknown := (he hvalid).1 hunit hbusy
      simp only at hunknown
      rw [hunknown] at hknown
      cases hknown

/-- A right after such a change was one before it. -/
theorem right_of_slotStep (h : SlotStep nodes generation e e') (hr : entryRight e' = some r') :
    ∃ r, entryRight e = some r ∧ SameUnit r r' ∧ (r'.record = r.record ∨
      nodes r.backend r.unitId = some (identityOf r'.record)) := by
  cases h with
  | same heq =>
    rw [heq] at hr
    exact ⟨r', hr, ⟨rfl, rfl⟩, .inl rfl⟩
  | cleared hcleared =>
    rw [(entryRight_eq_some hr).1] at hcleared
    cases hcleared
  | renewed hgeneration hunit hrecord =>
      exact absurd hunit (by have := (entryRight_eq_some hr).2.1; omega)
  | touched state hunit heq =>
    have hrecord := refreshed_record nodes { e with state := state }
    have hrequested := refreshed_requested nodes { e with state := state }
    rcases ImageCache.refreshAttachedUnitIdentity_eq nodes { e with state := state } with ⟨d, hd⟩
    rw [← heq] at hrecord hrequested hd
    subst hd
    obtain ⟨hvalid, -, hidle, hfree, rfl⟩ := entryRight_eq_some hr
    refine ⟨_, entryRight_of hvalid hunit hidle (hrequested.symm.trans hfree), ⟨rfl, rfl⟩, ?_⟩
    rcases hrecord with hsame | ⟨-, hnode, -⟩
    · exact .inl hsame
    · exact .inr hnode

/-- A record that is not new has kept its identity. -/
theorem old_of_slotStep (h : SlotStep nodes generation e e') (hvalid : e'.valid = true)
    (hold : e'.generation ≤ generation) : e.valid = true ∧ e.path = e'.path ∧
      e.generation = e'.generation ∧ e.detachAttemptActive = e'.detachAttemptActive := by
  cases h with
  | same heq =>
    rw [heq] at hvalid ⊢
    exact ⟨hvalid, rfl, rfl, rfl⟩
  | cleared hcleared =>
    rw [hcleared] at hvalid
    cases hvalid
  | renewed hgeneration hunit hrecord => omega
  | touched state hunit heq =>
    rcases ImageCache.refreshAttachedUnitIdentity_eq nodes { e with state := state } with ⟨d, hd⟩
    rw [← heq] at hd
    subst hd
    exact ⟨hvalid, rfl, rfl, rfl⟩

/-! ## Claims -/

/-- A record of a claimed generation has its attempt active. -/
def ClaimOk (c : Cache n) : Hold → Prop
  | .claimed path generation _ _ record => generation ≤ c.generation ∧
      record.nodeIdentityValid = true ∧ ∀ k, (c.entries k).valid = true →
        (c.entries k).path = path → (c.entries k).generation = generation →
        (c.entries k).detachAttemptActive = true
  | _ => True

theorem ClaimOk.mono {c' : Cache n} {hold : Hold} (h : ClaimOk c hold)
    (hle : c.generation ≤ c'.generation)
    (hold_records : ∀ k, (c'.entries k).valid = true → (c'.entries k).generation ≤ c.generation →
      (c.entries k).valid = true ∧ (c.entries k).path = (c'.entries k).path ∧
      (c.entries k).generation = (c'.entries k).generation ∧
      ((c.entries k).detachAttemptActive = true → (c'.entries k).detachAttemptActive = true)) :
    ClaimOk c' hold := by
  cases hold with
  | nothing => trivial
  | unpublished backend unitId => trivial
  | claimed path generation backend unitId record =>
    obtain ⟨hgeneration, hidentity, hactive⟩ := h
    refine ⟨hgeneration.trans hle, hidentity, ?_⟩
    intro k hvalid hpath hgen
    obtain ⟨hvalid₀, hpath₀, hgen₀, hkeep⟩ := hold_records k hvalid (hgen ▸ hgeneration)
    exact hkeep (hactive k hvalid₀ (hpath₀.trans hpath) (hgen₀.trans hgen))

/-- Claims are kept where every slot changes so. -/
theorem ClaimOk.slots {c' : Cache n} {hold : Hold} (h : ClaimOk c hold)
    (hle : c.generation ≤ c'.generation)
    (hslots : ∀ j, SlotStep nodes c.generation (c.entries j) (c'.entries j)) : ClaimOk c' hold := by
  refine h.mono hle ?_
  intro k hvalid hgeneration
  obtain ⟨hvalid₀, hpath₀, hgen₀, hsame⟩ := old_of_slotStep (hslots k) hvalid hgeneration
  exact ⟨hvalid₀, hpath₀, hgen₀, fun hactive => hsame ▸ hactive⟩

/-- Storing a record of the same mapping and generation keeps the claims, if its attempt
stays active. -/
theorem ClaimOk.set {hold : Hold} (h : ClaimOk c hold) (hvalid : (c.entries k).valid = true)
    (hpath : e.path = (c.entries k).path) (hgeneration : e.generation = (c.entries k).generation)
    (hactive : (c.entries k).detachAttemptActive = true → e.detachAttemptActive = true) :
    ClaimOk (c.set k e) hold := by
  refine h.mono le_rfl ?_
  intro j hj _
  by_cases hjk : j = k
  · subst hjk
    rw [ImageCache.set_entries_self]
    exact ⟨hvalid, hpath.symm, hgeneration.symm, hactive⟩
  · rw [ImageCache.set_entries_of_ne c e hjk] at hj ⊢
    exact ⟨hj, rfl, rfl, id⟩

/-! ## The log -/

/-- A claim that was not finished. -/
def Open (log : List Event) (task : Nat) (path : Text) (generation : Nat) : Prop :=
  ∃ later earlier, log = later ++ .claim task path generation :: earlier ∧
    Event.finish task path generation ∉ later

/-- The promises so far, and who has the claims that were not finished. -/
structure LogOk (log : List Event) (tasks : List Task) : Prop where
  once : NoSecondDetach log
  exclusive : ExclusiveClaims log
  claimed : ∀ t path generation, Open log t path generation → ∃ task backend unitId record,
    tasks[t]? = some task ∧ task.hold = .claimed path generation backend unitId record

theorem Open.of_cons {event : Event} {t : Nat} (h : Open (event :: log) t path generation)
    (hne : event ≠ .claim t path generation) :
    Open log t path generation ∧ event ≠ .finish t path generation := by
  rcases h with ⟨later, earlier, hlog, hnot⟩
  cases later with
  | nil =>
    cases hlog
    exact absurd rfl hne
  | cons first later =>
    cases hlog
    simp only [List.mem_cons, not_or] at hnot
    exact ⟨⟨later, earlier, rfl, hnot.2⟩, fun heq => hnot.1 heq.symm⟩

theorem noSecondDetach_cons {event : Event} (h : NoSecondDetach log)
    (hnew : ∀ device accepted, event = .detach device accepted → ¬Accepted log device) :
    NoSecondDetach (event :: log) := by
  intro later earlier device accepted hlog
  cases later with
  | nil =>
    cases hlog
    exact hnew device accepted rfl
  | cons first later =>
    cases hlog
    exact h later earlier device accepted rfl

theorem exclusiveClaims_cons {event : Event} (h : ExclusiveClaims log)
    (hnew : ∀ t' path generation, event = .claim t' path generation →
      ∀ t, ¬Open log t path generation) : ExclusiveClaims (event :: log) := by
  intro later middle earlier t t' path generation hlog
  cases later with
  | nil =>
    cases hlog
    by_contra hnot
    exact hnew t' path generation rfl t ⟨middle, earlier, rfl, hnot⟩
  | cons first later =>
    cases hlog
    exact h later middle earlier t t' path generation rfl

/-! ## The invariant -/

structure Guarded (w : World n) : Prop where
  cache : CacheOk w.cache
  owned : Owned (rightOf w.cache w.tasks) w.units w.log
  follows : ∀ task ∈ w.tasks, Follows protocol task.hold task.program fun _ _ => True
  claims : ∀ task ∈ w.tasks, ClaimOk w.cache task.hold
  distinct : ∀ (t t' : Nat) (task task' : Task) path generation backend unitId record backend'
    unitId' record', w.tasks[t]? = some task → w.tasks[t']? = some task' →
    task.hold = .claimed path generation backend unitId record →
    task'.hold = .claimed path generation backend' unitId' record' → t = t'
  log : LogOk w.log w.tasks

/-- A mount may be recorded: the unit has a device whose detach was not accepted, no task
has the device in hand, and no record of another image names it. -/
def Recordable (w : World n) (path mountPoint : Text) (backend : AttachBackend) (unitId : Int) :
    Prop :=
  (∃ device, w.units backend unitId = some device ∧
    ¬Accepted w.log ⟨backend, unitId, device.identity⟩) ∧
  (∀ task ∈ w.tasks, ∀ r, task.hold.right = some r →
    ¬(r.backend = backend ∧ r.unitId = unitId)) ∧
  (∀ k r, entryRight (w.cache.entries k) = some r → r.backend = backend → r.unitId = unitId →
    (w.cache.entries k).path = path ∧ (w.cache.entries k).mountPoint = mountPoint)

/-- The step does not wrap the generations, and a mount that it records may be recorded. -/
def Undisturbed (w : World n) : Choice → Prop
  | .run t _ => w.cache.generation + 2 < 2 ^ 64 ∧
      ∀ hold path mountPoint unitId backend next,
        w.tasks[t]? = some ⟨hold, .call (.cacheMount path mountPoint unitId backend) next⟩ →
        isOk (ImageCache.cacheImageMount w.nodes w.cache (some path) (some mountPoint) unitId
          backend).2 = true →
        Recordable w path mountPoint backend unitId
  | _ => True

/-- The rights when one task has something else in hand. -/
def rightWith (c : Cache n) (tasks : List Task) (t : Nat) (hold : Hold) (x : Holder n) :
    Option Right :=
  if x = .inr t then hold.right else rightOf c tasks x

theorem rightOf_set (c : Cache n) {t : Nat} (ht : tasks[t]? = some task) (task' : Task) :
    rightOf c (tasks.set t task') = rightWith c tasks t task'.hold := by
  have hlt : t < tasks.length := by
    rw [List.getElem?_eq_some_iff] at ht
    exact ht.1
  funext x
  unfold rightWith
  cases x with
  | inl k => simp [rightOf]
  | inr s =>
    by_cases hst : s = t
    · subst hst
      simp [rightOf, hlt]
    · have hne : t ≠ s := fun h => hst h.symm
      simp [rightOf, hst, List.getElem?_set_ne hne]

/-- What one call has to establish. -/
structure RunOk (w : World n) (t : Nat) (op : Op) (hold : Hold) (r : op.Response)
    (w' : World n) : Prop where
  possible : possibleResponse op r
  cache : CacheOk w'.cache
  owned : Owned (rightWith w'.cache w.tasks t (hold.after op r)) w'.units w'.log
  others : ∀ s task, s ≠ t → w.tasks[s]? = some task → ClaimOk w'.cache task.hold
  claim : ClaimOk w'.cache (hold.after op r)
  distinct : ∀ path generation backend unitId record,
    hold.after op r = .claimed path generation backend unitId record →
    ∀ s task backend' unitId' record', s ≠ t → w.tasks[s]? = some task →
      task.hold ≠ .claimed path generation backend' unitId' record'
  once : NoSecondDetach w'.log
  exclusive : ExclusiveClaims w'.log
  openClaims : ∀ s path generation, Open w'.log s path generation →
    (s ≠ t ∧ Open w.log s path generation) ∨
    (s = t ∧ ∃ backend unitId record,
      hold.after op r = .claimed path generation backend unitId record)

/-- A call that is in order keeps the invariant. -/
theorem Guarded.of_runOk {w w' : World n} {t : Nat} {op : Op} {hold : Hold}
    {next : op.Response → Pipeline Bool} {r : op.Response} (h : Guarded w)
    (ht : w.tasks[t]? = some ⟨hold, .call op next⟩) (hrun : RunOk w t op hold r w') :
    Guarded { w' with tasks := w.tasks.set t ⟨hold.after op r, next r⟩ } := by
  have hfollows := h.follows _ (List.mem_of_getElem? ht)
  have hget : ∀ s, (w.tasks.set t ⟨hold.after op r, next r⟩)[s]? =
      if s = t then some ⟨hold.after op r, next r⟩ else w.tasks[s]? := by
    intro s
    have hlt : t < w.tasks.length := by
      rw [List.getElem?_eq_some_iff] at ht
      exact ht.1
    by_cases hst : s = t
    · subst hst
      simp [hlt]
    · have hne : t ≠ s := fun heq => hst heq.symm
      simp [hst, List.getElem?_set_ne hne]
  refine ⟨hrun.cache, ?_, ?_, ?_, ?_, ⟨hrun.once, hrun.exclusive, ?_⟩⟩
  · simp only [rightOf_set _ ht]
    exact hrun.owned
  · intro task hmem
    rcases List.mem_or_eq_of_mem_set hmem with hmem | rfl
    · exact h.follows task hmem
    · exact hfollows.2 r hrun.possible
  · intro task hmem
    rcases List.getElem?_of_mem hmem with ⟨s, hs⟩
    simp only [hget s] at hs
    split at hs
    · cases hs
      exact hrun.claim
    · rename_i hst
      exact hrun.others s task hst hs
  · intro s s' task task' path generation backend unitId record backend' unitId' record' hs hs'
      hhold hhold'
    simp only [hget] at hs hs'
    split at hs
    · rename_i hst
      split at hs'
      · rename_i hst'
        rw [hst, hst']
      · rename_i hst'
        cases hs
        exact absurd hhold' (hrun.distinct _ _ _ _ _ hhold s' task' _ _ _ hst' hs')
    · rename_i hst
      split at hs'
      · cases hs'
        exact absurd hhold (hrun.distinct _ _ _ _ _ hhold' s task _ _ _ hst hs)
      · exact h.distinct s s' task task' path generation _ _ _ _ _ _ hs hs' hhold hhold'
  · intro s path generation hopen
    rcases hrun.openClaims s path generation hopen with
      ⟨hne, hopen⟩ | ⟨rfl, backend, unitId, record, hhold⟩
    · rcases h.log.claimed s path generation hopen with ⟨task, backend, unitId, record, hs, hhold⟩
      exact ⟨task, backend, unitId, record, by simp only [hget, hne, if_false, hs], hhold⟩
    · exact ⟨⟨hold.after op r, next r⟩, backend, unitId, record, by simp only [hget, if_true],
        hhold⟩

/-! ## Calls that hand over no device -/

section Calls

variable {w w' : World n} {t : Nat} {op : Op} {hold : Hold} {next : op.Response → Pipeline Bool}
  {r : op.Response}

theorem rightWith_self (ht : tasks[t]? = some task) :
    rightWith c tasks t task.hold = rightOf c tasks := by
  funext x
  unfold rightWith
  split
  · rename_i hx
    rw [hx]
    simp [rightOf, ht]
  · rfl

theorem Guarded.open_of_self (h : Guarded w) (ht : w.tasks[t]? = some ⟨hold, .call op next⟩)
    {s : Nat} (hopen : Open w.log s path generation) :
    (s ≠ t ∧ Open w.log s path generation) ∨
    (s = t ∧ ∃ backend unitId record, hold = .claimed path generation backend unitId record) := by
  by_cases hst : s = t
  · subst hst
    rcases h.log.claimed s path generation hopen with ⟨task, backend, unitId, record, hs, hhold⟩
    rw [ht] at hs
    cases hs
    exact .inr ⟨rfl, backend, unitId, record, hhold⟩
  · exact .inl ⟨hst, hopen⟩

theorem Guarded.distinct_of_self (h : Guarded w) (ht : w.tasks[t]? = some ⟨hold, .call op next⟩)
    {record : AttachedUnitDetachState}
    (hhold : hold = .claimed path generation backend unitId record) (s : Nat) (task : Task)
    (backend' : AttachBackend) (unitId' : Int) (record' : AttachedUnitDetachState) (hne : s ≠ t)
    (hs : w.tasks[s]? = some task) :
    task.hold ≠ .claimed path generation backend' unitId' record' := by
  intro hhold'
  exact hne (h.distinct s t task _ path generation _ _ _ _ _ _ hs ht hhold' hhold)

/-- A call that changes neither devices nor the log nor what the task has in hand, and
hands over no device. -/
theorem Guarded.slots (h : Guarded w) (ht : w.tasks[t]? = some ⟨hold, .call op next⟩)
    (hpossible : possibleResponse op r) (hafter : hold.after op r = hold)
    (hunits : w'.units = w.units) (hlog : w'.log = w.log)
    (hadv : ImageCache.Advance m w.cache w'.cache)
    (hslots : ∀ j, SlotStep w.nodes w.cache.generation (w.cache.entries j) (w'.cache.entries j)) :
    RunOk w t op hold r w' where
  possible := hpossible
  cache := ⟨hadv.wellFormed, fun k => recordOk_of_slotStep (hslots k) (h.cache.records k)⟩
  owned := by
    have hright : rightWith w'.cache w.tasks t (hold.after op r) = rightOf w'.cache w.tasks := by
      rw [hafter]
      exact rightWith_self ht
    rw [hright, hunits, hlog]
    refine h.owned.keep ?_
    intro x r' hx
    cases x with
    | inl k =>
      rcases right_of_slotStep (hslots k) hx with ⟨r, hr, hsame, hrecord⟩
      exact ⟨r, hr, hsame, fun hlive => hlive.refresh hsame hrecord⟩
    | inr s => exact ⟨r', hx, ⟨rfl, rfl⟩, id⟩
  others s task _ hs := (h.claims task (List.mem_of_getElem? hs)).slots hadv.le hslots
  claim := by
    rw [hafter]
    exact (h.claims _ (List.mem_of_getElem? ht)).slots hadv.le hslots
  distinct := by
    intro path generation backend unitId record hhold
    rw [hafter] at hhold
    exact h.distinct_of_self ht hhold
  once := by
    rw [hlog]
    exact h.log.once
  exclusive := by
    rw [hlog]
    exact h.log.exclusive
  openClaims := by
    intro s path generation hopen
    rw [hlog] at hopen
    rw [hafter]
    exact h.open_of_self ht hopen

/-- A call that changes nothing. -/
theorem Guarded.quiet (h : Guarded w) (ht : w.tasks[t]? = some ⟨hold, .call op next⟩)
    (hpossible : possibleResponse op r) (hafter : hold.after op r = hold) :
    RunOk w t op hold r w :=
  h.slots ht hpossible hafter rfl rfl (.refl h.cache.wellFormed) fun _ => .same rfl

end Calls

/-! ## Calls that hand over a device -/

section Devices

variable {w : World n} {t : Nat} {hold : Hold}

theorem rightOf_set_entry {x : Holder n} (hx : x ≠ .inl k) :
    rightOf (c.set k e) tasks x = rightOf c tasks x := by
  cases x with
  | inl j =>
    have hjk : j ≠ k := fun heq => hx (by rw [heq])
    simp only [rightOf, ImageCache.set_entries_of_ne c e hjk]
  | inr s => rfl

theorem rightOf_self (ht : tasks[t]? = some task) : rightOf c tasks (.inr t) = task.hold.right := by
  simp [rightOf, ht]

/-- A device has one holder. -/
theorem Guarded.holder (h : Guarded w) {x y : Holder n} {r : Right}
    (hx : rightOf w.cache w.tasks x = some r) (hy : rightOf w.cache w.tasks y = some r')
    (hsame : SameUnit r r') : x = y :=
  h.owned.single x y r r' hx hy hsame

/-- A published device hands its right to the record. -/
theorem Guarded.publish {next : Outcome Unit → Pipeline Bool} (h : Guarded w) (ht : w.tasks[t]? =
      some ⟨hold, .call (.publishAttachment path generation unitId backend) next⟩)
    (hallows : hold = .unpublished backend unitId) :
    RunOk w t (.publishAttachment path generation unitId backend) hold
      (ImageCache.publishImageAttachment w.nodes w.cache (some path) generation unitId backend).2
      { w with cache := (ImageCache.publishImageAttachment w.nodes w.cache (some path) generation
          unitId backend).1 } := by
  have hadv : ImageCache.Advance 0 w.cache (ImageCache.publishImageAttachment w.nodes w.cache
      (some path) generation unitId backend).1 :=
    ImageCache.publishImageAttachment_advance h.cache.wellFormed
  rcases ImageCache.publishImageAttachment_cases w.nodes w.cache path generation unitId backend with
    ⟨e, hresult⟩ | ⟨k, hvalid, hstate, hfree, hunit, hresult⟩
  · rw [hresult]
    exact h.quiet ht trivial rfl
  · rw [hresult] at hadv ⊢
    obtain ⟨hzero, hidle⟩ := (h.cache.records k hvalid).2 hfree hstate
    -- the new record, with the identity looked up
    have hrecord := refreshed_record w.nodes
      { w.cache.entries k with unitId := unitId, backend := backend }
    have hrequested := refreshed_requested w.nodes
      { w.cache.entries k with unitId := unitId, backend := backend }
    rcases ImageCache.refreshAttachedUnitIdentity_eq w.nodes
      { w.cache.entries k with unitId := unitId, backend := backend } with ⟨d, hd⟩
    have hpublished : ImageCache.publishedEntry w.nodes (w.cache.entries k) unitId backend =
        { w.cache.entries k with unitId := unitId, backend := backend, detachState := d } := hd
    rw [hd] at hrecord hrequested
    rw [hpublished] at hadv ⊢
    simp only [hzero] at hrecord hrequested
    have hself : rightOf w.cache w.tasks (.inr t) = some ⟨backend, unitId, .zero⟩ := by
      rw [rightOf_self ht, hallows]
      rfl
    refine ⟨trivial, ⟨hadv.wellFormed, ?_⟩, ?_, ?_, trivial, nofun,
      h.log.once, h.log.exclusive, ?_⟩
    · refine h.cache.set_records fun _ => ⟨?_, fun hlt => absurd hlt (by simpa using hunit)⟩
      intro _ hbusy
      simp only [hidle, hrequested, AttachedUnitDetachState.zero] at hbusy
      simp at hbusy
    · refine h.owned.transfer (.inl k) ?_ ?_ ?_
      · intro x r' hx hr'
        unfold rightWith at hr'
        split at hr'
        · cases hr'
        · rw [rightOf_set_entry hx] at hr'
          exact ⟨r', hr', rfl, rfl⟩
      · intro r' hr' x r hx hr hsame
        have hplace : r' = ⟨backend, unitId, d⟩ := by
          simp only [rightWith, rightOf, ImageCache.set_entries_self, reduceCtorEq, if_false] at hr'
          exact (entryRight_eq_some hr').2.2.2.2
        rw [hplace] at hsame
        have hxt : x = .inr t := h.holder hr hself hsame
        simp [rightWith, hxt, Hold.after, Hold.right]
      · intro x r' hr'
        by_cases hx : x = .inl k
        · rw [hx] at hr'
          simp only [rightWith, rightOf, ImageCache.set_entries_self, reduceCtorEq, if_false] at hr'
          obtain ⟨-, -, -, -, rfl⟩ := entryRight_eq_some hr'
          refine (h.owned.live _ _ hself).refresh ⟨rfl, rfl⟩ ?_
          rcases hrecord with hsame | ⟨-, hnode, -⟩
          · exact .inl hsame
          · exact .inr hnode
        · unfold rightWith at hr'
          split at hr'
          · cases hr'
          · rw [rightOf_set_entry hx] at hr'
            exact h.owned.live x r' hr'
    · intro s task _ hs
      exact (h.claims task (List.mem_of_getElem? hs)).set hvalid rfl rfl id
    · intro s path' generation' hopen
      rcases h.open_of_self ht hopen with hother | ⟨-, _, _, _, hhold⟩
      · exact .inl hother
      · rw [hallows] at hhold
        cases hhold

theorem Guarded.unclaimed (h : Guarded w) (hvalid : (w.cache.entries k).valid = true)
    (hidle : (w.cache.entries k).detachAttemptActive = false) {s : Nat}
    (hs : w.tasks[s]? = some task) {record : AttachedUnitDetachState} :
    task.hold ≠ .claimed (w.cache.entries k).path (w.cache.entries k).generation backend unitId
      record := by
  intro hhold
  have hclaim := h.claims task (List.mem_of_getElem? hs)
  rw [hhold] at hclaim
  rw [hclaim.2.2 k hvalid rfl rfl] at hidle
  cases hidle

/-- A claimed detach takes the right over from the record. -/
theorem Guarded.claim {next : Outcome EntryView → Pipeline Bool} {response : Outcome EntryView}
    {w' : World n} (h : Guarded w)
    (ht : w.tasks[t]? = some ⟨hold, .call (.claimDetach path generation unitId backend) next⟩)
    (hallows : hold = .nothing)
    (hresponse : w.claimDetach t path generation unitId backend = some (response, w')) :
    RunOk w t (.claimDetach path generation unitId backend) hold response w' := by
  have hadv : ImageCache.Advance 0 w.cache (ImageCache.claimImageCacheDetach w.nodes w.cache
      (some path) generation unitId backend).1 :=
    ImageCache.claimImageCacheDetach_advance h.cache.wellFormed
  unfold World.claimDetach at hresponse
  rcases ImageCache.claimImageCacheDetach_cases w.nodes w.cache path generation unitId backend with
    ⟨c', e, hresult, hslots⟩ |
    ⟨k, hvalid, hpath, hgen, hunit, hbackend, hpos, hidle, hknown, hresult⟩
  · rw [hresult] at hresponse hadv
    cases hresponse
    exact h.slots ht nofun rfl rfl rfl hadv hslots
  · rw [hresult] at hresponse hadv
    cases hresponse
    -- the record that was claimed
    have hidentity := refreshed_known hknown
    have hrecord := refreshed_record w.nodes (w.cache.entries k)
    have hrequested := refreshed_requested w.nodes (w.cache.entries k)
    rcases ImageCache.refreshAttachedUnitIdentity_eq w.nodes (w.cache.entries k) with ⟨d, hd⟩
    have hclaimed : ImageCache.claimedEntry w.nodes (w.cache.entries k) =
        { w.cache.entries k with
          state := .detachRequested, detachAttemptActive := true, detachState := d } := by
      unfold ImageCache.claimedEntry
      rw [hd]
    rw [hd] at hidentity hrecord hrequested
    rw [hclaimed] at hadv ⊢
    have hhold : Hold.after hold (.claimDetach path generation unitId backend)
        (Except.ok (ImageCache.copyCacheEntry { w.cache.entries k with
          state := .detachRequested, detachAttemptActive := true, detachState := d }) :
          Outcome EntryView) = .claimed path generation backend unitId d := rfl
    refine ⟨?_, ⟨hadv.wellFormed, ?_⟩, ?_, ?_, ?_, ?_, ?_, ?_, ?_⟩
    · intro entry hentry
      cases hentry
      exact ⟨hgen, hidentity⟩
    · exact h.cache.set_records fun _ => ⟨fun _ _ => hidentity, nofun⟩
    · rw [hhold]
      -- the record had the right if no detach was requested
      have hsource : ∀ r, (Hold.claimed path generation backend unitId d).right = some r →
          r = ⟨backend, unitId, d⟩ ∧ rightOf w.cache w.tasks (.inl k) =
            some ⟨backend, unitId, (w.cache.entries k).detachState⟩ := by
        intro r hr
        simp only [Hold.right] at hr
        split at hr
        · cases hr
        · rename_i hfree
          have hright := entryRight_of hvalid (hunit ▸ hpos) hidle
            (hrequested.symm.trans (by simpa using hfree))
          rw [hunit, hbackend] at hright
          exact ⟨(Option.some.inj hr).symm, hright⟩
      have hothers : ∀ x r', x ≠ .inr t →
          rightWith (w.cache.set k { w.cache.entries k with
            state := .detachRequested, detachAttemptActive := true, detachState := d }) w.tasks t
            (.claimed path generation backend unitId d) x = some r' →
          x ≠ .inl k ∧ rightOf w.cache w.tasks x = some r' := by
        intro x r' hx hr'
        simp only [rightWith, hx, if_false] at hr'
        have hxk : x ≠ .inl k := by
          rintro rfl
          simp only [rightOf, ImageCache.set_entries_self] at hr'
          have hactive := (entryRight_eq_some hr').2.2.1
          cases hactive
        rw [rightOf_set_entry hxk] at hr'
        exact ⟨hxk, hr'⟩
      refine h.owned.transfer (.inr t) ?_ ?_ ?_
      · intro x r' hx hr'
        exact ⟨r', (hothers x r' hx hr').2, rfl, rfl⟩
      · intro r' hr' x r hx hr hsame
        simp only [rightWith, if_true] at hr'
        obtain ⟨rfl, hk⟩ := hsource r' hr'
        have hxk : x = .inl k := h.holder hr hk hsame
        by_contra hne
        rcases Option.ne_none_iff_exists'.mp hne with ⟨r'', hr''⟩
        exact (hothers x r'' hx hr'').1 hxk
      · intro x r' hr'
        by_cases hx : x = .inr t
        · rw [hx] at hr'
          simp only [rightWith, if_true] at hr'
          obtain ⟨rfl, hk⟩ := hsource r' hr'
          have hlive : Live w.units w.log ⟨backend, unitId, d⟩ := by
            refine (h.owned.live _ _ hk).refresh ⟨rfl, rfl⟩ ?_
            rcases hrecord with hsame | ⟨-, hnode, -⟩
            · exact .inl hsame
            · rw [hbackend, hunit] at hnode
              exact .inr hnode
          exact hlive.event nofun
        · exact (h.owned.live x r' (hothers x r' hx hr').2).event nofun
    · intro s task _ hs
      exact (h.claims task (List.mem_of_getElem? hs)).set hvalid rfl rfl fun _ => rfl
    · rw [hhold]
      refine ⟨hgen ▸ h.cache.wellFormed.generation_le k hvalid, hidentity, ?_⟩
      intro j hj hjpath _
      have hkvalid : ((w.cache.set k { w.cache.entries k with
          state := .detachRequested, detachAttemptActive := true,
          detachState := d }).entries k).valid = true := by
        simpa using hvalid
      have hjk : j = k := by
        refine hadv.wellFormed.path_unique j k hj hkvalid (hjpath.trans ?_)
        simpa using hpath.symm
      rw [hjk]
      simp
    · intro path' generation' backend' unitId' record' heq s task backend'' unitId'' record'' _ hs
      rw [hhold] at heq
      cases heq
      rw [← hpath, ← hgen]
      exact h.unclaimed hvalid hidle hs
    · exact noSecondDetach_cons h.log.once nofun
    · refine exclusiveClaims_cons h.log.exclusive ?_
      rintro t' path' generation' heq s hopen
      cases heq
      rcases h.log.claimed s _ _ hopen with ⟨task, backend', unitId', record', hs, hhold'⟩
      rw [← hpath, ← hgen] at hhold'
      exact h.unclaimed hvalid hidle hs hhold'
    · intro s path' generation' hopen
      by_cases heq : (Event.claim t path generation) = .claim s path' generation'
      · cases heq
        exact .inr ⟨rfl, backend, unitId, d, rfl⟩
      · rcases h.open_of_self ht (hopen.of_cons heq).1 with hother | ⟨-, _, _, _, hheld⟩
        · exact .inl hother
        · rw [hallows] at hheld
          cases hheld

/-- The end of an attempt gives the right back to the record, unless a detach was
accepted. -/
theorem Guarded.finish {path : Text} {generation : Nat} {unitId : Int} {backend : AttachBackend}
    {record : AttachedUnitDetachState} {next : Outcome Unit → Pipeline Bool} (h : Guarded w)
    (ht : w.tasks[t]? =
      some ⟨hold, .call (.finishDetach path generation unitId backend record) next⟩)
    (hallows : hold = .claimed path generation backend unitId record) :
    RunOk w t (.finishDetach path generation unitId backend record) hold
      (ImageCache.finishImageCacheDetachAttempt w.cache (some path) generation unitId backend
        (some record)).2
      { w with
        cache := (ImageCache.finishImageCacheDetachAttempt w.cache (some path) generation unitId
          backend (some record)).1
        log := .finish t path generation :: w.log } := by
  have hadv : ImageCache.Advance 0 w.cache (ImageCache.finishImageCacheDetachAttempt w.cache
      (some path) generation unitId backend (some record)).1 :=
    ImageCache.finishImageCacheDetachAttempt_advance h.cache.wellFormed
  have honce : NoSecondDetach (.finish t path generation :: w.log) :=
    noSecondDetach_cons h.log.once nofun
  have hexclusive : ExclusiveClaims (.finish t path generation :: w.log) :=
    exclusiveClaims_cons h.log.exclusive nofun
  have hopen : ∀ s path' generation',
      Open (.finish t path generation :: w.log) s path' generation' →
      s ≠ t ∧ Open w.log s path' generation' := by
    intro s path' generation' hopen
    obtain ⟨hopen, hne⟩ := hopen.of_cons (by simp)
    rcases h.open_of_self ht hopen with hother | ⟨rfl, _, _, _, hheld⟩
    · exact hother
    · rw [hallows] at hheld
      cases hheld
      exact absurd rfl hne
  rcases ImageCache.finishImageCacheDetachAttempt_cases w.cache path generation unitId backend
    record with ⟨e, hresult⟩ | ⟨k, hvalid, hpath, hgen, hunit, hbackend, hidentity, hresult⟩
  · rw [hresult]
    refine ⟨trivial, h.cache, ?_, fun s task _ hs => h.claims task (List.mem_of_getElem? hs),
      trivial, nofun, honce, hexclusive,
      fun s path' generation' ho => .inl (hopen s path' generation' ho)⟩
    refine h.owned.keep ?_
    intro x r' hr'
    simp only [rightWith] at hr'
    split at hr'
    · cases hr'
    · exact ⟨r', hr', ⟨rfl, rfl⟩, fun hlive => hlive.event nofun⟩
  · rw [hresult] at hadv ⊢
    refine ⟨trivial, ⟨hadv.wellFormed, ?_⟩, ?_, ?_, trivial, nofun,
      honce, hexclusive, fun s path' generation' ho => .inl (hopen s path' generation' ho)⟩
    · exact h.cache.set_records fun _ => ⟨fun _ _ => hidentity, nofun⟩
    · -- the record gets the right that the task had
      have hsource : ∀ r, rightOf (w.cache.set k { w.cache.entries k with
          detachState := record, state := .detachRequested, detachAttemptActive := false })
            w.tasks (.inl k) = some r →
          r = ⟨backend, unitId, record⟩ ∧ rightOf w.cache w.tasks (.inr t) =
            some ⟨backend, unitId, record⟩ := by
        intro r hr
        simp only [rightOf, ImageCache.set_entries_self] at hr
        obtain ⟨-, -, -, hfree, rfl⟩ := entryRight_eq_some hr
        simp only at hfree
        refine ⟨by simp only [hunit, hbackend], ?_⟩
        rw [rightOf_self ht, hallows]
        simp [Hold.right, hfree]
      refine h.owned.transfer (.inl k) ?_ ?_ ?_
      · intro x r' hx hr'
        simp only [rightWith] at hr'
        split at hr'
        · cases hr'
        · rw [rightOf_set_entry hx] at hr'
          exact ⟨r', hr', rfl, rfl⟩
      · intro r' hr' x r hx hr hsame
        simp only [rightWith, reduceCtorEq, if_false] at hr'
        obtain ⟨rfl, hself⟩ := hsource r' hr'
        have hxt : x = .inr t := h.holder hr hself hsame
        simp [rightWith, hxt, Hold.after, Hold.right]
      · intro x r' hr'
        by_cases hx : x = .inl k
        · rw [hx] at hr'
          simp only [rightWith, reduceCtorEq, if_false] at hr'
          obtain ⟨rfl, hself⟩ := hsource r' hr'
          exact (h.owned.live _ _ hself).event nofun
        · simp only [rightWith] at hr'
          split at hr'
          · cases hr'
          · rw [rightOf_set_entry hx] at hr'
            exact (h.owned.live x r' hr').event nofun
    · intro s task hne hs
      have hclaim := h.claims task (List.mem_of_getElem? hs)
      cases htask : task.hold with
      | nothing => trivial
      | unpublished backend' unitId' => trivial
      | claimed path' generation' backend' unitId' record' =>
        rw [htask] at hclaim
        refine ⟨hclaim.1, hclaim.2.1, ?_⟩
        intro j hj hjpath hjgen
        by_cases hjk : j = k
        · -- the other task would hold the same claim
          subst hjk
          simp only [ImageCache.set_entries_self] at hjpath hjgen
          have hsame : task.hold = .claimed path generation backend' unitId' record' := by
            rw [htask, ← hjpath, ← hjgen, hpath, hgen]
          exact absurd hsame (h.distinct_of_self ht hallows s task _ _ _ hne hs)
        · rw [ImageCache.set_entries_of_ne _ _ hjk] at hj hjpath hjgen ⊢
          exact hclaim.2.2 j hj hjpath hjgen

/-- An attached device is in the hand of its task. -/
theorem Guarded.attach {next : Option Int → Pipeline Bool} {response : Option Int} {w' : World n}
    (h : Guarded w) (ht : w.tasks[t]? = some ⟨hold, .call (.attach backend) next⟩)
    (hallows : hold = .nothing) (hresponse : w.attachDevice backend answer = some (response, w')) :
    RunOk w t (.attach backend) hold response w' := by
  unfold World.attachDevice at hresponse
  split at hresponse
  · cases hresponse
    exact h.quiet ht trivial rfl
  · split at hresponse
    · cases hresponse
      exact h.quiet ht trivial rfl
    · split at hresponse
      · cases hresponse
      · rename_i hfresh
        simp only [not_or, Option.not_isSome_iff_eq_none] at hfresh
        cases hresponse
        have hopen : ∀ s path' generation', Open w.log s path' generation' →
            s ≠ t ∧ Open w.log s path' generation' := by
          intro s path' generation' hopen
          rcases h.open_of_self ht hopen with hother | ⟨-, _, _, _, hheld⟩
          · exact hother
          · rw [hallows] at hheld
            cases hheld
        -- nobody had a right to the unit
        have hplace : ∀ x r, rightOf w.cache w.tasks x = some r →
            ¬(r.backend = backend ∧ r.unitId = answer.unitId) := by
          rintro x r hr ⟨hb, hu⟩
          rcases h.owned.live x r hr with ⟨device, hdevice, -⟩
          rw [hb, hu, hfresh.1] at hdevice
          cases hdevice
        refine ⟨trivial, h.cache, ?_, fun s task _ hs => h.claims task (List.mem_of_getElem? hs),
          trivial, nofun, h.log.once, h.log.exclusive,
          fun s path' generation' ho => .inl (hopen s path' generation' ho)⟩
        refine h.owned.transfer (.inr t) ?_ ?_ ?_
        · intro x r' hx hr'
          simp only [rightWith, hx, if_false] at hr'
          exact ⟨r', hr', rfl, rfl⟩
        · intro r' hr' x r hx hr hsame
          simp only [rightWith, if_true, Hold.after, Hold.right] at hr'
          cases hr'
          exact absurd hsame (hplace x r hr)
        · intro x r' hr'
          by_cases hx : x = .inr t
          · rw [hx] at hr'
            simp only [rightWith, if_true, Hold.after, Hold.right] at hr'
            cases hr'
            exact ⟨⟨answer.identity, false⟩, by simp [World.setUnit], hfresh.2, nofun⟩
          · simp only [rightWith, hx, if_false] at hr'
            rcases h.owned.live x r' hr' with ⟨device, hdevice, hnot, hid⟩
            refine ⟨device, ?_, hnot, hid⟩
            simp only [World.setUnit]
            rw [if_neg (hplace x r' hr')]
            exact hdevice

/-- An accepted detach uses the right up. -/
theorem Guarded.detach {next : Option Errno → Pipeline Bool} {response : Option Errno}
    {w' : World n} (h : Guarded w)
    (ht : w.tasks[t]? = some ⟨hold, .call (.detach backend unitId) next⟩)
    (hallows : Hold.allows hold (.detach backend unitId))
    (hresponse : w.detachDevice backend unitId answer = some (response, w')) :
    RunOk w t (.detach backend unitId) hold response w' := by
  have hself : ∃ record, hold.right = some ⟨backend, unitId, record⟩ := by
    rcases hallows with rfl | ⟨path, generation, record, rfl, hfree⟩
    · exact ⟨.zero, rfl⟩
    · exact ⟨record, by simp [Hold.right, hfree]⟩
  rcases hself with ⟨record, hright⟩
  have hself : rightOf w.cache w.tasks (.inr t) = some ⟨backend, unitId, record⟩ := by
    rw [rightOf_self ht]
    exact hright
  rcases h.owned.live _ _ hself with ⟨device, hdevice, hnot, -⟩
  unfold World.detachDevice at hresponse
  simp only at hdevice hnot
  rw [hdevice] at hresponse
  cases hresponse
  have honce : NoSecondDetach
      (.detach ⟨backend, unitId, device.identity⟩ answer.error.isNone :: w.log) := by
    refine noSecondDetach_cons h.log.once ?_
    rintro _ _ heq
    cases heq
    exact hnot
  have hexclusive : ExclusiveClaims
      (.detach ⟨backend, unitId, device.identity⟩ answer.error.isNone :: w.log) :=
    exclusiveClaims_cons h.log.exclusive nofun
  -- a claim that the task holds is still held
  have hheld : ∀ path generation b u rec, hold = .claimed path generation b u rec →
      ∃ b' u' rec', Hold.after hold (.detach backend unitId) answer.error =
        .claimed path generation b' u' rec' ∧ rec'.nodeIdentityValid = rec.nodeIdentityValid := by
    rintro path generation b u rec rfl
    cases answer.error with
    | none => exact ⟨b, u, _, rfl, rfl⟩
    | some e => exact ⟨b, u, rec, rfl, rfl⟩
  have hback : ∀ path generation b u rec, Hold.after hold (.detach backend unitId) answer.error =
      .claimed path generation b u rec → ∃ b' u' rec', hold = .claimed path generation b' u' rec' ∧
        rec.nodeIdentityValid = rec'.nodeIdentityValid := by
    intro path generation b u rec heq
    cases hold with
    | nothing => cases herror : answer.error <;> rw [herror] at heq <;> cases heq
    | unpublished b' u' => cases herror : answer.error <;> rw [herror] at heq <;> cases heq
    | claimed path' generation' b' u' rec' =>
      cases herror : answer.error <;> rw [herror] at heq <;> cases heq
      · exact ⟨_, _, _, rfl, rfl⟩
      · exact ⟨_, _, _, rfl, rfl⟩
  refine ⟨trivial, h.cache, ?_, fun s task _ hs => h.claims task (List.mem_of_getElem? hs), ?_, ?_,
    honce, hexclusive, ?_⟩
  · refine h.owned.keep ?_
    intro x r' hr'
    by_cases hx : x = .inr t
    · rw [hx] at hr' ⊢
      simp only [rightWith, if_true] at hr'
      cases herror : answer.error with
      | some e =>
        rw [herror] at hr'
        have hr : hold.right = some r' := hr'
        rw [rightOf_self ht]
        exact ⟨r', hr, ⟨rfl, rfl⟩, fun hlive => hlive.event fun _ heq => by cases heq⟩
      | none =>
        rw [herror] at hr'
        cases hold with
        | nothing => cases hr'
        | unpublished b u => cases hr'
        | claimed path generation b u rec => cases hr'
    · simp only [rightWith, hx, if_false] at hr'
      refine ⟨r', hr', ⟨rfl, rfl⟩, fun hlive => hlive.event ?_⟩
      rintro other heq ⟨hb, hu⟩
      simp only [Event.detach.injEq] at heq
      rw [← heq.1] at hb hu
      exact hx (h.holder hr' hself ⟨hb.symm, hu.symm⟩)
  · cases hafter : Hold.after hold (.detach backend unitId) answer.error with
    | nothing => trivial
    | unpublished b u => trivial
    | claimed path generation b u rec =>
      rcases hback _ _ _ _ _ hafter with ⟨b', u', rec', hhold, hvalid⟩
      have hclaim := h.claims _ (List.mem_of_getElem? ht)
      simp only [hhold] at hclaim
      exact ⟨hclaim.1, hvalid.trans hclaim.2.1, hclaim.2.2⟩
  · intro path generation b u rec heq
    rcases hback _ _ _ _ _ heq with ⟨b', u', rec', hhold, -⟩
    exact h.distinct_of_self ht hhold
  · intro s path generation hopen
    rcases h.open_of_self ht (hopen.of_cons (by simp)).1 with hother | ⟨hst, b, u, rec, hhold⟩
    · exact .inl hother
    · rcases hheld _ _ _ _ _ hhold with ⟨b', u', rec', hafter, -⟩
      exact .inr ⟨hst, b', u', rec', hafter⟩

/-- A mount is recorded for a device that nobody else has. -/
theorem Guarded.recordMount {mountPoint : Text} {next : Outcome Unit → Pipeline Bool}
    (h : Guarded w)
    (ht : w.tasks[t]? = some ⟨hold, .call (.cacheMount path mountPoint unitId backend) next⟩)
    (hwrap : w.cache.generation + 2 < 2 ^ 64)
    (hrecordable : isOk (ImageCache.cacheImageMount w.nodes w.cache (some path) (some mountPoint)
      unitId backend).2 = true → Recordable w path mountPoint backend unitId) :
    RunOk w t (.cacheMount path mountPoint unitId backend) hold
      (ImageCache.cacheImageMount w.nodes w.cache (some path) (some mountPoint) unitId backend).2
      { w with cache := (ImageCache.cacheImageMount w.nodes w.cache (some path) (some mountPoint)
          unitId backend).1 } := by
  have hadv : ImageCache.Advance 2 w.cache (ImageCache.cacheImageMount w.nodes w.cache
      (some path) (some mountPoint) unitId backend).1 :=
    ImageCache.cacheImageMount_advance h.cache.wellFormed hwrap
  rcases ImageCache.cacheImageMount_cases h.cache.wellFormed hwrap w.nodes path mountPoint unitId
    backend with ⟨c', e, hresult, hslots⟩ | ⟨c', k, hresult, hslots, hgen, hvalid, hmount⟩
  · rw [hresult] at hadv ⊢
    exact h.slots ht trivial rfl rfl rfl hadv hslots
  · rw [hresult] at hadv hrecordable ⊢
    obtain ⟨⟨device, hdevice, hnot⟩, htasks, hrecords⟩ := hrecordable rfl
    simp only at hadv
    have hzero : (c'.entries k).detachState.requested = false := by
      rcases hmount.identity with ⟨e₀, -, -, hzero, hstate⟩
      rw [hstate, refreshed_requested, hzero]
      rfl
    have hothers : ∀ x r', x ≠ .inl k → rightOf c' w.tasks x = some r' →
        ∃ r, rightOf w.cache w.tasks x = some r ∧ SameUnit r r' ∧
          (r'.record = r.record ∨ w.nodes r.backend r.unitId = some (identityOf r'.record)) := by
      intro x r' hx hr'
      cases x with
      | inl j => exact right_of_slotStep (hslots j fun heq => hx (by rw [heq])) hr'
      | inr s => exact ⟨r', hr', ⟨rfl, rfl⟩, .inl rfl⟩
    have hclaims : ∀ hold', ClaimOk w.cache hold' → ClaimOk c' hold' := by
      intro hold' hclaim
      refine hclaim.mono hadv.le ?_
      intro j hj hjgen
      by_cases hjk : j = k
      · rw [hjk] at hjgen
        omega
      · obtain ⟨hj₀, hpath₀, hgen₀, hsame⟩ := old_of_slotStep (hslots j hjk) hj hjgen
        exact ⟨hj₀, hpath₀, hgen₀, fun hactive => hsame ▸ hactive⟩
    refine ⟨trivial, ⟨hadv.wellFormed, ?_⟩, ?_,
      fun s task _ hs => hclaims _ (h.claims task (List.mem_of_getElem? hs)),
      hclaims _ (h.claims _ (List.mem_of_getElem? ht)),
      (fun _ _ _ _ _ hhold => h.distinct_of_self ht hhold), h.log.once, h.log.exclusive,
      fun s path' generation' hopen => h.open_of_self ht hopen⟩
    · intro j
      by_cases hjk : j = k
      · rw [hjk]
        intro _
        refine ⟨?_, fun _ hstate => by rw [hmount.mounted] at hstate; cases hstate⟩
        intro _ hbusy
        rw [hmount.idle, hzero] at hbusy
        simp at hbusy
      · exact recordOk_of_slotStep (hslots j hjk) (h.cache.records j)
    · have hright : rightWith c' w.tasks t (Hold.after hold
          (.cacheMount path mountPoint unitId backend) (Except.ok () : Outcome Unit)) =
          rightOf c' w.tasks := rightWith_self ht
      rw [hright]
      have hplace : ∀ r', rightOf c' w.tasks (.inl k) = some r' →
          r' = ⟨backend, unitId, (c'.entries k).detachState⟩ := by
        intro r' hr'
        obtain ⟨-, -, -, -, rfl⟩ := entryRight_eq_some hr'
        rw [hmount.backend_eq, hmount.unitId_eq]
      refine h.owned.transfer (.inl k) ?_ ?_ ?_
      · intro x r' hx hr'
        rcases hothers x r' hx hr' with ⟨r, hr, hsame, -⟩
        exact ⟨r, hr, hsame⟩
      · intro r' hr' x r hx hr hsame
        rw [hplace r' hr'] at hsame
        cases x with
        | inr s =>
          cases htask : w.tasks[s]? with
          | none => simp [rightOf, htask] at hr
          | some task =>
            rw [rightOf_self htask] at hr
            exact absurd hsame (htasks task (List.mem_of_getElem? htask) r hr)
        | inl j =>
          -- another record of the same mapping is not there any more
          have hjk : j ≠ k := fun heq => hx (by rw [heq])
          by_contra hne
          rcases Option.ne_none_iff_exists'.mp hne with ⟨r'', hr''⟩
          have hj := (entryRight_eq_some hr'').1
          have hpath : (c'.entries j).path = path := by
            have hj₀ := (hrecords j r hr hsame.1 hsame.2).1
            rcases hslots j hjk with heq | hcleared | ⟨-, hunit, -⟩ | ⟨state, -, heq⟩
            · rw [heq]
              exact hj₀
            · rw [hcleared] at hj
              cases hj
            · have := (entryRight_eq_some hr'').2.1
              omega
            · rcases ImageCache.refreshAttachedUnitIdentity_eq w.nodes
                { w.cache.entries j with state := state } with ⟨d, hd⟩
              rw [heq, hd]
              exact hj₀
          exact hjk (hadv.wellFormed.path_unique j k hj hvalid
            (hpath.trans hmount.path_eq.symm))
      · intro x r' hr'
        by_cases hx : x = .inl k
        · rw [hx] at hr'
          rw [hplace r' hr']
          refine ⟨device, hdevice, hnot, ?_⟩
          intro hknown
          rcases hmount.identity with ⟨e₀, hb, hu, hzero₀, hstate⟩
          have hlive : Live w.units w.log ⟨backend, unitId, .zero⟩ :=
            ⟨device, hdevice, hnot, nofun⟩
          have hrefresh : Live w.units w.log ⟨backend, unitId, (c'.entries k).detachState⟩ := by
            refine hlive.refresh ⟨rfl, rfl⟩ ?_
            have hrecord := refreshed_record w.nodes e₀
            rw [← hstate, hzero₀, hb, hu] at hrecord
            rcases hrecord with hsame | ⟨-, hnode, -⟩
            · exact .inl hsame
            · exact .inr hnode
          rcases hrefresh with ⟨device', hdevice', -, hid⟩
          simp only at hdevice'
          rw [hdevice] at hdevice'
          cases hdevice'
          exact hid hknown
        · rcases hothers x r' hx hr' with ⟨r, hr, hsame, hrecord⟩
          exact (h.owned.live x r hr).refresh hsame hrecord

end Devices

/-! ## Whole runs -/

theorem guarded_initial (units : AttachBackend → Int → Option Device) :
    Guarded (World.initial units : World n) where
  cache := ⟨ImageCache.wellFormed_initial, nofun⟩
  owned := by
    have hnone : ∀ x : Holder n, rightOf (Cache.initial : Cache n) [] x = none := by
      intro x
      cases x with
      | inl k => rfl
      | inr t => simp [rightOf]
    constructor
    · intro x y r r' hx
      simp only [World.initial, hnone] at hx
      cases hx
    · intro x r hx
      simp only [World.initial, hnone] at hx
      cases hx
  follows _ hmem := by cases hmem
  claims _ hmem := by cases hmem
  distinct t _ _ _ _ _ _ _ _ _ _ _ ht := by simp [World.initial] at ht
  log := by
    refine ⟨?_, ?_, ?_⟩
    · intro later earlier device accepted hlog
      simp [World.initial] at hlog
    · intro later middle earlier t t' path generation hlog
      simp [World.initial] at hlog
    · rintro t path generation ⟨later, earlier, hlog, -⟩
      simp [World.initial] at hlog

/-- One step of a task. -/
theorem Guarded.runTask {w w' : World n} {t : Nat} (h : Guarded w)
    (hguard : Undisturbed w (.run t answer)) (hnext : w.runTask t answer = some w') :
    Guarded w' := by
  obtain ⟨hwrap, hmounts⟩ := hguard
  have hwf := h.cache.wellFormed
  unfold World.runTask at hnext
  split at hnext
  · rename_i hold op next ht
    have hallows := (h.follows _ (List.mem_of_getElem? ht)).1
    split at hnext
    · rename_i response w₁ hresponse
      cases hnext
      refine h.of_runOk ht ?_
      cases op with
      | findEntry path =>
        cases hresponse
        exact h.quiet ht trivial rfl
      | getEntry index =>
        cases hresponse
        exact h.quiet ht trivial rfl
      | resolveFromCache mountPoint =>
        cases hresponse
        exact h.quiet ht trivial rfl
      | beginAttachment path mountPoint =>
        cases hresponse
        exact h.slots ht trivial rfl rfl rfl (ImageCache.beginImageAttachment_advance hwf hwrap)
          (ImageCache.beginImageAttachment_slots hwf hwrap)
      | cancelAttachment path generation =>
        cases hresponse
        exact h.slots ht trivial rfl rfl rfl (ImageCache.cancelImageAttachment_advance hwf)
          (ImageCache.cancelImageAttachment_slots)
      | publishAttachment path generation unitId backend =>
        cases hresponse
        exact h.publish ht hallows
      | completeAttachment path generation unitId backend =>
        cases hresponse
        exact h.slots ht trivial rfl rfl rfl (ImageCache.completeImageAttachment_advance hwf)
          (ImageCache.completeImageAttachment_slots)
      | cacheMount path mountPoint unitId backend =>
        cases hresponse
        exact h.recordMount ht hwrap (hmounts hold path mountPoint unitId backend next ht)
      | markDetachRequested path generation unitId backend =>
        cases hresponse
        exact h.slots ht trivial rfl rfl rfl (ImageCache.markImageCacheDetachRequested_advance hwf)
          (ImageCache.markImageCacheDetachRequested_slots)
      | claimDetach path generation unitId backend => exact h.claim ht hallows hresponse
      | finishDetach path generation unitId backend record =>
        cases hresponse
        exact h.finish ht hallows
      | invalidate index expected =>
        cases hresponse
        exact h.slots ht trivial rfl rfl rfl (ImageCache.invalidateImageCacheEntry_advance hwf)
          (ImageCache.invalidateImageCacheEntry_slots)
      | attach backend => exact h.attach ht hallows hresponse
      | detach backend unitId => exact h.detach ht hallows hresponse
      | statNode backend unitId =>
        cases hresponse
        exact h.quiet ht trivial rfl
      | mountedDevice mountPoint =>
        have hanswer : w.mountedDevice answer = some (response, w₁) := hresponse
        have hsame : w₁ = w := by
          unfold World.mountedDevice at hanswer
          split at hanswer
          · cases hanswer
            rfl
          · split at hanswer
            · cases hanswer
              rfl
            · cases hanswer
        rw [hsame]
        exact h.quiet ht trivial rfl
      | detectFsType path =>
        cases hresponse
        exact h.quiet ht trivial rfl
      | ask query =>
        cases hresponse
        exact h.quiet ht trivial rfl
      | stop => cases hresponse
    · cases hnext
  · cases hnext

/-- A new job has nothing in hand. -/
theorem Guarded.start {w : World n} (h : Guarded w) (settings : Settings) (depth : Nat)
    (job : Job) :
    Guarded { w with tasks := w.tasks ++ [⟨.nothing, job.program settings depth⟩] } := by
  have hright : rightOf w.cache (w.tasks ++ [⟨.nothing, job.program settings depth⟩]) =
      rightOf w.cache w.tasks := by
    funext x
    cases x with
    | inl k => rfl
    | inr t =>
      by_cases hlt : t < w.tasks.length
      · simp [rightOf, List.getElem?_append_left hlt]
      · have hle : w.tasks.length ≤ t := by omega
        rw [rightOf, rightOf, List.getElem?_append_right hle, List.getElem?_eq_none hle]
        cases t - w.tasks.length with
        | zero => rfl
        | succ m => rfl
  have hget : ∀ (t : Nat) task path generation backend unitId record,
      (w.tasks ++ [⟨.nothing, job.program settings depth⟩])[t]? = some task →
      task.hold = .claimed path generation backend unitId record → w.tasks[t]? = some task := by
    intro t task path generation backend unitId record ht hhold
    by_cases hlt : t < w.tasks.length
    · rw [List.getElem?_append_left hlt] at ht
      exact ht
    · rw [List.getElem?_append_right (by omega)] at ht
      have hmem := List.mem_of_getElem? ht
      rw [List.mem_singleton] at hmem
      rw [hmem] at hhold
      cases hhold
  refine ⟨h.cache, ?_, ?_, ?_, ?_, ⟨h.log.once, h.log.exclusive, ?_⟩⟩
  · simp only [hright]
    exact h.owned
  · intro task hmem
    rcases List.mem_append.mp hmem with hmem | hmem
    · exact h.follows task hmem
    · rw [List.mem_singleton.mp hmem]
      exact Job.conforms settings depth job
  · intro task hmem
    rcases List.mem_append.mp hmem with hmem | hmem
    · exact h.claims task hmem
    · rw [List.mem_singleton.mp hmem]
      trivial
  · intro t t' task task' path generation backend unitId record backend' unitId' record' ht ht'
      hhold hhold'
    exact h.distinct t t' task task' path generation _ _ _ _ _ _
      (hget t task _ _ _ _ _ ht hhold) (hget t' task' _ _ _ _ _ ht' hhold') hhold hhold'
  · intro t path generation hopen
    rcases h.log.claimed t path generation hopen with ⟨task, backend, unitId, record, ht, hhold⟩
    refine ⟨task, backend, unitId, record, ?_, hhold⟩
    have hlt : t < w.tasks.length := (List.getElem?_eq_some_iff.mp ht).1
    rw [List.getElem?_append_left hlt]
    exact ht

/-- Devices may come and go between the calls. -/
theorem Guarded.devices {w : World n} (h : Guarded w) {device : Option Device}
    (hlive : ∀ r, r.backend = backend → r.unitId = unitId →
      Live w.units w.log r → Live (w.setUnit backend unitId device).units w.log r) :
    Guarded (w.setUnit backend unitId device) := by
  refine ⟨h.cache, ?_, h.follows, h.claims, h.distinct, h.log⟩
  refine h.owned.keep ?_
  intro x r hr
  refine ⟨r, hr, ⟨rfl, rfl⟩, ?_⟩
  intro hold
  by_cases hplace : r.backend = backend ∧ r.unitId = unitId
  · exact hlive r hplace.1 hplace.2 hold
  · rcases hold with ⟨d, hd, hnot, hid⟩
    refine ⟨d, ?_, hnot, hid⟩
    simp only [World.setUnit]
    rw [if_neg hplace]
    exact hd

/-- Every step keeps the rights apart. -/
theorem Guarded.next {w w' : World n} {choice : Choice} (h : Guarded w)
    (hguard : Undisturbed w choice) (hnext : w.next choice = some w') : Guarded w' := by
  cases choice with
  | start settings depth job =>
    cases hnext
    exact h.start settings depth job
  | run t answer => exact h.runTask hguard hnext
  | node backend unitId visible =>
    simp only [World.next] at hnext
    split at hnext
    · rename_i device hdevice
      cases hnext
      refine h.devices ?_
      rintro r rfl rfl ⟨d, hd, hnot, hid⟩
      rw [hdevice] at hd
      cases hd
      exact ⟨{ device with visible := visible }, by simp [World.setUnit], hnot, hid⟩
    · cases hnext
  | release backend unitId =>
    simp only [World.next] at hnext
    split at hnext
    · rename_i device hdevice
      split at hnext
      · rename_i haccepted
        cases hnext
        refine h.devices ?_
        rintro r rfl rfl ⟨d, hd, hnot, hid⟩
        rw [hdevice] at hd
        cases hd
        exact absurd haccepted hnot
      · cases hnext
    · cases hnext

/-- In every run in which the generations do not wrap and every mount that is recorded is of
a device that nobody else has, a device whose detach was accepted meets no other detach, and
no two claims for one path and generation are open at once. -/
theorem detach_at_most_once {history : History (World n) Choice} {w : World n}
    (htrace : Trace ((machine n).restrict Undisturbed) history w) :
    NoSecondDetach w.log ∧ ExclusiveClaims w.log := by
  have hguarded : Guarded w := by
    refine htrace.invariant ?_ ?_
    · rintro w ⟨units, rfl⟩
      exact guarded_initial units
    · rintro w choice w' h ⟨hnext, hguard⟩
      exact h.next hguard hnext
  exact ⟨hguarded.log.once, hguarded.log.exclusive⟩

/-! ## A mount that meets an unmount -/

/-- One backend, and one mount point. -/
def raceSettings : Settings where
  exfatBackend := .lvd
  ufsBackend := .lvd
  buildImageMountPoint _ _ := "/mnt/shadowmnt/a".toList
  slots := 1

/-- The next call of a task succeeds, or the condition it asks for holds. -/
def yes (task : Nat) : Choice := .run task {}

/-- The next call of a task fails, or the condition it asks for does not hold. -/
def no (task : Nat) : Choice := .run task { error := some .ENOENT }

def raceMount : Choice := .start raceSettings 1 (.mount "/data/a.img".toList .ufs none)

def raceUnmount : Choice := .start raceSettings 1 (.unmount "/data/a.img".toList 0 .lvd)

/-- A mount finds no record of the image and is interrupted. -/
def firstMount : List Choice := [raceMount, no 0, no 0, yes 0]

/-- A second mount of the image is carried out. -/
def secondMount : List Choice :=
  [raceMount, no 1, no 1, yes 1, no 1, yes 1, no 1, yes 1, yes 1,
    .run 1 { identity := ⟨1, 2, 3⟩ }, .node .lvd 0 true, yes 1, yes 1, no 1, yes 1, no 1, yes 1,
    yes 1, yes 1, no 1, yes 1]

/-- The image is unmounted; the kernel accepts the detach. -/
def firstUnmount : List Choice :=
  [raceUnmount, no 2, yes 2, yes 2, yes 2, yes 2, yes 2, no 2, no 2, yes 2, yes 2, no 2, yes 2,
    yes 2, yes 2]

/-- The first mount goes on: the directory is there and the cache still names a device for
it, so the mount is recorded. -/
def mountResumed : List Choice := [yes 0, yes 0, yes 0, yes 0]

/-- The image is unmounted again, with the same device. -/
def secondUnmount : List Choice :=
  [raceUnmount, no 3, yes 3, yes 3, yes 3, no 3, no 3, yes 3, yes 3, no 3, yes 3, yes 3]

def race : List Choice :=
  firstMount ++ secondMount ++ firstUnmount ++ mountResumed ++ secondUnmount

/-- The step records no mount. -/
def World.isCalm (w : World n) : Choice → Bool
  | .run t _ => decide (w.cache.generation + 2 < 2 ^ 64) &&
      match w.tasks[t]? with
      | some ⟨_, .call (.cacheMount _ _ _ _) _⟩ => false
      | _ => true
  | _ => true

theorem undisturbed_of_isCalm {w : World n} {choice : Choice} (h : w.isCalm choice = true) :
    Undisturbed w choice := by
  cases choice with
  | run t answer =>
    simp only [World.isCalm, Bool.and_eq_true, decide_eq_true_eq] at h
    refine ⟨h.1, ?_⟩
    intro hold path mountPoint unitId backend next ht
    rw [ht] at h
    cases h.2
  | start settings depth job => trivial
  | node backend unitId visible => trivial
  | release backend unitId => trivial

/-- A sequence of steps that record no mount. -/
def World.runCalm : World n → List Choice → Option (World n)
  | w, [] => some w
  | w, choice :: rest =>
    if w.isCalm choice then
      match w.next choice with
      | some w' => w'.runCalm rest
      | none => none
    else none

theorem trace_runCalm {history : History (World n) Choice} {w w' : World n}
    (hw : Trace ((machine n).restrict Undisturbed) history w) (choices : List Choice)
    (h : w.runCalm choices = some w') :
    ∃ history', Trace ((machine n).restrict Undisturbed) history' w' := by
  induction choices generalizing w history with
  | nil =>
    cases h
    exact ⟨history, hw⟩
  | cons choice rest ih =>
    unfold World.runCalm at h
    split at h
    · rename_i hcalm
      split at h
      · rename_i w₁ hnext
        exact ih (hw.step ⟨hnext, undisturbed_of_isCalm hcalm⟩) h
      · cases h
    · cases h

/-- Mounts and an unmount that record no mount: the detach is accepted once. -/
theorem detach_at_most_once_plain_unmount :
    ∃ w : World 1, Accepted w.log ⟨.lvd, 0, ⟨1, 2, 3⟩⟩ ∧ NoSecondDetach w.log ∧
      ExclusiveClaims w.log := by
  have hrun : (((World.initial fun _ _ => none : World 1).runCalm
      (firstMount ++ secondMount ++ firstUnmount)).map (·.log)) =
      some [.finish 2 "/data/a.img".toList 2, .detach ⟨.lvd, 0, ⟨1, 2, 3⟩⟩ true,
        .claim 2 "/data/a.img".toList 2] := by
    decide +kernel
  rcases Option.map_eq_some_iff.mp hrun with ⟨w, hw, hlog⟩
  rcases trace_runCalm (.start ⟨_, rfl⟩) _ hw with ⟨history, htrace⟩
  refine ⟨w, ?_, detach_at_most_once htrace⟩
  rw [hlog]
  decide

/-- A mount that records the device of a pending detach makes the next unmount detach it
once more. -/
theorem detached_twice :
    ∃ w : World 1, Reachable (machine 1) w ∧ ¬NoSecondDetach w.log := by
  have hrun : (((World.initial fun _ _ => none : World 1).runAll race).map (·.log)) =
      some [.detach ⟨.lvd, 0, ⟨1, 2, 3⟩⟩ true, .claim 3 "/data/a.img".toList 3,
        .finish 2 "/data/a.img".toList 2, .detach ⟨.lvd, 0, ⟨1, 2, 3⟩⟩ true,
        .claim 2 "/data/a.img".toList 2] := by
    decide +kernel
  rcases Option.map_eq_some_iff.mp hrun with ⟨w, hw, hlog⟩
  refine ⟨w, reachable_runAll (.start ⟨_, rfl⟩) race hw, ?_⟩
  intro honce
  refine honce [] _ _ _ hlog ?_
  decide

end ShadowMount.ImageMount
