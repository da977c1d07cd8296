import ShadowMount.PkgBackport.Model

/-!
# Redirect sessions - Records and redirects

Every redirect that exists in the kernel is recorded in a session, with the string of
its destination in the storage of the session.
-/

namespace ShadowMount.PkgBackport

open Foundation

variable {w : World} {s s' : Session} {k : Fin maxSessions}
variable {k' : Fin maxSessions} {storage destination : Text} {offset i : Nat} {r : Live}
  {redirect : Redirect}

@[simp]
theorem updateSession_self (w : World) (k : Fin maxSessions) (f : Session → Session) :
    (w.updateSession k f).sessions k = f (w.sessions k) := by
  simp [World.updateSession]

theorem updateSession_other (h : k' ≠ k) (w : World) (f : Session → Session) :
    (w.updateSession k f).sessions k' = w.sessions k' := by
  simp [World.updateSession, h]

@[simp]
theorem updateSession_mounts (w : World) (k : Fin maxSessions) (f : Session → Session) :
    (w.updateSession k f).mounts = w.mounts := rfl

@[simp]
theorem updateSession_live (w : World) (k : Fin maxSessions) (f : Session → Session) :
    (w.updateSession k f).live = w.live := rfl

@[simp]
theorem updateSession_nextSerial (w : World) (k : Fin maxSessions) (f : Session → Session) :
    (w.updateSession k f).nextSerial = w.nextSerial := rfl

@[simp]
theorem updateSession_released (w : World) (k : Fin maxSessions) (f : Session → Session) :
    (w.updateSession k f).released = w.released := rfl

/-- An offset of a storage points at a destination with its terminator. -/
def PointsAt (storage : Text) (offset : Nat) (destination : Text) : Prop :=
  '\x00' ∉ destination ∧ ∃ rest, storage.drop offset = destination ++ '\x00' :: rest

theorem PointsAt.lt_length (h : PointsAt storage offset destination) : offset < storage.length := by
  rcases h with ⟨-, rest, hdrop⟩
  have hlength := congrArg List.length hdrop
  rw [List.length_drop, List.length_append, List.length_cons] at hlength
  omega

theorem PointsAt.stringAt (h : PointsAt storage offset destination) :
    Session.stringAt storage offset = destination := by
  rcases h with ⟨hzero, rest, hdrop⟩
  unfold Session.stringAt
  rw [hdrop, List.takeWhile_append_of_pos]
  · simp
  · intro c hc
    rw [decide_eq_true_eq]
    rintro rfl
    exact hzero hc

/-- What is written behind a string does not change it. -/
theorem PointsAt.append (h : PointsAt storage offset destination) (more : Text) :
    PointsAt (storage ++ more) offset destination := by
  have hlt := h.lt_length
  rcases h with ⟨hzero, rest, hdrop⟩
  refine ⟨hzero, rest ++ more, ?_⟩
  rw [List.drop_append_of_le_length (Nat.le_of_lt hlt), hdrop, List.append_assoc, List.cons_append]

/-- A string that is written at the end. -/
theorem pointsAt_end (hzero : '\x00' ∉ destination) (storage : Text) :
    PointsAt (storage ++ (destination ++ ['\x00'])) storage.length destination :=
  ⟨hzero, [], List.drop_left⟩

/-- `redirect_destination` in terms of what has been written. -/
theorem redirectDestination_eq (s : Session) (r : Redirect) :
    s.redirectDestination r =
      if r.destinationOffset = deletedOffset ∨ s.written.length ≤ r.destinationOffset then none
      else some (Session.stringAt s.written r.destinationOffset) := by
  unfold Session.redirectDestination Session.written
  cases s.storage with
  | none => simp
  | some storage => simp

theorem redirectDestination_of_pointsAt {r : Redirect} (hmark : r.destinationOffset ≠ deletedOffset)
    (h : PointsAt s.written r.destinationOffset destination) :
    s.redirectDestination r = some destination := by
  rw [redirectDestination_eq, if_neg, h.stringAt]
  rintro (hdeleted | hlength)
  · exact hmark hdeleted
  · exact absurd h.lt_length (Nat.not_lt.mpr hlength)

theorem redirectDestination_deleted {r : Redirect} (h : r.destinationOffset = deletedOffset) :
    s.redirectDestination r = none := by
  rw [redirectDestination_eq, if_pos (.inl h)]

/-- The records of a session are marked, or point at complete destinations inside the
storage, which has room for all that was written. -/
structure Session.Stored (s : Session) : Prop where
  offsets : ∀ r ∈ s.redirects, r.destinationOffset = deletedOffset ∨
    ∃ destination, PointsAt s.written r.destinationOffset destination
  capacity : s.written.length ≤ s.storageCapacity
  size : s.written.length ≤ s.redirects.length * maxPath
  count : s.redirects.length ≤ maxRedirects

/-- A session records a redirect that exists. -/
def Session.Records (s : Session) (r : Live) : Prop :=
  ∃ redirect ∈ s.redirects, redirect.serial = r.serial ∧ s.rootDestination = r.root ∧
    s.namespaceId = r.namespaceId ∧ s.redirectDestination redirect = some r.destination

/-- The records of two sessions are the same. -/
structure Session.SameRecords (s s' : Session) : Prop where
  redirects : s'.redirects = s.redirects
  written : s'.written = s.written
  root : s'.rootDestination = s.rootDestination
  namespaceId : s'.namespaceId = s.namespaceId
  capacity : s.storageCapacity ≤ s'.storageCapacity

theorem Session.SameRecords.stored (h : s.SameRecords s') (hs : s.Stored) : s'.Stored where
  offsets := by rw [h.redirects, h.written]; exact hs.offsets
  capacity := by rw [h.written]; exact Nat.le_trans hs.capacity h.capacity
  size := by rw [h.redirects, h.written]; exact hs.size
  count := by rw [h.redirects]; exact hs.count

theorem Session.SameRecords.records (h : s.SameRecords s') (hr : s.Records r) : s'.Records r := by
  rcases hr with ⟨redirect, hmem, hserial, hroot, hns, hdestination⟩
  refine ⟨redirect, ?_, hserial, h.root.trans hroot, h.namespaceId.trans hns, ?_⟩
  · rw [h.redirects]
    exact hmem
  · rw [redirectDestination_eq] at hdestination ⊢
    rw [h.written]
    exact hdestination

theorem Session.not_records_of_deleted
    (h : ∀ redirect ∈ s.redirects, redirect.destinationOffset = deletedOffset) (r : Live) :
    ¬s.Records r := by
  rintro ⟨redirect, hmem, -, -, -, hdestination⟩
  rw [redirectDestination_deleted (h redirect hmem)] at hdestination
  cases hdestination

/-- Every redirect that exists is recorded; records and deletes have one serial number
each. -/
structure Core (w : World) : Prop where
  stored : ∀ k, (w.sessions k).Stored
  recorded : ∀ r ∈ w.live, ∃ k, (w.sessions k).Records r
  present : ∀ r ∈ w.live, hasNamespace w.mounts r.namespaceId.fsid = true
  fresh : ∀ k, ∀ redirect ∈ (w.sessions k).redirects, redirect.serial < w.nextSerial
  freshReleased : ∀ n ∈ w.released, n < w.nextSerial
  marks : ∀ k, ∀ redirect ∈ (w.sessions k).redirects,
    (redirect.destinationOffset = deletedOffset ↔ redirect.serial ∈ w.released)
  unique : ∀ (k k' : Fin maxSessions) (i i' : Nat) (redirect redirect' : Redirect),
    (w.sessions k).redirects[i]? = some redirect →
    (w.sessions k').redirects[i']? = some redirect' → redirect.serial = redirect'.serial →
    k = k' ∧ i = i'
  once : w.released.Nodup

theorem Core.not_records_of_gone (h : Core w)
    (hgone : hasNamespace w.mounts s.namespaceId.fsid = false) (hr : r ∈ w.live) :
    ¬s.Records r := by
  rintro ⟨redirect, -, -, -, hns, -⟩
  have hpresent := h.present r hr
  rw [← hns, hgone] at hpresent
  cases hpresent

theorem Core.see (h : Core w) (view : View) : Core (w.see view) where
  stored := h.stored
  recorded r hr := h.recorded r (List.mem_filter.mp hr).1
  present _ hr := (List.mem_filter.mp hr).2
  fresh := h.fresh
  freshReleased := h.freshReleased
  marks := h.marks
  unique := h.unique
  once := h.once

/-- A session that records the same may change in other ways. -/
theorem Core.same (h : Core w) {f : Session → Session}
    (hf : (w.sessions k).SameRecords (f (w.sessions k))) : Core (w.updateSession k f) := by
  have hsame : ∀ k', (w.sessions k').SameRecords ((w.updateSession k f).sessions k') := by
    intro k'
    by_cases hk : k' = k
    · subst hk
      rw [updateSession_self]
      exact hf
    · rw [updateSession_other hk]
      exact ⟨rfl, rfl, rfl, rfl, Nat.le_refl _⟩
  refine ⟨?_, ?_, h.present, ?_, h.freshReleased, ?_, ?_, h.once⟩
  · intro k'
    exact (hsame k').stored (h.stored k')
  · intro r hr
    rcases h.recorded r hr with ⟨k', hk'⟩
    exact ⟨k', (hsame k').records hk'⟩
  · intro k'
    rw [(hsame k').redirects]
    exact h.fresh k'
  · intro k'
    rw [(hsame k').redirects]
    exact h.marks k'
  · intro k₁ k₂ i₁ i₂ r₁ r₂
    rw [(hsame k₁).redirects, (hsame k₂).redirects]
    exact h.unique k₁ k₂ i₁ i₂ r₁ r₂

/-- A session is given up, or set up anew, when it records no redirect that exists. -/
theorem Core.clear (h : Core w) {f : Session → Session}
    (hnone : ∀ r ∈ w.live, ¬(w.sessions k).Records r)
    (hredirects : (f (w.sessions k)).redirects = []) (hwritten : (f (w.sessions k)).written = []) :
    Core (w.updateSession k f) := by
  have hsub : ∀ k' redirect (i : Nat),
      ((w.updateSession k f).sessions k').redirects[i]? = some redirect →
      (w.sessions k').redirects[i]? = some redirect := by
    intro k' redirect i hget
    by_cases hk : k' = k
    · subst hk
      rw [updateSession_self, hredirects] at hget
      cases hget
    · rwa [updateSession_other hk] at hget
  have hmem : ∀ k' redirect, redirect ∈ ((w.updateSession k f).sessions k').redirects →
      redirect ∈ (w.sessions k').redirects := by
    intro k' redirect hredirect
    rcases List.mem_iff_getElem?.mp hredirect with ⟨i, hi⟩
    exact List.mem_of_getElem? (hsub k' redirect i hi)
  refine ⟨?_, ?_, h.present, ?_, h.freshReleased, ?_, ?_, h.once⟩
  · intro k'
    by_cases hk : k' = k
    · subst hk
      rw [updateSession_self]
      refine ⟨?_, ?_, ?_, ?_⟩
      · intro r hr
        rw [hredirects] at hr
        cases hr
      · rw [hwritten]
        exact Nat.zero_le _
      · rw [hwritten]
        exact Nat.zero_le _
      · rw [hredirects]
        exact Nat.zero_le _
    · rw [updateSession_other hk]
      exact h.stored k'
  · intro r hr
    rcases h.recorded r hr with ⟨k', hk'⟩
    refine ⟨k', ?_⟩
    rw [updateSession_other]
    · exact hk'
    · rintro rfl
      exact hnone r hr hk'
  · intro k' redirect hredirect
    exact h.fresh k' redirect (hmem k' redirect hredirect)
  · intro k' redirect hredirect
    exact h.marks k' redirect (hmem k' redirect hredirect)
  · intro k₁ k₂ i₁ i₂ r₁ r₂ h₁ h₂
    exact h.unique k₁ k₂ i₁ i₂ r₁ r₂ (hsub k₁ r₁ i₁ h₁) (hsub k₂ r₂ i₂ h₂)

theorem addRedirect_self (w : World) (k : Fin maxSessions) (destination : Text) :
    (w.addRedirect k destination).sessions k = { w.sessions k with
      redirects := (w.sessions k).redirects ++ [⟨(w.sessions k).written.length, w.nextSerial⟩]
      storage := some ((w.sessions k).written ++ (destination ++ ['\x00'])) } := by
  simp [World.addRedirect, World.updateSession]

theorem addRedirect_other (h : k' ≠ k) (w : World) (destination : Text) :
    (w.addRedirect k destination).sessions k' = w.sessions k' := by
  simp [World.addRedirect, World.updateSession, h]

theorem getElem?_addRedirect {w : World}
    (h : ((w.addRedirect k destination).sessions k').redirects[i]? = some redirect) :
    (w.sessions k').redirects[i]? = some redirect ∨
      (k' = k ∧ i = (w.sessions k).redirects.length ∧
        redirect = ⟨(w.sessions k).written.length, w.nextSerial⟩) := by
  by_cases hk : k' = k
  · subst hk
    rw [addRedirect_self] at h
    simp only [List.getElem?_append] at h
    split at h
    · exact .inl h
    · rename_i hlength
      right
      have hlast : i - (w.sessions k').redirects.length = 0 := by
        by_contra hne
        rw [List.getElem?_eq_none] at h
        · cases h
        · rw [List.length_singleton]
          omega
      rw [hlast] at h
      exact ⟨rfl, by omega, (Option.some.inj h).symm⟩
  · rw [addRedirect_other hk] at h
    exact .inl h

theorem mem_addRedirect {w : World}
    (h : redirect ∈ ((w.addRedirect k destination).sessions k').redirects) :
    redirect ∈ (w.sessions k').redirects ∨
      redirect = ⟨(w.sessions k).written.length, w.nextSerial⟩ := by
  rcases List.mem_iff_getElem?.mp h with ⟨i, hi⟩
  rcases getElem?_addRedirect hi with hold | ⟨-, -, hnew⟩
  · exact .inl (List.mem_of_getElem? hold)
  · exact .inr hnew

theorem mem_live_addRedirect {w : World} (h : r ∈ (w.addRedirect k destination).live) :
    (r = ⟨w.nextSerial, (w.sessions k).rootDestination, (w.sessions k).namespaceId,
        destination⟩ ∧ hasNamespace w.mounts (w.sessions k).namespaceId.fsid = true) ∨
      r ∈ w.live := by
  have h' : r ∈ (if hasNamespace w.mounts (w.sessions k).namespaceId.fsid then
      ⟨w.nextSerial, (w.sessions k).rootDestination, (w.sessions k).namespaceId,
        destination⟩ :: w.live else w.live) := h
  split at h'
  · rename_i hpresent
    exact (List.mem_cons.mp h').imp (fun hnew => ⟨hnew, hpresent⟩) id
  · exact .inr h'

theorem written_addRedirect (w : World) (k : Fin maxSessions) (destination : Text) :
    ((w.addRedirect k destination).sessions k).written =
      (w.sessions k).written ++ (destination ++ ['\x00']) := by
  rw [addRedirect_self]
  rfl

theorem pointsAt_addRedirect (hzero : '\x00' ∉ destination) (w : World) (k : Fin maxSessions) :
    PointsAt ((w.addRedirect k destination).sessions k).written
      (w.sessions k).written.length destination := by
  rw [written_addRedirect]
  exact pointsAt_end hzero _

theorem PointsAt.addRedirect {text : Text} (h : PointsAt (w.sessions k).written offset text)
    (destination : Text) :
    PointsAt ((w.addRedirect k destination).sessions k).written offset text := by
  rw [written_addRedirect]
  exact h.append _

/-- One more redirect is stored. -/
theorem Session.Stored.addRedirect (h : (w.sessions k).Stored) (hzero : '\x00' ∉ destination)
    (hlength : destination.length < maxPath)
    (hcount : (w.sessions k).redirects.length < maxRedirects)
    (hroom : (w.sessions k).written.length + (destination.length + 1) ≤
      (w.sessions k).storageCapacity) : ((w.addRedirect k destination).sessions k).Stored := by
  have hsize := h.size
  refine ⟨?_, ?_, ?_, ?_⟩
  · intro r hr
    rcases mem_addRedirect hr with hold | rfl
    · rcases h.offsets r hold with hdeleted | ⟨text, htext⟩
      · exact .inl hdeleted
      · exact .inr ⟨text, htext.addRedirect destination⟩
    · exact .inr ⟨destination, pointsAt_addRedirect hzero w k⟩
  · rw [written_addRedirect, addRedirect_self]
    simp only [List.length_append, List.length_singleton]
    exact hroom
  · rw [written_addRedirect, addRedirect_self]
    simp only [List.length_append, List.length_singleton]
    rw [Nat.add_mul]
    omega
  · rw [addRedirect_self]
    simp only [List.length_append, List.length_singleton]
    exact hcount

theorem Session.Records.addRedirect (h : (w.sessions k').Records r) (hs : (w.sessions k').Stored)
    (destination : Text) : ((w.addRedirect k destination).sessions k').Records r := by
  rcases h with ⟨redirect, hredirect, hserial, hroot, hns, hdestination⟩
  by_cases hk : k' = k
  · subst hk
    refine ⟨redirect, ?_, hserial, ?_, ?_, ?_⟩
    · rw [addRedirect_self]
      exact List.mem_append_left _ hredirect
    · rw [addRedirect_self]
      exact hroot
    · rw [addRedirect_self]
      exact hns
    · have hmark : redirect.destinationOffset ≠ deletedOffset := by
        intro hdeleted
        rw [redirectDestination_deleted hdeleted] at hdestination
        cases hdestination
      obtain ⟨text, htext⟩ := (hs.offsets redirect hredirect).resolve_left hmark
      rw [redirectDestination_of_pointsAt hmark htext] at hdestination
      rw [redirectDestination_of_pointsAt hmark (htext.addRedirect destination)]
      exact hdestination
  · rw [addRedirect_other hk]
    exact ⟨redirect, hredirect, hserial, hroot, hns, hdestination⟩

theorem Session.Stored.end_ne_deleted (h : s.Stored)
    (hcount : s.redirects.length < maxRedirects) : s.written.length ≠ deletedOffset := by
  have hsize := h.size
  unfold deletedOffset
  unfold maxRedirects at hcount
  unfold maxPath at hsize
  omega

/-- A new redirect is recorded as a complete string. -/
theorem Core.add (h : Core w) (hzero : '\x00' ∉ destination)
    (hlength : destination.length < maxPath)
    (hcount : (w.sessions k).redirects.length < maxRedirects)
    (hroom : (w.sessions k).written.length + (destination.length + 1) ≤
      (w.sessions k).storageCapacity) : Core (w.addRedirect k destination) := by
  have hoffset := (h.stored k).end_ne_deleted hcount
  have hnewSerial : ∀ k', ∀ r ∈ (w.sessions k').redirects, r.serial ≠ w.nextSerial :=
    fun k' r hr => Nat.ne_of_lt (h.fresh k' r hr)
  refine ⟨?_, ?_, ?_, ?_, ?_, ?_, ?_, h.once⟩
  · intro k'
    by_cases hk : k' = k
    · subst hk
      exact (h.stored k').addRedirect hzero hlength hcount hroom
    · rw [addRedirect_other hk]
      exact h.stored k'
  · intro r hr
    rcases mem_live_addRedirect hr with ⟨rfl, -⟩ | hold
    · refine ⟨k, ⟨(w.sessions k).written.length, w.nextSerial⟩, ?_, rfl, ?_, ?_, ?_⟩
      · rw [addRedirect_self]
        exact List.mem_append_right _ List.mem_cons_self
      · rw [addRedirect_self]
      · rw [addRedirect_self]
      · exact redirectDestination_of_pointsAt hoffset (pointsAt_addRedirect hzero w k)
    · rcases h.recorded r hold with ⟨k', hrecords⟩
      exact ⟨k', hrecords.addRedirect (h.stored k') destination⟩
  · intro r hr
    rcases mem_live_addRedirect hr with ⟨rfl, hpresent⟩ | hold
    · exact hpresent
    · exact h.present r hold
  · intro k' redirect hredirect
    show redirect.serial < w.nextSerial + 1
    rcases mem_addRedirect hredirect with hold | rfl
    · exact Nat.lt_succ_of_lt (h.fresh k' redirect hold)
    · exact Nat.lt_succ_self _
  · intro n hn
    exact Nat.lt_succ_of_lt (h.freshReleased n hn)
  · intro k' redirect hredirect
    rcases mem_addRedirect hredirect with hold | rfl
    · exact h.marks k' redirect hold
    · refine ⟨fun hdeleted => absurd hdeleted hoffset, fun hreleased => ?_⟩
      exact absurd (h.freshReleased _ hreleased) (Nat.lt_irrefl _)
  · intro k₁ k₂ i₁ i₂ r₁ r₂ h₁ h₂ hserial
    rcases getElem?_addRedirect h₁ with hold₁ | ⟨rfl, rfl, rfl⟩
    · rcases getElem?_addRedirect h₂ with hold₂ | ⟨rfl, rfl, rfl⟩
      · exact h.unique k₁ k₂ i₁ i₂ r₁ r₂ hold₁ hold₂ hserial
      · exact absurd hserial (hnewSerial k₁ r₁ (List.mem_of_getElem? hold₁))
    · rcases getElem?_addRedirect h₂ with hold₂ | ⟨rfl, rfl, rfl⟩
      · exact absurd hserial.symm (hnewSerial k₂ r₂ (List.mem_of_getElem? hold₂))
      · exact ⟨rfl, rfl⟩

theorem releaseRedirect_self (w : World) (k : Fin maxSessions) (i serial : Nat) :
    (w.releaseRedirect k i serial).sessions k = { w.sessions k with
      redirects := (w.sessions k).redirects.modify i
        fun r => { r with destinationOffset := deletedOffset } } := by
  simp [World.releaseRedirect, World.updateSession]

theorem releaseRedirect_other (h : k' ≠ k) (w : World) (i serial : Nat) :
    (w.releaseRedirect k i serial).sessions k' = w.sessions k' := by
  simp [World.releaseRedirect, World.updateSession, h]

/-- A record is marked, or as it was before. -/
theorem getElem?_releaseRedirect {w : World} {serial : Nat} {i' : Nat}
    (h : ((w.releaseRedirect k i serial).sessions k').redirects[i']? = some redirect) :
    ∃ old, (w.sessions k').redirects[i']? = some old ∧ redirect.serial = old.serial ∧
      ((k' = k ∧ i' = i ∧ redirect.destinationOffset = deletedOffset) ∨
        (¬(k' = k ∧ i' = i) ∧ redirect = old)) := by
  by_cases hk : k' = k
  · subst hk
    rw [releaseRedirect_self] at h
    simp only [List.getElem?_modify] at h
    cases hold : (w.sessions k').redirects[i']? with
    | none =>
      rw [hold] at h
      cases h
    | some old =>
      rw [hold] at h
      have h : (if i = i' then { old with destinationOffset := deletedOffset } else old) =
          redirect := Option.some.inj h
      by_cases hi : i = i'
      · subst hi
        rw [if_pos rfl] at h
        subst h
        exact ⟨old, rfl, rfl, .inl ⟨rfl, rfl, rfl⟩⟩
      · rw [if_neg hi] at h
        subst h
        exact ⟨old, rfl, rfl, .inr ⟨fun hboth => hi hboth.2.symm, rfl⟩⟩
  · rw [releaseRedirect_other hk] at h
    exact ⟨redirect, h, rfl, .inr ⟨fun hboth => hk hboth.1, rfl⟩⟩

theorem mem_releaseRedirect {w : World} {serial : Nat}
    (h : redirect ∈ ((w.releaseRedirect k i serial).sessions k').redirects) :
    ∃ old ∈ (w.sessions k').redirects, redirect.serial = old.serial ∧
      (redirect.destinationOffset = deletedOffset ∨ redirect = old) := by
  rcases List.mem_iff_getElem?.mp h with ⟨i', hi'⟩
  rcases getElem?_releaseRedirect hi' with ⟨old, hold, hserial, hcases⟩
  exact ⟨old, List.mem_of_getElem? hold, hserial, hcases.imp (fun h => h.2.2) (fun h => h.2)⟩

/-- A redirect released leaves the other sessions alone. -/
theorem releaseRedirect_session (w : World) (k : Fin maxSessions) (i serial : Nat)
    (k' : Fin maxSessions) :
    ((w.releaseRedirect k i serial).sessions k').installed = (w.sessions k').installed ∧
      ((w.releaseRedirect k i serial).sessions k').titleId = (w.sessions k').titleId ∧
      ((w.releaseRedirect k i serial).sessions k').rootDestination =
        (w.sessions k').rootDestination ∧
      ((w.releaseRedirect k i serial).sessions k').namespaceId = (w.sessions k').namespaceId ∧
      ((w.releaseRedirect k i serial).sessions k').written = (w.sessions k').written ∧
      ((w.releaseRedirect k i serial).sessions k').storageCapacity =
        (w.sessions k').storageCapacity ∧
      ((w.releaseRedirect k i serial).sessions k').redirects.map Redirect.serial =
        (w.sessions k').redirects.map Redirect.serial := by
  by_cases hk : k' = k
  · subst hk
    rw [releaseRedirect_self]
    refine ⟨rfl, rfl, rfl, rfl, rfl, rfl, ?_⟩
    apply List.ext_getElem?
    intro n
    simp only [List.getElem?_map, List.getElem?_modify]
    cases (w.sessions k').redirects[n]? with
    | none => rfl
    | some r =>
      by_cases hn : i = n
      · simp [hn]
      · simp [hn]
  · rw [releaseRedirect_other hk]
    exact ⟨rfl, rfl, rfl, rfl, rfl, rfl, rfl⟩

theorem length_releaseRedirect (w : World) (k : Fin maxSessions) (i serial : Nat)
    (k' : Fin maxSessions) :
    ((w.releaseRedirect k i serial).sessions k').redirects.length =
      (w.sessions k').redirects.length := by
  have hserials := (releaseRedirect_session w k i serial k').2.2.2.2.2.2
  have hlengths := congrArg List.length hserials
  rwa [List.length_map, List.length_map] at hlengths

theorem Session.Stored.releaseRedirect (h : (w.sessions k').Stored) (k : Fin maxSessions)
    (i serial : Nat) : ((w.releaseRedirect k i serial).sessions k').Stored := by
  rcases releaseRedirect_session w k i serial k' with ⟨-, -, -, -, hw, hc, -⟩
  refine ⟨?_, ?_, ?_, ?_⟩
  · intro r hr
    rcases mem_releaseRedirect hr with ⟨old, hold, -, hdeleted | rfl⟩
    · exact .inl hdeleted
    · rw [hw]
      exact h.offsets r hold
  · rw [hw, hc]
    exact h.capacity
  · rw [hw, length_releaseRedirect]
    exact h.size
  · rw [length_releaseRedirect]
    exact h.count

theorem Session.Records.releaseRedirect (h : (w.sessions k').Records r)
    (hget : (w.sessions k).redirects[i]? = some redirect) (hne : r.serial ≠ redirect.serial) :
    ((w.releaseRedirect k i redirect.serial).sessions k').Records r := by
  rcases h with ⟨old, hold, hserial, hroot, hns, hdestination⟩
  rcases releaseRedirect_session w k i redirect.serial k' with ⟨-, -, hr', hn', hw, -, -⟩
  refine ⟨old, ?_, hserial, hr'.trans hroot, hn'.trans hns, ?_⟩
  · rcases List.mem_iff_getElem?.mp hold with ⟨i', hi'⟩
    by_cases hk : k' = k
    · subst hk
      have hindex : i ≠ i' := by
        rintro rfl
        rw [hget] at hi'
        cases hi'
        exact hne hserial.symm
      apply List.mem_of_getElem?
      rw [releaseRedirect_self]
      show ((w.sessions k').redirects.modify i _)[i']? = some old
      rw [List.getElem?_modify, hi']
      simp [hindex]
    · rw [releaseRedirect_other hk]
      exact hold
  · rw [redirectDestination_eq, hw, ← redirectDestination_eq]
    exact hdestination

/-- A delete that succeeds marks the record of that redirect. -/
theorem Core.release (h : Core w) (hget : (w.sessions k).redirects[i]? = some redirect)
    (hmark : redirect.destinationOffset ≠ deletedOffset) :
    Core (w.releaseRedirect k i redirect.serial) := by
  have hmem : redirect ∈ (w.sessions k).redirects := List.mem_of_getElem? hget
  refine ⟨?_, ?_, ?_, ?_, ?_, ?_, ?_, ?_⟩
  · intro k'
    exact (h.stored k').releaseRedirect k i redirect.serial
  · intro r hr
    rcases List.mem_filter.mp hr with ⟨hlive, hserial⟩
    rw [decide_eq_true_eq] at hserial
    rcases h.recorded r hlive with ⟨k', hrecords⟩
    exact ⟨k', hrecords.releaseRedirect hget hserial⟩
  · intro r hr
    exact h.present r (List.mem_filter.mp hr).1
  · intro k' r hr
    rcases mem_releaseRedirect hr with ⟨old, hold, hserial, -⟩
    rw [hserial]
    exact h.fresh k' old hold
  · intro n hn
    rcases List.mem_cons.mp hn with rfl | hold
    · exact h.fresh k redirect hmem
    · exact h.freshReleased n hold
  · intro k' r hr
    rcases List.mem_iff_getElem?.mp hr with ⟨i', hi'⟩
    rcases getElem?_releaseRedirect hi' with ⟨old, hold, hserial, ⟨rfl, rfl, hdeleted⟩ | ⟨hne, rfl⟩⟩
    · rw [hget] at hold
      cases hold
      refine ⟨fun _ => ?_, fun _ => hdeleted⟩
      rw [hserial]
      exact List.mem_cons_self
    · have hother : r.serial ≠ redirect.serial := by
        intro hsame
        exact hne (h.unique k' k i' i r redirect hold hget hsame)
      rw [h.marks k' r (List.mem_of_getElem? hold)]
      show r.serial ∈ w.released ↔ r.serial ∈ redirect.serial :: w.released
      rw [List.mem_cons]
      exact ⟨.inr, fun hor => hor.resolve_left hother⟩
  · intro k₁ k₂ i₁ i₂ r₁ r₂ h₁ h₂ hserial
    rcases getElem?_releaseRedirect h₁ with ⟨old₁, hold₁, hserial₁, -⟩
    rcases getElem?_releaseRedirect h₂ with ⟨old₂, hold₂, hserial₂, -⟩
    rw [hserial₁, hserial₂] at hserial
    exact h.unique k₁ k₂ i₁ i₂ old₁ old₂ hold₁ hold₂ hserial
  · refine List.nodup_cons.mpr ⟨?_, h.once⟩
    intro hreleased
    exact hmark ((h.marks k redirect hmem).mpr hreleased)

theorem Core.initial : Core World.initial := by
  refine ⟨?_, ?_, ?_, ?_, ?_, ?_, ?_, List.nodup_nil⟩
  · intro k
    refine ⟨?_, Nat.le_refl 0, Nat.zero_le _, Nat.zero_le _⟩
    intro r hr
    cases hr
  · intro r hr
    cases hr
  · intro r hr
    cases hr
  · intro k r hr
    cases hr
  · intro n hn
    cases hn
  · intro k r hr
    cases hr
  · intro k k' i i' r r' h
    cases h

end ShadowMount.PkgBackport
