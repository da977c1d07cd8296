import ShadowMount.Shellcore.Preparation

/-!
# ShellCore service - owners of live games

An owner bound to a process that has not exited protects the mounts of a running game.
Claims move it between the two slots, a failed preparation gives its slot back, a
release clears it, and bindings and exits arrive from another thread in between.

Main results:

- Theorem {lit}`live_owners_kept`: on runs where no failed preparation gives back the
  slot of a live process, the owners bound to a live process change by exits and
  bindings only.
-/

namespace ShadowMount.Shellcore

open Foundation

variable {o : MountOwner} {s : Activity} {titleId : Text} {pid : Int}

/-- The owner is that of the title, bound to the process, which has not exited. -/
def MountOwner.BoundTo (o : MountOwner) (titleId : Text) (pid : Int) : Prop :=
  o.titleId = titleId ∧ titleId ≠ [] ∧ o.pid = pid ∧ o.Live

instance (o : MountOwner) (titleId : Text) (pid : Int) : Decidable (o.BoundTo titleId pid) :=
  inferInstanceAs (Decidable (_ ∧ _))

/-- One of the two owners is bound so. -/
def LiveBound (s : Activity) (titleId : Text) (pid : Int) : Prop :=
  s.service.prepared.BoundTo titleId pid ∨ s.service.outgoing.BoundTo titleId pid

instance (s : Activity) (titleId : Text) (pid : Int) : Decidable (LiveBound s titleId pid) :=
  inferInstanceAs (Decidable (_ ∨ _))

/-- A preparation that took a new slot does not fail while its owner is bound to a process
that has not exited. -/
def RollsBackUnbound (s : Activity) : Event → Prop
  | .endPreparation p ready =>
    p ∈ s.preparing → ready = false → p.claimed = true →
      mountOwnerMatches s.service.prepared p.titleId = true → ¬s.service.prepared.Live
  | _ => True

instance (s : Activity) : ∀ e, Decidable (RollsBackUnbound s e)
  | .endPreparation p ready => inferInstanceAs (Decidable (p ∈ s.preparing → ready = false →
      p.claimed = true → mountOwnerMatches s.service.prepared p.titleId = true →
        ¬s.service.prepared.Live))
  | .other _ | .claim _ _ | .clearReleased _ | .stop => isTrue trivial

theorem not_boundTo_of_not_live (h : ¬o.Live) (titleId : Text) (pid : Int) :
    ¬o.BoundTo titleId pid := fun hbound => h hbound.2.2.2

theorem not_boundTo_of_unnamed (h : o.titleId = []) (titleId : Text) (pid : Int) :
    ¬o.BoundTo titleId pid :=
  fun hbound => hbound.2.1 (hbound.1.symm.trans h)

theorem liveBound_claim {launchRequest : Bool} (t : Text) (pid : Int) :
    LiveBound (s.next (.claim titleId launchRequest)) t pid ↔ LiveBound s t pid := by
  simp only [Activity.next]
  split
  · split
    · rename_i service claimed hclaim
      have hnew := not_boundTo_of_not_live (not_live_setMountOwner titleId) t pid
      have hzero := not_boundTo_of_not_live not_live_zero t pid
      obtain ⟨-, -, -, hcases⟩ := claimPreparedTitle_ok hclaim
      simp only [LiveBound, Activity.service]
      rcases hcases with ⟨-, hempty, -, hprepared, houtgoing⟩ |
        ⟨-, hempty, -, hprepared, houtgoing⟩ | ⟨-, -, -, hempty, hprepared, houtgoing⟩ |
        ⟨-, -, hprepared, houtgoing⟩
      · have hgone := not_boundTo_of_unnamed hempty t pid
        rw [hprepared, houtgoing]
        exact ⟨fun h => h.elim .inr (absurd · hzero), fun h => h.elim (absurd · hgone) .inl⟩
      · have hgone := not_boundTo_of_unnamed hempty t pid
        rw [hprepared, houtgoing]
        exact ⟨fun h => h.elim (absurd · hnew) .inr, fun h => h.elim (absurd · hgone) .inr⟩
      · have hgone := not_boundTo_of_unnamed hempty t pid
        rw [hprepared, houtgoing]
        exact ⟨fun h => h.elim (absurd · hnew) .inl, fun h => h.elim .inr (absurd · hgone)⟩
      · rw [hprepared, houtgoing]
        exact .rfl
    · exact .rfl
  · exact .rfl

/-- The slot that a failed preparation gives back is of no live process. -/
theorem liveBound_endPreparation {p : Preparation} {ready : Bool}
    (hguard : RollsBackUnbound s (.endPreparation p ready)) (t : Text) (pid : Int) :
    LiveBound (s.next (.endPreparation p ready)) t pid ↔ LiveBound s t pid := by
  have hfinish : ∀ cancelLaunch, (LiveBound
      { state := Shellcore.next s.state (.finish p.titleId cancelLaunch),
        preparing := s.preparing.erase p } t pid ↔ LiveBound s t pid) := by
    intro cancelLaunch
    simp only [LiveBound, Activity.service, Shellcore.next, finishPreparedTitle]
    split <;> exact Iff.rfl
  simp only [Activity.next]
  split
  · rename_i hp
    simp only [Preparation.ending]
    split
    · exact hfinish false
    · rename_i hfailed
      split
      · rename_i hclaimed
        have hzero := not_boundTo_of_not_live not_live_zero t pid
        simp only [LiveBound, Activity.service, Shellcore.next, rollbackPreparedTitle]
        split
        · rename_i hmatch
          have hgone := not_boundTo_of_not_live
            (hguard hp (Bool.eq_false_iff.mpr hfailed) hclaimed hmatch) t pid
          split
          · exact ⟨fun h => h.elim .inr (absurd · hzero), fun h => h.elim (absurd · hgone) .inl⟩
          · exact ⟨fun h => h.elim (absurd · hzero) .inr, fun h => h.elim (absurd · hgone) .inr⟩
        · exact Iff.rfl
      · exact hfinish true
  · exact Iff.rfl

theorem Ownership.liveBound_clearReleased (h : Ownership s.state) (t : Text) (pid : Int) :
    LiveBound (s.next (.clearReleased titleId)) t pid ↔ LiveBound s t pid := by
  simp only [Activity.next]
  split
  · rename_i hreleased
    have hzero := not_boundTo_of_not_live not_live_zero t pid
    have hgone : ∀ slot, findMountOwner s.state.service titleId = some slot →
        ¬(s.state.service.owner slot).BoundTo t pid := by
      intro slot hfound
      obtain ⟨hne, hname⟩ := findMountOwner_eq_some hfound
      have hsupported := (h.named slot).resolve_left hne
      have hrecorded := h.release_recorded titleId hreleased
      rw [← hname, strlcpy_supported hsupported] at hrecorded
      exact not_boundTo_of_not_live (h.releasing_not_live
        (hrecorded ▸ hne) slot hrecorded) t pid
    simp only [LiveBound, Activity.service, Shellcore.next, clearOwnedTitle]
    split
    · exact .rfl
    · rename_i hfound
      have hprepared := hgone .prepared hfound
      exact ⟨fun h => h.elim (absurd · hzero) .inr,
        fun h => h.elim (absurd · hprepared) .inr⟩
    · rename_i hfound
      have houtgoing := hgone .outgoing hfound
      exact ⟨fun h => h.elim .inl (absurd · hzero),
        fun h => h.elim .inl (absurd · houtgoing)⟩
  · exact .rfl

/-- The event binds the title to the process. -/
def Event.Binds (e : Event) (titleId : Text) (pid : Int) : Prop :=
  ∃ appId managed, e = .other (.bind titleId appId pid managed)

/-- The event notes the exit of the process. -/
def Event.Exits (e : Event) (pid : Int) : Prop :=
  ∃ exitTimeUs now, e = .other (.gameExit pid exitTimeUs now)

theorem OwnerStep.boundTo {i : Step} {o' : MountOwner} (h : OwnerStep i o o')
    (hbound : o.BoundTo titleId pid) (hexit : ¬(Event.other i).Exits pid) :
    o'.BoundTo titleId pid ∨ ∃ q, (Event.other i).Binds titleId q ∧ o'.BoundTo titleId q := by
  obtain ⟨htitle, hcases⟩ := h
  obtain ⟨hname, hne, hpid, hlive⟩ := hbound
  rcases hcases with ⟨hpid', hexited⟩ | ⟨appId, q, managed, hi, hq, hpid', hexited⟩ |
    ⟨exitTimeUs, now, hi, -⟩
  · refine .inl ⟨htitle.trans hname, hne, hpid'.trans hpid, ?_, hexited.trans hlive.2⟩
    rw [hpid']
    exact hlive.1
  · refine .inr ⟨q, ⟨appId, managed, ?_⟩, htitle.trans hname, hne, hpid', ?_, hexited⟩
    · rw [hi, hname]
    · rw [hpid']
      exact hq
  · refine absurd ⟨exitTimeUs, now, ?_⟩ hexit
    rw [hi, hpid]

theorem OwnerStep.of_boundTo {i : Step} {o' : MountOwner} (h : OwnerStep i o o')
    (hbound : o'.BoundTo titleId pid) :
    o.BoundTo titleId pid ∨ (Event.other i).Binds titleId pid := by
  obtain ⟨htitle, hcases⟩ := h
  obtain ⟨hname, hne, hpid, hlive⟩ := hbound
  rcases hcases with ⟨hpid', hexited⟩ | ⟨appId, q, managed, hi, -, hpid', -⟩ | ⟨-, -, -, hexited⟩
  · refine .inl ⟨htitle.symm.trans hname, hne, hpid'.symm.trans hpid, ?_,
      hexited.symm.trans hlive.2⟩
    rw [← hpid']
    exact hlive.1
  · refine .inr ⟨appId, managed, ?_⟩
    rw [hi, ← htitle, hname, ← hpid', hpid]
  · rw [hlive.2] at hexited
    cases hexited

/-- A live owner is kept by every event but the exit of its process and the stop of the
service; at most it is bound to another process. -/
theorem Ownership.liveBound_kept (h : Ownership s.state) {e : Event}
    (hguard : RollsBackUnbound s e) (hbound : LiveBound s titleId pid) (hexit : ¬e.Exits pid)
    (hstop : e ≠ .stop) :
    LiveBound (s.next e) titleId pid ∨
      ∃ q, e.Binds titleId q ∧ LiveBound (s.next e) titleId q := by
  cases e with
  | claim t launchRequest => exact .inl ((liveBound_claim _ _).mpr hbound)
  | endPreparation p ready => exact .inl ((liveBound_endPreparation hguard _ _).mpr hbound)
  | clearReleased t => exact .inl ((h.liveBound_clearReleased _ _).mpr hbound)
  | stop => exact absurd rfl hstop
  | other i =>
    simp only [Activity.next]
    split
    · exact .inl hbound
    · rename_i hbody
      have houtside : i.ofBody = false := by simpa using hbody
      rcases hbound with hprepared | houtgoing
      · have hstep := next_owner s.state houtside .prepared
        rcases hstep.boundTo hprepared hexit with hkept | ⟨q, hbinds, hkept⟩
        · exact .inl (.inl hkept)
        · exact .inr ⟨q, hbinds, .inl hkept⟩
      · have hstep := next_owner s.state houtside .outgoing
        rcases hstep.boundTo houtgoing hexit with hkept | ⟨q, hbinds, hkept⟩
        · exact .inl (.inr hkept)
        · exact .inr ⟨q, hbinds, .inr hkept⟩

theorem Ownership.of_liveBound (h : Ownership s.state) {e : Event}
    (hguard : RollsBackUnbound s e) (hbound : LiveBound (s.next e) titleId pid) :
    LiveBound s titleId pid ∨ e.Binds titleId pid := by
  cases e with
  | claim t launchRequest => exact .inl ((liveBound_claim _ _).mp hbound)
  | endPreparation p ready => exact .inl ((liveBound_endPreparation hguard _ _).mp hbound)
  | clearReleased t => exact .inl ((h.liveBound_clearReleased _ _).mp hbound)
  | stop =>
    simp only [Activity.next] at hbound
    split at hbound
    · rcases hbound with hbound | hbound
      · exact absurd hbound (not_boundTo_of_not_live not_live_zero _ _)
      · exact absurd hbound (not_boundTo_of_not_live not_live_zero _ _)
    · exact .inl hbound
  | other i =>
    simp only [Activity.next] at hbound
    split at hbound
    · exact .inl hbound
    · rename_i hbody
      have houtside : i.ofBody = false := by simpa using hbody
      rcases hbound with hprepared | houtgoing
      · exact ((next_owner s.state houtside .prepared).of_boundTo hprepared).imp_left .inl
      · exact ((next_owner s.state houtside .outgoing).of_boundTo houtgoing).imp_left .inr

theorem reachable_owned (hs : Reachable (activitySystem.restrict RollsBackUnbound) s) :
    Ownership s.state := by
  have hkept : ∀ s e t, Ownership s.state →
      (activitySystem.restrict RollsBackUnbound).step s e t → Ownership t.state := by
    rintro s e t h ⟨rfl, -⟩
    exact h.activity e
  exact Reachable.invariant (fun _ h => h ▸ ownership_initial) hkept hs

/-- Along a part of a run a live owner stays, bound to its process or to one it was bound
to on the way, unless one of these exits or the service stops. -/
theorem Ownership.path_kept {s' : Activity} {events : List Event} (h : Ownership s.state)
    (hrun : Path (activitySystem.restrict RollsBackUnbound) s events s') (hstop : .stop ∉ events)
    (hbound : LiveBound s titleId pid)
    (hexit : ∀ q, (q = pid ∨ ∃ e ∈ events, e.Binds titleId q) → ∀ e ∈ events, ¬e.Exits q) :
    ∃ q, LiveBound s' titleId q ∧ (q = pid ∨ ∃ e ∈ events, e.Binds titleId q) := by
  induction hrun generalizing pid with
  | refl s => exact ⟨pid, hbound, .inl rfl⟩
  | @step s t u e events hstep hrun ih =>
    obtain ⟨rfl, hguard⟩ := hstep
    have hkept := h.liveBound_kept hguard hbound (hexit pid (.inl rfl) e (List.mem_cons_self ..))
      (fun hsame => hstop (hsame ▸ List.mem_cons_self ..))
    have hstop' : .stop ∉ events := fun hmem => hstop (List.mem_cons_of_mem _ hmem)
    rcases hkept with hsame | ⟨q, hbinds, hrebound⟩
    · obtain ⟨q, hlive, hq⟩ := ih (h.activity e) hstop' hsame (fun q hq f hf =>
        hexit q (hq.imp_right fun ⟨f, hf, hb⟩ => ⟨f, List.mem_cons_of_mem _ hf, hb⟩) f
          (List.mem_cons_of_mem _ hf))
      exact ⟨q, hlive, hq.imp_right fun ⟨f, hf, hb⟩ => ⟨f, List.mem_cons_of_mem _ hf, hb⟩⟩
    · have hbound' : ∀ q', (q' = q ∨ ∃ f ∈ events, f.Binds titleId q') →
          ∃ f ∈ e :: events, f.Binds titleId q' := by
        rintro q' (rfl | ⟨f, hf, hb⟩)
        · exact ⟨e, List.mem_cons_self .., hbinds⟩
        · exact ⟨f, List.mem_cons_of_mem _ hf, hb⟩
      obtain ⟨q', hlive, hq'⟩ := ih (h.activity e) hstop' hrebound (fun q' hq' f hf =>
        hexit q' (.inr (hbound' q' hq')) f (List.mem_cons_of_mem _ hf))
      exact ⟨q', hlive, .inr (hbound' q' hq')⟩

theorem Ownership.path_created {s' : Activity} {events : List Event} (h : Ownership s.state)
    (hrun : Path (activitySystem.restrict RollsBackUnbound) s events s')
    (hbound : LiveBound s' titleId pid) :
    LiveBound s titleId pid ∨ ∃ e ∈ events, e.Binds titleId pid := by
  induction hrun with
  | refl s => exact .inl hbound
  | @step s t u e events hstep hrun ih =>
    obtain ⟨rfl, hguard⟩ := hstep
    rcases ih (h.activity e) hbound with hearlier | ⟨f, hf, hbinds⟩
    · rcases h.of_liveBound hguard hearlier with hbefore | hbinds
      · exact .inl hbefore
      · exact .inr ⟨e, List.mem_cons_self .., hbinds⟩
    · exact .inr ⟨f, List.mem_cons_of_mem _ hf, hbinds⟩

/-- On runs where no failed preparation gives back the slot of a live process, the owners
bound to a live process change by exits, bindings and the stop of the service only, over
every part of the run.  The part from a claim to the rollback
of its failed preparation is one of these. -/
theorem live_owners_kept {s s' : Activity} {events : List Event}
    (hs : Reachable (activitySystem.restrict RollsBackUnbound) s)
    (hrun : Path (activitySystem.restrict RollsBackUnbound) s events s') (titleId : Text) :
    (∀ pid, LiveBound s titleId pid → .stop ∉ events →
        (∀ q, (q = pid ∨ ∃ e ∈ events, e.Binds titleId q) → ∀ e ∈ events, ¬e.Exits q) →
        ∃ q, LiveBound s' titleId q ∧ (q = pid ∨ ∃ e ∈ events, e.Binds titleId q)) ∧
      (∀ pid, LiveBound s' titleId pid →
        LiveBound s titleId pid ∨ ∃ e ∈ events, e.Binds titleId pid) := by
  have howned := reachable_owned hs
  constructor
  · intro pid hbound hstop hexit
    exact howned.path_kept hrun hstop hbound hexit
  · intro pid hbound
    exact howned.path_created hrun hbound

/-- A game switch whose preparation fails leaves the running game its owner. -/
theorem live_owners_kept_failed_switch :
    let old := "PPSA13197".toList
    let new := "PPSA01234".toList
    let s := [Event.other (.launchRequest old), .claim old true,
      .endPreparation ⟨old, true⟩ true, .other (.bind old 7 100 true),
      .other (.launchRequest new)].foldl Activity.next Activity.initial
    let failed := [Event.claim new true, .endPreparation ⟨new, true⟩ false]
    LiveBound s old 100 ∧ ∃ q, LiveBound (failed.foldl Activity.next s) old q := by
  intro old new s failed
  have hbefore : Path (activitySystem.restrict RollsBackUnbound) Activity.initial _ s :=
    Path.of_admits (by decide +kernel)
  have hfailed : Path (activitySystem.restrict RollsBackUnbound) s failed _ :=
    Path.of_admits (by decide +kernel)
  have hbound : LiveBound s old 100 := by decide +kernel
  have hkept := (live_owners_kept (hbefore.reachable (.start rfl)) hfailed old).1 100
    hbound (by simp [failed]) (by simp [failed, Event.Exits])
  obtain ⟨q, hlive, -⟩ := hkept
  exact ⟨hbound, q, hlive⟩

/-- The lifecycle thread has prepared a title for its new process.  Before it binds the
process, a failed launch releases the title and a new launch claims it again; the
process is bound during that preparation, which fails and takes the owner with it. -/
theorem live_owner_lost :
    ∃ s s' events titleId pid, Reachable activitySystem s ∧
      Path activitySystem s events s' ∧ LiveBound s titleId pid ∧ .stop ∉ events ∧
      (∀ q, ∀ e ∈ events, ¬e.Exits q) ∧ ∀ q, ¬LiveBound s' titleId q := by
  let title := "PPSA13197".toList
  let start := [Event.other (.launchRequest title), .claim title true,
    .endPreparation ⟨title, true⟩ true, .claim title true,
    .endPreparation ⟨title, false⟩ true, .other (.launchFailed title),
    .other (.beginRelease title false none false), .clearReleased title,
    .other (.endRelease title), .other (.launchRequest title), .claim title true,
    .other (.bind title 7 100 true)].foldl Activity.next Activity.initial
  let events := [Event.endPreparation ⟨title, true⟩ false]
  refine ⟨start, events.foldl Activity.next start, events, title, 100, .foldl _,
    Path.foldl _ _, by decide +kernel, by simp [events], by simp [events, Event.Exits], ?_⟩
  have hempty : (events.foldl Activity.next start).service.prepared = .zero ∧
      (events.foldl Activity.next start).service.outgoing = .zero := by decide +kernel
  rintro q (hbound | hbound)
  · rw [hempty.1] at hbound
    exact not_boundTo_of_not_live not_live_zero _ _ hbound
  · rw [hempty.2] at hbound
    exact not_boundTo_of_not_live not_live_zero _ _ hbound

end ShadowMount.Shellcore
