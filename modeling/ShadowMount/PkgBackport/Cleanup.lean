import ShadowMount.PkgBackport.Invariant

/-!
# Redirect sessions - Cleaning up
-/

namespace ShadowMount.PkgBackport

open Foundation

variable {w₀ : World} {filling : Option (Fin maxSessions)} {m m' : Machine World Call Error}
  {k : Fin maxSessions} {s : Session} {env : Environment} {α : Type}

theorem satisfies_update {f : World → World} {post : Unit → Machine World Call Error → Prop}
    (h : post () { m with world := f m.world }) : Satisfies (update f) m post := h

theorem satisfies_getSession {post : Session → Machine World Call Error → Prop}
    (h : post (m.world.sessions k) m) : Satisfies (getSession k) m post := h

theorem satisfies_observe {read : View → α} {post : α → Machine World Call Error → Prop}
    (h : post (read (env m.clock))
      { m with clock := m.clock + 1, world := m.world.see (env m.clock) }) :
    Satisfies (observe env read) m post := h

theorem satisfies_ask {call : Except Error α → Call} {read : View → Except Error α}
    {post : Except Error α → Machine World Call Error → Prop}
    (h : ∀ answer, (∀ a, answer = .ok a → read (env m.clock) = .ok a) →
      post answer (m.record (call answer) (errorOf answer) (m.world.see (env m.clock)))) :
    Satisfies (ask env call read) m post := by
  unfold Satisfies ask
  simp only
  split
  · exact h _ nofun
  · exact h _ fun a ha => ha

theorem Good.ask (hg : Good w₀ filling m) {call : Except Error α → Call}
    {read : View → Except Error α}
    (hcall : ∀ answer root namespaceId destination serial,
      call answer ≠ .delete root namespaceId destination serial) :
    Satisfies (ask env call read) m fun answer m' =>
      Good w₀ filling m' ∧ Passed m m' ∧ (∃ e ∈ m'.log, e.call = call answer) ∧
        ∀ a, answer = .ok a → ∃ view, read view = .ok a ∧ m'.world.mounts = view.mounts := by
  refine satisfies_ask fun answer hanswer => ⟨?_, passed_record _ _ _ _, ?_, ?_⟩
  · refine hg.record _ _ ?_
    intro root namespaceId destination serial heq
    exact absurd heq (hcall answer root namespaceId destination serial)
  · exact ⟨_, List.mem_cons_self, rfl⟩
  · intro a ha
    exact ⟨env m.clock, hanswer a ha, rfl⟩

theorem Good.perform (hg : Good w₀ filling m) {call : Call} (hcall : Allowed m call) :
    Satisfies (perform env call) m fun _ m' => Good w₀ filling m' ∧ Passed m m' := by
  refine .bind (satisfies_ask fun answer _ => ?_)
  exact ⟨hg.record _ _ hcall, passed_record _ _ _ _⟩

theorem allowed_other (m : Machine World Call Error) : Allowed m .other := by
  intro root namespaceId destination serial h
  cases h

/-- What a status says about the log and the mount table. -/
def StatusFacts (s : Session) (m : Machine World Call Error) : NamespaceStatus → Prop
  | .accessible => VerifiedIn m.log s.rootDestination s.namespaceId
  | .gone => GoneIn m.log s.namespaceId.fsid ∧
      hasNamespace m.world.mounts s.namespaceId.fsid = false
  | .unavailable _ => True

/-- What the mount table tells of a session. -/
theorem satisfies_mountTableStatus (hg : Good w₀ filling m) :
    Satisfies (mountTableStatus env s) m fun status m' =>
      Good w₀ filling m' ∧ Passed m m' ∧ StatusFacts s m' status := by
  unfold mountTableStatus
  refine .andThen _ (hg.ask nofun) ?_
  rintro answer m' ⟨hg', hpassed, ⟨e, he, hcall⟩, hmounts⟩
  cases answer with
  | error e => exact ⟨hg', hpassed, trivial⟩
  | ok mounts =>
    rcases hmounts mounts rfl with ⟨view, hview, hworld⟩
    have hmounts' : m'.world.mounts = mounts := hworld.trans (Except.ok.inj hview)
    by_cases hpresent : hasNamespace mounts s.namespaceId.fsid = true
    · simp only [if_pos hpresent]
      exact ⟨hg', hpassed, trivial⟩
    · simp only [if_neg hpresent]
      have habsent : hasNamespace mounts s.namespaceId.fsid = false :=
        Bool.eq_false_iff.mpr hpresent
      refine ⟨hg', hpassed, ⟨e, he, mounts, hcall, habsent⟩, ?_⟩
      show hasNamespace m'.world.mounts s.namespaceId.fsid = false
      rw [hmounts']
      exact habsent

theorem satisfies_mountTableStatus_after (hg : Good w₀ filling m') (hpassed : Passed m m') :
    Satisfies (mountTableStatus env s) m' fun status m'' =>
      Good w₀ filling m'' ∧ Passed m m'' ∧ StatusFacts s m'' status :=
  (satisfies_mountTableStatus hg).mono fun _ _ h => ⟨h.1, hpassed.trans h.2.1, h.2.2⟩

/-- A namespace is accessible only when it was found at its path, and gone only when the mount
table does not have it. -/
theorem satisfies_sessionNamespaceStatus (hg : Good w₀ filling m) :
    Satisfies (sessionNamespaceStatus env s) m fun status m' =>
      Good w₀ filling m' ∧ Passed m m' ∧ StatusFacts s m' status := by
  unfold sessionNamespaceStatus
  refine .andThen _ (hg.ask nofun) ?_
  rintro answer m₁ ⟨hg₁, hpassed₁, ⟨e₁, he₁, hcall₁⟩, -⟩
  cases answer with
  | error e =>
    show Satisfies (if e.isMissing then mountTableStatus env s else pure (.unavailable e)) m₁ _
    split
    · exact satisfies_mountTableStatus_after hg₁ hpassed₁
    · exact ⟨hg₁, hpassed₁, trivial⟩
  | ok st =>
    by_cases hdirectory : st.kind = .directory
    · simp only [if_pos hdirectory]
      refine .andThen _ (hg₁.ask nofun) ?_
      rintro answer m₂ ⟨hg₂, hpassed₂, ⟨e₂, he₂, hcall₂⟩, -⟩
      have hpassed := hpassed₁.trans hpassed₂
      cases answer with
      | error e =>
        show Satisfies (if e.isMissing then mountTableStatus env s
          else pure (.unavailable e)) m₂ _
        split
        · exact satisfies_mountTableStatus_after hg₂ hpassed
        · exact ⟨hg₂, hpassed, trivial⟩
      | ok fs =>
        show Satisfies (if (decide (fs.fstypename = "nsfs".toList) &&
          decide (fs.mntonname = s.rootDestination) &&
          decide (s.namespaceId = ⟨st.device, fs.fsid⟩)) = true then pure .accessible
          else mountTableStatus env s) m₂ _
        split
        · rename_i hmatch
          simp only [Bool.and_eq_true, decide_eq_true_eq] at hmatch
          refine ⟨hg₂, hpassed, st, fs, ⟨e₁, hpassed₂.log e₁ he₁, hcall₁⟩, ⟨e₂, he₂, hcall₂⟩,
            hdirectory, hmatch.1.1, hmatch.1.2, hmatch.2⟩
        · exact satisfies_mountTableStatus_after hg₂ hpassed
    · simp only [if_neg hdirectory]
      exact satisfies_mountTableStatus_after hg₁ hpassed₁

/-- What the delete loop leaves of a session: the records from some index on are as they
were, and those before it are marked unless an error is reported. -/
structure Deleted (s s' : Session) (i : Nat) (first result : Option Error) : Prop where
  installed : s'.installed = s.installed
  root : s'.rootDestination = s.rootDestination
  namespaceId : s'.namespaceId = s.namespaceId
  length : s'.redirects.length = s.redirects.length
  later : ∀ j, i ≤ j → s'.redirects[j]? = s.redirects[j]?
  marked : result = none → first = none ∧
    ∀ j redirect, j < i → s'.redirects[j]? = some redirect →
      redirect.destinationOffset = deletedOffset

theorem Session.Stored.eq_deleted (h : s.Stored) {redirect : Redirect}
    (hmem : redirect ∈ s.redirects) (hnone : s.redirectDestination redirect = none) :
    redirect.destinationOffset = deletedOffset := by
  rcases h.offsets redirect hmem with hdeleted | ⟨destination, hpoints⟩
  · exact hdeleted
  · by_contra hmark
    rw [redirectDestination_of_pointsAt hmark hpoints] at hnone
    cases hnone

theorem ne_deleted_of_destination {redirect : Redirect} {destination : Text}
    (h : s.redirectDestination redirect = some destination) :
    redirect.destinationOffset ≠ deletedOffset := by
  intro hdeleted
  rw [redirectDestination_deleted hdeleted] at h
  cases h

/-- One more record was handled. -/
theorem Deleted.step {s s₁ s' : Session} {i : Nat} {first first₁ result : Option Error}
    (h : Deleted s₁ s' i first₁ result) (hinstalled : s₁.installed = s.installed)
    (hroot : s₁.rootDestination = s.rootDestination) (hns : s₁.namespaceId = s.namespaceId)
    (hlength : s₁.redirects.length = s.redirects.length)
    (hlater : ∀ j, i + 1 ≤ j → s₁.redirects[j]? = s.redirects[j]?)
    (hmarked : first₁ = none → first = none ∧
      ∀ redirect, s₁.redirects[i]? = some redirect → redirect.destinationOffset = deletedOffset) :
    Deleted s s' (i + 1) first result := by
  refine ⟨h.installed.trans hinstalled, h.root.trans hroot, h.namespaceId.trans hns,
    h.length.trans hlength, ?_, ?_⟩
  · intro j hj
    exact (h.later j (Nat.le_of_succ_le hj)).trans (hlater j hj)
  · intro hresult
    rcases h.marked hresult with ⟨hfirst₁, hbefore⟩
    rcases hmarked hfirst₁ with ⟨hfirst, hhere⟩
    refine ⟨hfirst, ?_⟩
    intro j redirect hj hget
    by_cases hji : j = i
    · subst hji
      rw [h.later j (Nat.le_refl j)] at hget
      exact hhere redirect hget
    · exact hbefore j redirect (by omega) hget

/-- Deletes mark the records of what has ended. -/
theorem satisfies_deleteRedirects (i : Nat) (first : Option Error) (hg : Good w₀ filling m)
    (hverified : VerifiedIn m.log (m.world.sessions k).rootDestination
      (m.world.sessions k).namespaceId) :
    Satisfies (deleteRedirects env k i first) m fun result m' =>
      Good w₀ filling m' ∧
        Deleted (m.world.sessions k) (m'.world.sessions k) i first result := by
  induction i generalizing m first with
  | zero =>
    refine ⟨hg, rfl, rfl, rfl, rfl, fun _ _ => rfl, fun hnone => ⟨hnone, ?_⟩⟩
    intro j redirect hj
    exact absurd hj (Nat.not_lt_zero j)
  | succ i ih =>
    unfold deleteRedirects
    refine .bind (satisfies_getSession ?_)
    cases hget : (m.world.sessions k).redirects[i]? with
    | none =>
      refine (ih first hg hverified).mono fun result m' h => ⟨h.1, ?_⟩
      refine h.2.step rfl rfl rfl rfl (fun _ _ => rfl) fun hfirst => ⟨hfirst, ?_⟩
      intro redirect hsome
      rw [hget] at hsome
      cases hsome
    | some redirect =>
      have hmem := List.mem_of_getElem? hget
      simp only
      cases hdestination : (m.world.sessions k).redirectDestination redirect with
      | none =>
        -- An unmarked record has a destination, so that no error arises here.
        have hdeleted := (hg.core.stored k).eq_deleted hmem hdestination
        simp only [if_pos hdeleted]
        refine (ih first hg hverified).mono fun result m' h => ⟨h.1, ?_⟩
        refine h.2.step rfl rfl rfl rfl (fun _ _ => rfl) fun hfirst => ⟨hfirst, ?_⟩
        intro r hr
        rw [hget] at hr
        cases hr
        exact hdeleted
      | some destination =>
        have hmark := ne_deleted_of_destination hdestination
        simp only
        refine .andThen _ (hg.perform ?_) ?_
        · intro root namespaceId text serial heq
          cases heq
          refine ⟨hverified, fun hreleased => ?_⟩
          exact hmark ((hg.core.marks k redirect hmem).mpr hreleased)
        rintro answer m₁ ⟨hg₁, hpassed⟩
        have hsessions : m₁.world.sessions k = m.world.sessions k := by rw [hpassed.sessions]
        have hverified₁ := hverified.mono hpassed.log
        cases deleteError answer with
        | some e =>
          rw [← hsessions] at hverified₁
          refine (ih _ hg₁ hverified₁).mono fun result m' h => ⟨h.1, ?_⟩
          rw [hsessions] at h
          refine h.2.step rfl rfl rfl rfl (fun _ _ => rfl) fun hfirst => ?_
          split at hfirst
          · cases hfirst
          · rename_i hkeep
            exact absurd (.inl hfirst) hkeep
        | none =>
          refine .bind (satisfies_update ?_)
          have hget₁ : (m₁.world.sessions k).redirects[i]? = some redirect := by
            rw [hsessions]
            exact hget
          have hg₂ := hg₁.release hget₁ hmark
          rcases releaseRedirect_session m₁.world k i redirect.serial k with
            ⟨hinstalled, -, hroot, hns, -, -, hserials⟩
          rw [hsessions] at hinstalled hroot hns hserials
          have hlength := congrArg List.length hserials
          rw [List.length_map, List.length_map] at hlength
          refine (ih first hg₂ ?_).mono fun result m' h => ⟨h.1, ?_⟩
          · rw [hroot, hns]
            exact hverified₁
          · refine h.2.step hinstalled hroot hns hlength ?_ fun hfirst => ⟨hfirst, ?_⟩
            · intro j hj
              rw [releaseRedirect_self, hsessions]
              show ((m.world.sessions k).redirects.modify i _)[j]? = _
              rw [List.getElem?_modify_ne _ _ (by omega)]
            · intro r hr
              rcases getElem?_releaseRedirect hr with
                ⟨old, -, -, ⟨-, -, hdeleted⟩ | ⟨hne, -⟩⟩
              · exact hdeleted
              · exact absurd ⟨rfl, rfl⟩ hne

theorem Good.reset_gone (hg : Good w₀ filling m) (hfilling : ∀ k', filling = some k' → k' = k)
    (hstatus : StatusFacts (m.world.sessions k) m .gone) :
    Good w₀ none { m with world := m.world.resetSession k } := by
  refine hg.reset hfilling ?_ ?_
  · intro r hr
    exact hg.core.not_records_of_gone hstatus.2 hr
  · intro s hs
    right
    rw [← hs.namespaceId]
    exact hstatus.1

theorem Good.reset_deleted (hg : Good w₀ filling m) (hfilling : ∀ k', filling = some k' → k' = k)
    (hdeleted : ∀ redirect ∈ (m.world.sessions k).redirects,
      redirect.destinationOffset = deletedOffset) :
    Good w₀ none { m with world := m.world.resetSession k } :=
  hg.reset hfilling (fun r _ => Session.not_records_of_deleted hdeleted r)
    fun _ hs => hg.ended_of_deleted hdeleted hs

theorem resetSession_redirects (w : World) (k : Fin maxSessions) :
    ((w.resetSession k).sessions k).redirects = [] := by
  unfold World.resetSession
  rw [updateSession_self]
  rfl

/-- A session is given up only when its redirects have ended or its namespace is gone. -/
theorem satisfies_cleanupSession (hg : Good w₀ none m) :
    Satisfies (cleanupSession env k) m fun result m' =>
      Good w₀ none m' ∧ (result = none → (m'.world.sessions k).redirects = []) := by
  have hnot : ∀ k', (none : Option (Fin maxSessions)) = some k' → k' = k := by
    intro k' h
    cases h
  unfold cleanupSession
  refine .bind (satisfies_getSession ?_)
  by_cases hinstalled : (m.world.sessions k).installed = true
  · simp only [if_pos hinstalled]
    refine .bind (satisfies_update ?_)
    have hg₁ := hg.same (k := k) (f := fun s => { s with ready := false })
      ⟨rfl, rfl, rfl, rfl, Nat.le_refl _⟩ rfl rfl
    refine .andThen _ (satisfies_sessionNamespaceStatus hg₁) ?_
    rintro status m₂ ⟨hg₂, hpassed₂, hstatus⟩
    have hsessions : m₂.world.sessions k =
        { m.world.sessions k with ready := false } := by
      rw [hpassed₂.sessions]
      exact updateSession_self m.world k fun s => { s with ready := false }
    cases status with
    | unavailable e => exact ⟨hg₂, nofun⟩
    | gone =>
      refine .bind (satisfies_update ?_)
      refine ⟨hg₂.reset_gone hnot ?_, fun _ => resetSession_redirects _ k⟩
      rw [hsessions]
      exact hstatus
    | accessible =>
      simp only
      refine .andThen _ (hg₂.perform (allowed_other _)) ?_
      rintro opened m₃ ⟨hg₃, hpassed₃⟩
      cases opened with
      | some e => exact ⟨hg₃, nofun⟩
      | none =>
        have hsessions₃ : m₃.world.sessions k =
            { m.world.sessions k with ready := false } := by
          rw [hpassed₃.sessions]
          exact hsessions
        have hverified : VerifiedIn m₃.log (m₃.world.sessions k).rootDestination
            (m₃.world.sessions k).namespaceId := by
          rw [hsessions₃]
          exact VerifiedIn.mono hstatus hpassed₃.log
        refine .andThen _ (satisfies_deleteRedirects _ none hg₃ hverified) ?_
        rintro result m₄ ⟨hg₄, hdeleted⟩
        cases result with
        | some e => exact ⟨hg₄, nofun⟩
        | none =>
          refine .bind (satisfies_update ?_)
          refine ⟨hg₄.reset_deleted hnot ?_, fun _ => resetSession_redirects _ k⟩
          intro redirect hredirect
          rcases List.mem_iff_getElem?.mp hredirect with ⟨j, hj⟩
          have hlt : j < (m₄.world.sessions k).redirects.length :=
            (List.getElem?_eq_some_iff.mp hj).1
          rw [hdeleted.length, hsessions₃] at hlt
          exact (hdeleted.marked rfl).2 j redirect hlt hj
  · simp only [if_neg hinstalled]
    refine ⟨hg, fun _ => ?_⟩
    by_contra hredirects
    exact hinstalled (hg.settled.installed k nofun hredirects)

/-- A cleanup is scheduled. -/
theorem satisfies_schedulePkgCleanup (hg : Good w₀ none m) (error : Error) :
    Satisfies (schedulePkgCleanup env k error) m fun _ m' => Good w₀ none m' := by
  unfold schedulePkgCleanup
  refine .bind (satisfies_observe ?_)
  have hg₁ := hg.see (env m.clock) (m.clock + 1)
  split
  · exact satisfies_update (hg₁.same ⟨rfl, rfl, rfl, rfl, Nat.le_refl _⟩ rfl rfl)
  · refine .bind (satisfies_observe ?_)
    have hg₂ := hg₁.see (env (m.clock + 1)) (m.clock + 1 + 1)
    exact satisfies_update (hg₂.same ⟨rfl, rfl, rfl, rfl, Nat.le_refl _⟩ rfl rfl)

theorem satisfies_cleanupOrSchedule (hg : Good w₀ none m) :
    Satisfies (cleanupOrSchedule env k) m fun _ m' => Good w₀ none m' := by
  unfold cleanupOrSchedule
  refine .andThen _ (satisfies_cleanupSession hg) ?_
  rintro result m' ⟨hg', -⟩
  cases result with
  | none => exact hg'
  | some e => exact satisfies_schedulePkgCleanup hg' e

theorem satisfies_forSessions {body : Fin maxSessions → Program Unit}
    (hbody : ∀ k m, Good w₀ none m → Satisfies (body k) m fun _ m' => Good w₀ none m')
    (ks : List (Fin maxSessions)) (hg : Good w₀ none m) :
    Satisfies (forSessions body ks) m fun _ m' => Good w₀ none m' := by
  induction ks generalizing m with
  | nil => exact hg
  | cons k rest ih => exact .andThen _ (hbody k m hg) fun _ _ hg' => ih hg'

theorem satisfies_pollCleanup (hg : Good w₀ none m) :
    Satisfies (pollCleanup env) m fun _ m' => Good w₀ none m' := by
  unfold pollCleanup
  refine .bind (satisfies_observe ?_)
  refine satisfies_forSessions ?_ _ (hg.see _ _)
  intro k m hg
  refine .bind (satisfies_observe ?_)
  have hg₁ := hg.see (env m.clock) (m.clock + 1)
  split
  · exact satisfies_update (hg₁.same ⟨rfl, rfl, rfl, rfl, Nat.le_refl _⟩ rfl rfl)
  · refine .bind (satisfies_getSession ?_)
    split
    · exact satisfies_cleanupOrSchedule hg₁
    · exact hg₁

theorem satisfies_onLaunchFailed (hg : Good w₀ none m) (titleId : Text) :
    Satisfies (onLaunchFailed env titleId) m fun _ m' => Good w₀ none m' := by
  refine satisfies_forSessions ?_ _ hg
  intro k m hg
  refine .bind (satisfies_getSession ?_)
  split
  · exact satisfies_cleanupOrSchedule hg
  · exact hg

theorem satisfies_onExec (hg : Good w₀ none m) (pid : Int) (titleId : Text) :
    Satisfies (onExec pid titleId) m fun _ m' => Good w₀ none m' := by
  unfold onExec
  split
  · exact hg
  · refine satisfies_forSessions ?_ _ hg
    intro k m hg
    refine .bind (satisfies_getSession ?_)
    split
    · exact satisfies_update (hg.same ⟨rfl, rfl, rfl, rfl, Nat.le_refl _⟩ rfl rfl)
    · exact hg

theorem satisfies_onExit (hg : Good w₀ none m) (pid : Int) :
    Satisfies (onExit env pid) m fun _ m' => Good w₀ none m' := by
  unfold onExit
  split
  · exact hg
  · refine satisfies_forSessions ?_ _ hg
    intro k m hg
    refine .bind (satisfies_getSession ?_)
    split
    · exact satisfies_cleanupOrSchedule hg
    · exact hg

theorem satisfies_shutdown (hg : Good w₀ none m) :
    Satisfies (PkgBackport.shutdown env) m fun _ m' => Good w₀ none m' := by
  refine satisfies_forSessions ?_ _ hg
  intro k m hg
  refine .andThen _ (satisfies_cleanupSession hg) ?_
  rintro result m' ⟨hg', -⟩
  exact satisfies_update (hg'.same ⟨rfl, rfl, rfl, rfl, Nat.le_refl _⟩ rfl rfl)

end ShadowMount.PkgBackport
