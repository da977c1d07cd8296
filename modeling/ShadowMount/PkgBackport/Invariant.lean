import ShadowMount.PkgBackport.Sessions

/-!
# Redirect sessions - The invariant of a step
-/

namespace ShadowMount.PkgBackport

open Foundation

variable {w w' : World}

abbrev Log := List (Event World Call Error)

/-- A namespace was found at its path, with its device and file system. -/
def VerifiedIn (log : Log) (root : Text) (namespaceId : NamespaceId) : Prop :=
  ∃ st fs, (∃ e ∈ log, e.call = .stat root (.ok st)) ∧
    (∃ e ∈ log, e.call = .statfs root (.ok fs)) ∧ st.kind = .directory ∧
    fs.fstypename = "nsfs".toList ∧ fs.mntonname = root ∧ namespaceId = ⟨st.device, fs.fsid⟩

/-- A mount table was read that has no such namespace. -/
def GoneIn (log : Log) (fsid : Nat) : Prop :=
  ∃ e ∈ log, ∃ mounts, e.call = .snapshot (.ok mounts) ∧ hasNamespace mounts fsid = false

/-- Before every delete its namespace was found, and its redirect had not ended. -/
def DeletesVerified : Log → Prop
  | [] => True
  | e :: older => DeletesVerified older ∧
      ∀ root namespaceId destination serial,
        e.call = .delete root namespaceId destination serial →
          VerifiedIn older root namespaceId ∧ serial ∉ e.world.released

theorem VerifiedIn.mono {log log' : Log} {root : Text} {namespaceId : NamespaceId}
    (h : VerifiedIn log root namespaceId) (hsub : ∀ e ∈ log, e ∈ log') :
    VerifiedIn log' root namespaceId := by
  rcases h with ⟨st, fs, ⟨e₁, h₁, hst⟩, ⟨e₂, h₂, hfs⟩, hrest⟩
  exact ⟨st, fs, ⟨e₁, hsub e₁ h₁, hst⟩, ⟨e₂, hsub e₂ h₂, hfs⟩, hrest⟩

theorem GoneIn.mono {log log' : Log} {fsid : Nat} (h : GoneIn log fsid)
    (hsub : ∀ e ∈ log, e ∈ log') : GoneIn log' fsid := by
  rcases h with ⟨e, he, hgone⟩
  exact ⟨e, hsub e he, hgone⟩

/-- A session is installed, or it is being filled. -/
def Held (filling : Option (Fin maxSessions)) (w : World) (k : Fin maxSessions) : Prop :=
  (w.sessions k).installed = true ∨ filling = some k

/-- Sessions that have records are installed, but for the one that is being filled;
sessions have different namespaces, below a sandbox of their title. -/
structure Settled (filling : Option (Fin maxSessions)) (w : World) : Prop where
  installed : ∀ k, filling ≠ some k → (w.sessions k).redirects ≠ [] →
    (w.sessions k).installed = true
  distinct : ∀ k k', k ≠ k' → Held filling w k → Held filling w k' →
    ¬((w.sessions k).rootDestination = (w.sessions k').rootDestination ∧
      (w.sessions k).namespaceId = (w.sessions k').namespaceId)
  named : ∀ k, Held filling w k → ∃ name, isSandboxOf (w.sessions k).titleId name = true ∧
    (w.sessions k).rootDestination = app0Path name

/-- A session is still there, with the same redirects. -/
structure Survives (s s' : Session) : Prop where
  installed : s'.installed = true
  root : s'.rootDestination = s.rootDestination
  namespaceId : s'.namespaceId = s.namespaceId
  serials : s'.redirects.map Redirect.serial = s.redirects.map Redirect.serial

/-- All redirects of a session have ended, or its namespace was seen to be gone. -/
def Ended (s : Session) (m : Machine World Call Error) : Prop :=
  (∀ redirect ∈ s.redirects, redirect.serial ∈ m.world.released) ∨
    GoneIn m.log s.namespaceId.fsid

variable {w₀ : World} {filling : Option (Fin maxSessions)} {m m' : Machine World Call Error}
  {k : Fin maxSessions} {s : Session}

theorem Ended.mono (h : Ended s m) (hreleased : ∀ n ∈ m.world.released, n ∈ m'.world.released)
    (hlog : ∀ e ∈ m.log, e ∈ m'.log) : Ended s m' := by
  rcases h with hall | hgone
  · exact .inl fun redirect hredirect => hreleased _ (hall redirect hredirect)
  · exact .inr (hgone.mono hlog)

/-- A call may be made: a delete needs a namespace that was found and a redirect that has
not ended. -/
def Allowed (m : Machine World Call Error) (c : Call) : Prop :=
  ∀ root namespaceId destination serial, c = .delete root namespaceId destination serial →
    VerifiedIn m.log root namespaceId ∧ serial ∉ m.world.released

/-- The machine in the course of an event that started in a world. -/
structure Good (w₀ : World) (filling : Option (Fin maxSessions))
    (m : Machine World Call Error) : Prop where
  core : Core m.world
  settled : Settled filling m.world
  log : DeletesVerified m.log
  kept : ∀ k, (w₀.sessions k).installed = true →
    Survives (w₀.sessions k) (m.world.sessions k) ∨ Ended (w₀.sessions k) m

/-- Only calls were made. -/
structure Passed (m m' : Machine World Call Error) : Prop where
  sessions : m'.world.sessions = m.world.sessions
  released : m'.world.released = m.world.released
  log : ∀ e ∈ m.log, e ∈ m'.log

theorem Passed.refl (m : Machine World Call Error) : Passed m m :=
  ⟨rfl, rfl, fun _ he => he⟩

theorem Passed.trans {m'' : Machine World Call Error} (h : Passed m m') (h' : Passed m' m'') :
    Passed m m'' :=
  ⟨h'.sessions.trans h.sessions, h'.released.trans h.released, fun e he => h'.log e (h.log e he)⟩

/-- The title and the namespace of a session are those of before. -/
structure SameNames (s s' : Session) : Prop where
  titleId : s'.titleId = s.titleId
  root : s'.rootDestination = s.rootDestination
  namespaceId : s'.namespaceId = s.namespaceId

theorem SameNames.refl (s : Session) : SameNames s s := ⟨rfl, rfl, rfl⟩

theorem Held.congr (h : Held filling w' k)
    (hinstalled : (w'.sessions k).installed = (w.sessions k).installed) : Held filling w k :=
  h.imp (fun hk => hinstalled.symm.trans hk) id

theorem Settled.of_held {filling' : Option (Fin maxSessions)} (h : Settled filling w)
    (hinstalled : ∀ k, filling' ≠ some k → (w'.sessions k).redirects ≠ [] →
      (w'.sessions k).installed = true) (hheld : ∀ k, Held filling' w' k →
      Held filling w k ∧ SameNames (w.sessions k) (w'.sessions k)) : Settled filling' w' where
  installed := hinstalled
  distinct := by
    intro k k' hne hk hk'
    obtain ⟨hbefore, hsame⟩ := hheld k hk
    obtain ⟨hbefore', hsame'⟩ := hheld k' hk'
    rw [hsame.root, hsame'.root, hsame.namespaceId, hsame'.namespaceId]
    exact h.distinct k k' hne hbefore hbefore'
  named := by
    intro k hk
    obtain ⟨hbefore, hsame⟩ := hheld k hk
    rw [hsame.titleId, hsame.root]
    exact h.named k hbefore

theorem Settled.congr (h : Settled filling w) (hsessions : w'.sessions = w.sessions) :
    Settled filling w' := by
  refine h.of_held ?_ ?_
  · rw [hsessions]
    exact h.installed
  · intro k hk
    rw [hsessions]
    exact ⟨hk.congr (by rw [hsessions]), SameNames.refl _⟩

theorem Good.kept_of_free (h : Good w₀ filling m) (hfree : (m.world.sessions k).installed = false)
    (hother : ∀ k', k' ≠ k → w'.sessions k' = m.world.sessions k')
    (hreleased : w'.released = m.world.released) (k' : Fin maxSessions)
    (hk' : (w₀.sessions k').installed = true) :
    Survives (w₀.sessions k') (w'.sessions k') ∨ Ended (w₀.sessions k') { m with world := w' } := by
  rcases h.kept k' hk' with hsurvives | hended
  · left
    have hk : k' ≠ k := by
      rintro rfl
      have hinstalled := hsurvives.installed
      rw [hfree] at hinstalled
      cases hinstalled
    rw [hother k' hk]
    exact hsurvives
  · refine .inr (hended.mono (fun n hn => ?_) fun _ he => he)
    show n ∈ w'.released
    rw [hreleased]
    exact hn

/-- The file systems change, and nothing is logged. -/
theorem Good.see (h : Good w₀ filling m) (view : View) (clock : Nat) :
    Good w₀ filling { m with clock := clock, world := m.world.see view } where
  core := h.core.see view
  settled := h.settled.congr rfl
  log := h.log
  kept := h.kept

/-- A call that may be made keeps the invariant. -/
theorem Good.record (h : Good w₀ filling m) {c : Call} (error : Option Error) (view : View)
    (hcall : Allowed m c) :
    Good w₀ filling (m.record c error (m.world.see view)) where
  core := h.core.see view
  settled := h.settled.congr rfl
  log := ⟨h.log, hcall⟩
  kept := by
    intro k hk
    rcases h.kept k hk with hsurvives | hended
    · exact .inl hsurvives
    · exact .inr (hended.mono (fun _ hn => hn) (fun _ he => List.mem_cons_of_mem _ he))

theorem passed_record (m : Machine World Call Error) (c : Call) (error : Option Error)
    (view : View) : Passed m (m.record c error (m.world.see view)) :=
  ⟨rfl, rfl, fun _ he => List.mem_cons_of_mem _ he⟩

theorem Good.same (h : Good w₀ filling m) {f : Session → Session}
    (hf : (m.world.sessions k).SameRecords (f (m.world.sessions k)))
    (hinstalled : (f (m.world.sessions k)).installed = (m.world.sessions k).installed)
    (htitle : (f (m.world.sessions k)).titleId = (m.world.sessions k).titleId) :
    Good w₀ filling { m with world := m.world.updateSession k f } := by
  have hsame : ∀ k', ((m.world.updateSession k f).sessions k').installed =
        (m.world.sessions k').installed ∧
      ((m.world.updateSession k f).sessions k').redirects = (m.world.sessions k').redirects ∧
      SameNames (m.world.sessions k') ((m.world.updateSession k f).sessions k') := by
    intro k'
    by_cases hk : k' = k
    · subst hk
      rw [updateSession_self]
      exact ⟨hinstalled, hf.redirects, htitle, hf.root, hf.namespaceId⟩
    · rw [updateSession_other hk]
      exact ⟨rfl, rfl, SameNames.refl _⟩
  refine ⟨h.core.same hf, h.settled.of_held ?_ ?_, h.log, ?_⟩
  · intro k'
    rw [(hsame k').1, (hsame k').2.1]
    exact h.settled.installed k'
  · intro k' hk'
    exact ⟨hk'.congr (hsame k').1, (hsame k').2.2⟩
  · intro k' hk'
    obtain ⟨hinst, hredirects, hnames⟩ := hsame k'
    rcases h.kept k' hk' with hsurvives | hended
    · left
      refine ⟨hinst.trans hsurvives.installed, hnames.root.trans hsurvives.root,
        hnames.namespaceId.trans hsurvives.namespaceId, ?_⟩
      rw [hredirects]
      exact hsurvives.serials
    · exact .inr hended

/-- A session without redirects is given free. -/
theorem Good.reset (h : Good w₀ filling m) (hfilling : ∀ k', filling = some k' → k' = k)
    (hnone : ∀ r ∈ m.world.live, ¬(m.world.sessions k).Records r)
    (hended : ∀ s, Survives s (m.world.sessions k) → Ended s m) :
    Good w₀ none { m with world := m.world.resetSession k } := by
  have hself : (m.world.resetSession k).sessions k = Session.empty := updateSession_self _ _ _
  have hother : ∀ k', k' ≠ k → (m.world.resetSession k).sessions k' = m.world.sessions k' :=
    fun k' hk => updateSession_other hk _ _
  have hheld : ∀ k', Held none (m.world.resetSession k) k' → k' ≠ k ∧ Held filling m.world k' := by
    intro k' hk'
    rcases hk' with hk' | hk'
    · have hne : k' ≠ k := by
        rintro rfl
        rw [hself] at hk'
        cases hk'
      rw [hother k' hne] at hk'
      exact ⟨hne, .inl hk'⟩
    · cases hk'
  refine ⟨h.core.clear (f := fun _ => Session.empty) hnone rfl rfl,
    h.settled.of_held ?_ ?_, h.log, ?_⟩
  · intro k' _ hredirects
    by_cases hk : k' = k
    · subst hk
      rw [hself] at hredirects
      exact absurd rfl hredirects
    · rw [hother k' hk] at hredirects ⊢
      exact h.settled.installed k' (fun heq => hk (hfilling k' heq)) hredirects
  · intro k' hk'
    obtain ⟨hne, hbefore⟩ := hheld k' hk'
    rw [hother k' hne]
    exact ⟨hbefore, SameNames.refl _⟩
  · intro k' hk'
    rcases h.kept k' hk' with hsurvives | hend
    · by_cases hk : k' = k
      · subst hk
        exact .inr (hended _ hsurvives)
      · left
        show Survives _ ((m.world.resetSession k).sessions k')
        rw [hother k' hk]
        exact hsurvives
    · exact .inr hend

/-- A free session is prepared. -/
theorem Good.prepare (h : Good w₀ none m) (hfree : (m.world.sessions k).installed = false)
    {titleId source destination name : Text} {namespaceId : NamespaceId}
    (hname : isSandboxOf titleId name = true) (hdestination : destination = app0Path name)
    (hnew : ∀ k', (m.world.sessions k').installed = true →
      ¬((m.world.sessions k').rootDestination = destination ∧
        (m.world.sessions k').namespaceId = namespaceId)) :
    Good w₀ (some k) { m with
      world := m.world.beginSession k titleId source destination namespaceId } := by
  have hempty : (m.world.sessions k).redirects = [] := by
    by_contra hne
    have hinstalled := h.settled.installed k nofun hne
    rw [hfree] at hinstalled
    cases hinstalled
  have hnone : ∀ r ∈ m.world.live, ¬(m.world.sessions k).Records r := by
    rintro r - ⟨redirect, hredirect, -⟩
    rw [hempty] at hredirect
    cases hredirect
  have hself : (m.world.beginSession k titleId source destination namespaceId).sessions k =
      Session.fresh titleId source destination namespaceId := updateSession_self _ _ _
  have hother : ∀ k', k' ≠ k →
      (m.world.beginSession k titleId source destination namespaceId).sessions k' =
        m.world.sessions k' :=
    fun k' hk => updateSession_other hk _ _
  have hheld : ∀ k', k' ≠ k →
      Held (some k) (m.world.beginSession k titleId source destination namespaceId) k' →
        (m.world.sessions k').installed = true := by
    intro k' hk hk'
    rcases hk' with hk' | hk'
    · rwa [hother k' hk] at hk'
    · exact absurd (Option.some.inj hk').symm hk
  refine ⟨h.core.clear (f := fun _ => Session.fresh titleId source destination namespaceId) hnone
    rfl rfl, ⟨?_, ?_, ?_⟩, h.log, ?_⟩
  · intro k' hne hredirects
    have hk : k' ≠ k := fun heq => hne (by rw [heq])
    rw [hother k' hk] at hredirects ⊢
    exact h.settled.installed k' nofun hredirects
  · intro k₁ k₂ hne h₁ h₂
    by_cases hk₁ : k₁ = k
    · subst hk₁
      have hk₂ : k₂ ≠ k₁ := fun heq => hne heq.symm
      have hnew₂ := hnew k₂ (hheld k₂ hk₂ h₂)
      rw [hself, hother k₂ hk₂]
      rintro ⟨hroot, hns⟩
      exact hnew₂ ⟨hroot.symm, hns.symm⟩
    · by_cases hk₂ : k₂ = k
      · subst hk₂
        rw [hself, hother k₁ hk₁]
        exact hnew k₁ (hheld k₁ hk₁ h₁)
      · rw [hother k₁ hk₁, hother k₂ hk₂]
        exact h.settled.distinct k₁ k₂ hne (.inl (hheld k₁ hk₁ h₁)) (.inl (hheld k₂ hk₂ h₂))
  · intro k' hk'
    by_cases hk : k' = k
    · subst hk
      rw [hself]
      exact ⟨name, hname, hdestination⟩
    · rw [hother k' hk]
      exact h.settled.named k' (.inl (hheld k' hk hk'))
  · exact h.kept_of_free hfree hother rfl

theorem Good.add (h : Good w₀ (some k) m) (hfree : (m.world.sessions k).installed = false)
    {destination : Text} (hzero : '\x00' ∉ destination) (hlength : destination.length < maxPath)
    (hcount : (m.world.sessions k).redirects.length < maxRedirects)
    (hroom : (m.world.sessions k).written.length + (destination.length + 1) ≤
      (m.world.sessions k).storageCapacity) :
    Good w₀ (some k) { m with world := m.world.addRedirect k destination } := by
  have hsame : ∀ k', ((m.world.addRedirect k destination).sessions k').installed =
        (m.world.sessions k').installed ∧
      SameNames (m.world.sessions k') ((m.world.addRedirect k destination).sessions k') := by
    intro k'
    by_cases hk : k' = k
    · subst hk
      rw [addRedirect_self]
      exact ⟨rfl, rfl, rfl, rfl⟩
    · rw [addRedirect_other hk]
      exact ⟨rfl, SameNames.refl _⟩
  refine ⟨h.core.add hzero hlength hcount hroom, h.settled.of_held ?_ ?_, h.log,
    h.kept_of_free hfree (fun k' hk => addRedirect_other hk _ _) rfl⟩
  · intro k' hne hredirects
    have hk : k' ≠ k := fun heq => hne (by rw [heq])
    rw [addRedirect_other hk] at hredirects ⊢
    exact h.settled.installed k' hne hredirects
  · intro k' hk'
    exact ⟨hk'.congr (hsame k').1, (hsame k').2⟩

theorem Good.install (h : Good w₀ (some k) m) (hfree : (m.world.sessions k).installed = false)
    {f : Session → Session} (hf : (m.world.sessions k).SameRecords (f (m.world.sessions k)))
    (htitle : (f (m.world.sessions k)).titleId = (m.world.sessions k).titleId)
    (hinstalled : (m.world.sessions k).redirects ≠ [] →
      (f (m.world.sessions k)).installed = true) :
    Good w₀ none { m with world := m.world.updateSession k f } := by
  have hother : ∀ k', k' ≠ k → (m.world.updateSession k f).sessions k' = m.world.sessions k' :=
    fun k' hk => updateSession_other hk _ _
  refine ⟨h.core.same hf, h.settled.of_held ?_ ?_, h.log, h.kept_of_free hfree hother rfl⟩
  · intro k' _ hredirects
    by_cases hk : k' = k
    · subst hk
      rw [updateSession_self] at hredirects ⊢
      exact hinstalled (hf.redirects ▸ hredirects)
    · rw [hother k' hk] at hredirects ⊢
      exact h.settled.installed k' (fun heq => hk (Option.some.inj heq).symm) hredirects
  · intro k' hk'
    by_cases hk : k' = k
    · subst hk
      rw [updateSession_self]
      exact ⟨.inr rfl, htitle, hf.root, hf.namespaceId⟩
    · rcases hk' with hk' | hk'
      · rw [hother k' hk] at hk' ⊢
        exact ⟨.inl hk', SameNames.refl _⟩
      · cases hk'

/-- A redirect has ended, and its record is marked. -/
theorem Good.release (h : Good w₀ filling m) {i : Nat} {redirect : Redirect}
    (hget : (m.world.sessions k).redirects[i]? = some redirect)
    (hmark : redirect.destinationOffset ≠ deletedOffset) :
    Good w₀ filling { m with world := m.world.releaseRedirect k i redirect.serial } := by
  have hsame := releaseRedirect_session m.world k i redirect.serial
  refine ⟨h.core.release hget hmark, h.settled.of_held ?_ ?_, h.log, ?_⟩
  · intro k' hne hredirects
    rcases hsame k' with ⟨hinstalled, -, -, -, -, -, hserials⟩
    rw [hinstalled]
    apply h.settled.installed k' hne
    intro hnil
    rw [hnil] at hserials
    exact hredirects (List.map_eq_nil_iff.mp hserials)
  · intro k' hk'
    rcases hsame k' with ⟨hinstalled, htitle, hroot, hns, -, -, -⟩
    exact ⟨hk'.congr hinstalled, htitle, hroot, hns⟩
  · intro k' hk'
    rcases h.kept k' hk' with hsurvives | hended
    · rcases hsame k' with ⟨hinstalled, -, hroot, hns, -, -, hserials⟩
      exact .inl ⟨hinstalled.trans hsurvives.installed, hroot.trans hsurvives.root,
        hns.trans hsurvives.namespaceId, hserials.trans hsurvives.serials⟩
    · exact .inr (hended.mono (fun _ hn => List.mem_cons_of_mem _ hn) (fun _ he => he))

/-- A session whose records are all marked, or whose namespace was seen to be gone, may
be given up. -/
theorem Good.ended_of_deleted (h : Good w₀ filling m)
    (hdeleted : ∀ redirect ∈ (m.world.sessions k).redirects,
      redirect.destinationOffset = deletedOffset) {s : Session}
    (hs : Survives s (m.world.sessions k)) : Ended s m := by
  left
  intro redirect hredirect
  have hserial : redirect.serial ∈ (m.world.sessions k).redirects.map Redirect.serial := by
    rw [hs.serials]
    exact List.mem_map_of_mem hredirect
  rcases List.mem_map.mp hserial with ⟨r, hr, hrserial⟩
  rw [← hrserial]
  exact (h.core.marks k r hr).mp (hdeleted r hr)

end ShadowMount.PkgBackport
