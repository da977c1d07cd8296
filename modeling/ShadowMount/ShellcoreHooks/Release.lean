import ShadowMount.ShellcoreHooks.Installation

/-!
# How the operations end

Every operation that has stopped the process ends by letting it go, unless a rollback has
failed: then the process stays stopped and the record tells so.  This file follows the
installation and the repair to their ends, and the removal through all of it.
-/

namespace ShadowMount.ShellcoreHooks

open Foundation

variable {c : Console} {m m' : HookMachine} {g : Hooks} {p q r : Process}
variable {may may' : Hook → Prop}

/-- Some sites may differ, and the process may be stopped or let go. -/
structure Changes (c : Console) (may : Hook → Prop) (p q : Process) : Prop where
  alike : p.Alike q
  sites : ∀ h, ¬ may h → q.site c h = p.site c h
  trampolines : blobSize c ≤ c.offsets.bridgeCaveSize → ∀ h ∈ hooksOf c, ∀ offset,
    c.blob.trampoline h = some offset →
      q.memory.read (p.bridge c + offset) (siteSize c h) =
        p.memory.read (p.bridge c + offset) (siteSize c h)

theorem Leaves.changes (h : Leaves c may p q) : Changes c may p q :=
  ⟨h.process_alike, h.sites, h.trampolines⟩

theorem SameBut.memory (h : SameBut p q) : q.memory = p.memory := by
  unfold SameBut at h
  rw [h]

theorem SameBut.changes (h : SameBut p q) : Changes c may p q := by
  have halike := (SameBut.spares (c := c) h).alike
  refine ⟨halike, fun k _ => ?_, fun _ k _ offset _ => by rw [h.memory]⟩
  unfold Process.site
  rw [h.memory, halike.siteAddress]

theorem Changes.trans (h : Changes c may p q) (h' : Changes c may q r) : Changes c may p r where
  alike := h.alike.trans h'.alike
  sites k hk := (h'.sites k hk).trans (h.sites k hk)
  trampolines hfits k hk offset hoffset := by
    have hlate := h'.trampolines hfits k hk offset hoffset
    rw [h.alike.bridge] at hlate
    exact hlate.trans (h.trampolines hfits k hk offset hoffset)

theorem Changes.mono (h : Changes c may p q) (hmay : ∀ k, may k → may' k) :
    Changes c may' p q :=
  ⟨h.alike, fun k hk => h.sites k fun hm => hk (hmay k hm), h.trampolines⟩

theorem Changes.spares (h : Changes c may p q) (hmay : ∀ k, may k → p.foreign k = false) :
    Spares c p q where
  alike := h.alike
  sites k hk := h.sites k fun hm => by simp [hmay k hm] at hk

theorem Bridged.changes (hp : Bridged c p) (h : Changes c may p q) : Bridged c q where
  fits := hp.fits
  originals k hk := by
    rw [h.alike.remote, h.alike.original]
    exact hp.originals k hk
  trampolines k hk offset hoffset := by
    rw [h.alike.bridge, h.alike.original, h.trampolines hp.fits k hk offset hoffset]
    exact hp.trampolines k hk offset hoffset

theorem follows_changes_trans {m'' : HookMachine} (h : Evolves (Changes c may) m m')
    (h' : Evolves (Changes c may) m' m'') : Evolves (Changes c may) m m'' :=
  h.trans h' (fun _ hb => hb) fun _ hd => h.world.trans hd

theorem Silent.changes (h : Silent m m') : Evolves (Changes c may) m m' :=
  h.after (.refl (Leaves.refl c may _).changes)

theorem detach_spec {pid : Nat} (may : Hook → Prop) (hstopped : m.world.stopped = true) :
    Satisfies (remoteProcessDetach pid) m fun result m' =>
      Evolves (Changes c may) m m' ∧ m'.world.stopped = !result ∧
        (∀ k, m'.world.site c k = m.world.site c k) ∧
        (m.Faultless → m.world.pid = pid → result = true) := by
  refine (remoteProcessDetach_spec m pid).mono ?_
  rintro result m₁ ⟨hfollows, hworld, hsuccess⟩
  refine ⟨hfollows.mono fun _ hb => hb.changes, ?_, fun k => ?_,
    fun hm hpid => hsuccess hm hpid hstopped⟩
  · rw [hworld, hstopped, Bool.and_true]
  · have hchanges : Changes c (fun _ => False) m.world m₁.world := hfollows.world.changes
    exact hchanges.sites k nofun

theorem cleanupWhen_spec (needed : Bool) (hooks : List Hook)
    (hg : needed = true → Records c m.world g)
    (horiginal : needed = true → ∀ k ∈ hooks, g.original k = m.world.original c k) :
    Satisfies (cleanupWhen needed m.world.pid g hooks) m fun result m' =>
      Evolves (Leaves c fun k => needed = true ∧ k ∈ hooks) m m' ∧
        (needed = false → result = true) ∧
        (result = true → needed = true → ∀ k ∈ hooks,
          m'.world.site c k = m.world.original c k) := by
  unfold cleanupWhen
  split
  · rename_i hneeded
    refine .mono
      (cleanupRemoteBridge_spec hooks m (hg hneeded) (horiginal hneeded)) ?_
    rintro result m₁ ⟨hfollows, hdone, -⟩
    exact ⟨hfollows.mono fun _ hb => hb.mono fun k hk => ⟨hneeded, hk⟩,
      fun h => by simp [hneeded] at h, fun hr _ => hdone hr⟩
  · exact .pure ⟨.refl (Leaves.refl c _ _), fun _ => rfl,
      fun _ h => absurd h (by assumption)⟩

/-- What the end of an installation has done: whether the installation stands, whether a
clean-up is pending and whether the process was let go. -/
structure Released (c : Console) (ok : Bool) (patched : Nat) (m : HookMachine)
    (result : Bool × Bool × Bool) (m' : HookMachine) : Prop where
  follows : Evolves (Changes c (· ∈ hookOrder.take patched)) m m'
  stopped : m'.world.stopped = !result.2.2
  stands : result.1 = true → ok = true ∧ result.2.2 = true ∧
    ∀ k, m'.world.site c k = m.world.site c k
  settled : result.1 = false → result.2.1 = false →
    ∀ k ∈ hookOrder.take patched, m'.world.site c k = m.world.original c k
  idle : patched = 0 → result.2.1 = false
  pending : result.2.1 = true → result.2.2 = false

/-- What the end of an installation has put back. -/
theorem releaseInstall_spec (ok : Bool) (patched : Nat) (hstopped : m.world.stopped = true)
    (hfull : ok = true → patched = hookCount c)
    (hg : patched ≠ 0 → Records c m.world g)
    (horiginal : ∀ k ∈ hookOrder.take patched, g.original k = m.world.original c k) :
    Satisfies (releaseInstall c m.world.pid ok patched g) m (Released c ok patched m) := by
  have hfirstClean := cleanupWhen_spec (m := m) (g := g) (c := c)
    (!ok && decide (patched ≠ 0)) (hookOrder.take patched)
    (fun hneeded =>
      hg (by simp only [Bool.and_eq_true, decide_eq_true_eq] at hneeded; exact hneeded.2))
    (fun _ => horiginal)
  refine hfirstClean.seq ?_
  rintro cleaned m₁ ⟨hleaves₁, hneedless₁, hdone₁⟩
  have hfollows₁ : Evolves (Changes c (· ∈ hookOrder.take patched)) m m₁ :=
    hleaves₁.mono fun _ hb => hb.changes.mono fun _ hk => hk.2
  have hstopped₁ : m₁.world.stopped = true := by rw [hleaves₁.world.stopped, hstopped]
  have halike₁ := hfollows₁.world.alike
  cases cleaned with
  | false =>
    refine .pure ⟨hfollows₁, hstopped₁, nofun, nofun, fun hzero => ?_, fun _ => rfl⟩
    have := hneedless₁ (by simp [hzero])
    cases this
  | true =>
    -- Unless the installation stands, every tried site is restored by now.
    have hrestored : ok = false → ∀ k ∈ hookOrder.take patched,
        m₁.world.site c k = m.world.original c k := by
      intro hok k hk
      have hne : patched ≠ 0 := by
        rintro rfl
        simp at hk
      exact hdone₁ rfl (by simp [hok, hne]) k hk
    refine (detach_spec (c := c) (· ∈ hookOrder.take patched) hstopped₁).seq ?_
    rintro detached m₂ ⟨hfollows₂, hstopped₂, hsame₂, -⟩
    have hall₂ := follows_changes_trans hfollows₁ hfollows₂
    have halike₂ := hall₂.world.alike
    cases detached with
    | true =>
      refine .pure ⟨hall₂, hstopped₂, fun hok => ⟨hok, rfl, fun k => ?_⟩,
        fun hok _ k hk => ?_, fun _ => rfl, nofun⟩
      · dsimp only at hok
        refine (hsame₂ k).trans (hleaves₁.world.sites k fun hk => ?_)
        simp [hok] at hk
      · rw [hsame₂ k]
        exact hrestored hok k hk
    | false =>
      have hsecondClean := cleanupWhen_spec (m := m₂) (g := g) (c := c) ok
        (hookOrder.take (hookCount c))
        (fun hok => (hg (by rw [hfull hok]; exact hookCount_pos c)).alike halike₂)
        (fun hok k hk => by
          rw [halike₂.original]
          exact horiginal k (by rw [hfull hok]; exact hk))
      rw [halike₂.pid] at hsecondClean
      refine hsecondClean.seq ?_
      rintro cleaned m₃ ⟨hleaves₃, hneedless₃, hdone₃⟩
      have hfollows₃ : Evolves (Changes c (· ∈ hookOrder.take patched)) m₂ m₃ :=
        hleaves₃.mono fun _ hb => hb.changes.mono fun k hk => by
          rw [hfull hk.1]
          exact hk.2
      have hall₃ := follows_changes_trans hall₂ hfollows₃
      have hstopped₃ : m₃.world.stopped = true := by rw [hleaves₃.world.stopped, hstopped₂]; rfl
      cases cleaned with
      | false =>
        refine .pure ⟨hall₃, hstopped₃, nofun, nofun, fun hzero => ?_,
          fun _ => rfl⟩
        have hok : ok = false := by
          by_contra hok
          exact hookCount_pos c ((hfull (by simpa using hok)).symm.trans hzero)
        exact nomatch hneedless₃ hok
      | true =>
        have hrestored₃ : ∀ k ∈ hookOrder.take patched,
            m₃.world.site c k = m.world.original c k := by
          intro k hk
          cases hok : ok with
          | true =>
            rw [hdone₃ rfl hok k (by rw [← hfull hok]; exact hk), halike₂.original]
          | false =>
            rw [hleaves₃.world.sites k fun hk' => by simp [hok] at hk', hsame₂ k]
            exact hrestored hok k hk
        refine (detach_spec (c := c) (· ∈ hookOrder.take patched) hstopped₃).seq ?_
        rintro detached m₄ ⟨hfollows₄, hstopped₄, hsame₄, -⟩
        refine .pure ⟨follows_changes_trans hall₃ hfollows₄, hstopped₄, nofun,
          fun _ _ k hk => ?_, fun _ => rfl, nofun⟩
        rw [hsame₄ k]
        exact hrestored₃ k hk

theorem allInstalled_silent (hooks : List Hook) :
    ∀ m : HookMachine, Records c m.world g →
      (∀ k ∈ hooks, g.original k = m.world.original c k) →
      Satisfies (allInstalled c m.world.pid g hooks) m fun _ m' => Silent m m' := by
  induction hooks with
  | nil => exact fun m _ _ => .pure (.refl m)
  | cons h rest ih =>
    intro m hg horiginal
    refine (hookInstalled_spec hg (horiginal h List.mem_cons_self)).seq ?_
    rintro installed m₁ ⟨hsilent, -, -⟩
    have hworld := hsilent.world
    have hrest := ih m₁ (hworld ▸ hg) fun k hk => by
      rw [hworld]
      exact horiginal k (List.mem_cons_of_mem h hk)
    rw [hworld] at hrest
    refine hrest.seq fun _ m₂ hsilent' => ?_
    exact .pure (hsilent.trans hsilent')

/-- The sites are compared with their patches. -/
theorem validateSites_spec (hooks : List Hook) :
    ∀ m : HookMachine, Records c m.world g →
      (∀ k ∈ hooks, g.original k = m.world.original c k) →
      Satisfies (validateSites c m.world.pid g hooks) m fun result m' =>
        Silent m m' ∧ (result = true → ∀ k ∈ hooks,
          m.world.patch c k = some (m.world.site c k) ∨
            m.world.site c k = m.world.original c k) := by
  induction hooks with
  | nil => exact fun m _ _ => .pure ⟨.refl m, nofun⟩
  | cons h rest ih =>
    intro m hg horiginal
    -- The rest of the loop, once this site is found to be in order.
    have hnext : ∀ m₁ : HookMachine, Silent m m₁ →
        (m.world.patch c h = some (m.world.site c h) ∨
          m.world.site c h = m.world.original c h) →
        Satisfies (validateSites c m.world.pid g rest) m₁ fun result m' =>
          Silent m m' ∧ (result = true → ∀ k ∈ h :: rest,
            m.world.patch c k = some (m.world.site c k) ∨
              m.world.site c k = m.world.original c k) := by
      intro m₁ hsilent hsite
      have hworld := hsilent.world
      have hrest := ih m₁ (hworld ▸ hg) fun k hk => by
        rw [hworld]
        exact horiginal k (List.mem_cons_of_mem h hk)
      rw [hworld] at hrest
      refine hrest.mono ?_
      rintro result m₂ ⟨hsilent', hdone⟩
      refine ⟨hsilent.trans hsilent', fun hr k hk => ?_⟩
      rcases List.mem_cons.mp hk with rfl | hk
      · exact hsite
      · exact hdone hr k hk
    refine (hookInstalled_spec hg (horiginal h List.mem_cons_self)).seq ?_
    rintro installed m₁ ⟨hsilent, hinstalled, -⟩
    cases installed with
    | true => exact hnext m₁ hsilent (.inl (hinstalled rfl))
    | false =>
      have hworld := hsilent.world
      have hverify := verifyOriginal_spec (m := m₁) (k := h) (hworld ▸ hg)
        (hworld ▸ horiginal h List.mem_cons_self)
      rw [hworld] at hverify
      refine hverify.seq ?_
      rintro verified m₂ ⟨hsilent', htrue, -⟩
      cases verified with
      | true => exact hnext m₂ (hsilent.trans hsilent') (.inr (htrue rfl))
      | false => exact .pure ⟨hsilent.trans hsilent', nofun⟩

theorem copySlots_silent (pid : Nat) (slots : List Nat) :
    ∀ (m : HookMachine) (bridge : Memory UInt8),
      Satisfies (copySlots pid g slots bridge) m fun _ m' => Silent m m' := by
  induction slots with
  | nil => exact fun m _ => .pure (.refl m)
  | cons slot rest ih =>
    intro m bridge
    unfold copySlots
    split
    · exact .pure (.refl m)
    · refine (remoteProcessRead_spec m _ _ _).seq ?_
      rintro result m₁ ⟨hsilent, -, -⟩
      cases result with
      | none => exact .pure hsilent
      | some bytes =>
        exact (ih m₁ _).mono fun _ _ hsilent' => hsilent.trans hsilent'

theorem verifyInstalledBridge_silent (m : HookMachine) (pid : Nat) :
    Satisfies (verifyInstalledBridge c pid g) m fun _ m' => Silent m m' := by
  unfold verifyInstalledBridge
  split
  · exact .pure (.refl m)
  · refine (populateBridge_spec m g).seq ?_
    rintro result m₁ ⟨hsilent, -⟩
    cases result with
    | none => exact .pure hsilent
    | some bridge =>
      refine (copySlots_silent pid _ m₁ bridge).seq ?_
      intro result m₂ hsilent₂
      cases result with
      | none => exact .pure (hsilent.trans hsilent₂)
      | some bridge =>
        refine (verifyRemoteBytes_silent m₂ _ _ _).mono ?_
        exact fun _ _ hsilent₃ => (hsilent.trans hsilent₂).trans hsilent₃

theorem validateRepair_spec (hg : Records c m.world g)
    (horiginal : ∀ k ∈ g.recorded, g.original k = m.world.original c k) :
    Satisfies (validateRepair c m.world.pid g) m fun result m' =>
      Silent m m' ∧ (result = true → ∀ k ∈ g.recorded,
        m.world.patch c k = some (m.world.site c k) ∨
          m.world.site c k = m.world.original c k) := by
  refine (shellcoreRemoteResolve_spec m).seq ?_
  rintro result m₁ ⟨hsilent₁, -, -⟩
  cases result with
  | none => exact .pure ⟨hsilent₁, nofun⟩
  | some r =>
    dsimp only
    split
    · exact .pure ⟨hsilent₁, nofun⟩
    · refine (verifyInstalledBridge_silent m₁ _).seq ?_
      intro verified m₂ hsilent₂
      have hsilent := hsilent₁.trans hsilent₂
      cases verified with
      | false => exact .pure ⟨hsilent, nofun⟩
      | true =>
        have hsites := validateSites_spec g.recorded m₂ (hsilent.world ▸ hg)
          (hsilent.world ▸ horiginal)
        rw [hsilent.world] at hsites
        refine hsites.mono ?_
        rintro result m₃ ⟨hsilent₃, hdone⟩
        exact ⟨hsilent.trans hsilent₃, hdone⟩

/-- Sites that lost their patch are patched again. -/
theorem repairHooks_spec (hooks : List Hook) :
    ∀ (m : HookMachine) (attempted : List Hook), hooks.Nodup → Records c m.world g →
      (∀ k ∈ hooks, g.original k = m.world.original c k) →
      Satisfies (repairHooks c m.world.pid g hooks attempted) m fun result m' =>
        ∃ tried, result.2 = attempted ++ tried ∧ (∀ k ∈ tried, k ∈ hooks) ∧
          Evolves (Leaves c (· ∈ tried)) m m' ∧
          (result.1 = true → ∀ k ∈ hooks, m.world.patch c k = some (m'.world.site c k)) := by
  induction hooks with
  | nil =>
    intro m attempted _ _ _
    exact .pure ⟨[], (List.append_nil _).symm, nofun,
      .refl (Leaves.refl c _ _), nofun⟩
  | cons h rest ih =>
    intro m attempted hnodup hg horiginal
    obtain ⟨hnotin, hnodup⟩ := List.nodup_cons.mp hnodup
    refine (hookInstalled_spec hg (horiginal h List.mem_cons_self)).seq ?_
    rintro installed m₁ ⟨hsilent, hinstalled, -⟩
    have hworld := hsilent.world
    cases installed with
    | true =>
      have hrest := ih m₁ attempted hnodup (hworld ▸ hg) fun k hk => by
        rw [hworld]
        exact horiginal k (List.mem_cons_of_mem h hk)
      rw [hworld] at hrest
      refine hrest.mono ?_
      rintro result m₂ ⟨tried, heq, hsub, hfollows, hdone⟩
      refine ⟨tried, heq, fun k hk => List.mem_cons_of_mem h (hsub k hk),
        hsilent.andThen hfollows (Leaves.refl c _ _), fun hr k hk => ?_⟩
      rcases List.mem_cons.mp hk with rfl | hk
      · rw [hfollows.world.sites k fun hmem => hnotin (hsub k hmem), hworld]
        exact hinstalled rfl
      · exact hdone hr k hk
    | false =>
      have hpatch := patchSite_spec (m := m₁) (k := h) (hworld ▸ hg)
        (hworld ▸ horiginal h List.mem_cons_self)
      rw [hworld] at hpatch
      refine hpatch.seq ?_
      rintro patched m₂ ⟨hfollows, hpatched⟩
      have hfirst : Evolves (Leaves c (· = h)) m m₂ :=
        hsilent.andThen hfollows (Leaves.refl c _ _)
      have halike := hfirst.world.process_alike
      cases patched with
      | false =>
        refine .pure ⟨[h], rfl, fun k hk => ?_, ?_, nofun⟩
        · exact List.mem_cons.mpr (.inl (List.mem_singleton.mp hk))
        · exact hfirst.mono fun _ hb => hb.mono fun k hk => List.mem_singleton.mpr hk
      | true =>
        have hrest := ih m₂ (attempted ++ [h]) hnodup (hg.alike halike) fun k hk => by
          rw [halike.original]
          exact horiginal k (List.mem_cons_of_mem h hk)
        rw [halike.pid] at hrest
        refine hrest.mono ?_
        rintro result m₃ ⟨tried, heq, hsub, hlater, hdone⟩
        refine ⟨h :: tried, by rw [heq, List.append_assoc]; rfl, ?_, ?_, fun hr k hk => ?_⟩
        · intro k hk
          rcases List.mem_cons.mp hk with rfl | hk
          · exact List.mem_cons_self
          · exact List.mem_cons_of_mem h (hsub k hk)
        · exact follows_leaves_trans
            (hfirst.mono fun _ hb => hb.mono fun k hk => hk ▸ List.mem_cons_self)
            (hlater.mono fun _ hb => hb.mono fun k hk => List.mem_cons_of_mem h hk)
        · rcases List.mem_cons.mp hk with rfl | hk
          · rw [hlater.world.sites k fun hmem => hnotin (hsub k hmem)]
            exact hpatched rfl
          · rw [← halike.patch]
            exact hdone hr k hk

/-- What a repair has done when it comes to its end: only sites that held their original bytes
or the program's patch were tried. -/
theorem attemptRepair_spec (hg : Records c m.world g)
    (horiginal : ∀ k ∈ g.recorded, g.original k = m.world.original c k) :
    Satisfies (attemptRepair c m.world.pid g) m fun result m' =>
      Evolves (Leaves c (· ∈ result.2)) m m' ∧
        (∀ k ∈ result.2, k ∈ g.recorded ∧ (m.world.patch c k = some (m.world.site c k) ∨
          m.world.site c k = m.world.original c k)) ∧
        (result.1 = true → ∀ k ∈ g.recorded,
          m.world.patch c k = some (m'.world.site c k)) := by
  refine (validateRepair_spec hg horiginal).seq ?_
  rintro valid m₁ ⟨hsilent, hvalid⟩
  have hworld := hsilent.world
  cases valid with
  | false =>
    exact .pure ⟨hsilent.after (.refl (Leaves.refl c _ _)), nofun, nofun⟩
  | true =>
    have hnodup : g.recorded.Nodup := (List.take_sublist _ _).nodup (by decide)
    have hrepair := repairHooks_spec g.recorded m₁ [] hnodup (hworld ▸ hg)
      (hworld ▸ horiginal)
    rw [hworld] at hrepair
    refine hrepair.mono ?_
    rintro ⟨ok, attempted⟩ m₂ ⟨tried, heq, hsub, hfollows, hdone⟩
    obtain rfl : attempted = tried := heq
    refine ⟨hsilent.andThen hfollows (Leaves.refl c _ _), fun k hk => ?_, hdone⟩
    exact ⟨hsub k hk, hvalid rfl k (hsub k hk)⟩

/-- What the end of a repair has done. -/
structure Repaired (c : Console) (g : Hooks) (ok : Bool) (attempted : List Hook)
    (m : HookMachine) (result : Bool × Hooks) (m' : HookMachine) : Prop where
  follows : Evolves (Changes c (· ∈ attempted)) m m'
  record : result.2 = { g with status := result.2.status, attached := result.2.attached }
  success : result.1 = true → result.2.status = .ready
  ending :
    (result.2.status = .rollbackPending ∧ m'.world.stopped = result.2.attached) ∨
      (m'.world.stopped = false ∧ result.2.attached = g.attached ∧
        ((ok = true ∧ result.2.status = .ready ∧ ∀ k, m'.world.site c k = m.world.site c k) ∨
          (ok = false ∧ result.2.status = g.status ∧
            (∀ k ∈ attempted, m'.world.site c k = m.world.original c k))))

/-- A repair is released. -/
theorem releaseRepair_spec (ok : Bool) (attempted : List Hook)
    (hstopped : m.world.stopped = true) (hg : Records c m.world g)
    (horiginal : ∀ k ∈ attempted, g.original k = m.world.original c k) :
    Satisfies (releaseRepair m.world.pid ok attempted g) m (Repaired c g ok attempted m) := by
  refine (cleanupWhen_spec (!ok) attempted (fun _ => hg) fun _ => horiginal).seq ?_
  rintro cleaned m₁ ⟨hleaves, hneedless, hdone⟩
  have hfollows₁ : Evolves (Changes c (· ∈ attempted)) m m₁ :=
    hleaves.mono fun _ hb => hb.changes.mono fun _ hk => hk.2
  have hstopped₁ : m₁.world.stopped = true := by rw [hleaves.world.stopped, hstopped]
  cases cleaned with
  | false =>
    have hok : ok = false := by
      cases ok with
      | false => rfl
      | true => exact nomatch hneedless rfl
    subst hok
    exact .pure ⟨hfollows₁, rfl, nofun, .inl ⟨rfl, hstopped₁⟩⟩
  | true =>
    refine (detach_spec (c := c) (· ∈ attempted) hstopped₁).seq ?_
    rintro detached m₂ ⟨hfollows₂, hstopped₂, hsame₂, -⟩
    have hall₂ := follows_changes_trans hfollows₁ hfollows₂
    cases detached with
    | true =>
      cases ok with
      | true =>
        refine .pure ⟨hall₂, rfl, fun _ => rfl,
          .inr ⟨hstopped₂, rfl, .inl ⟨rfl, rfl, fun k => ?_⟩⟩⟩
        rw [hsame₂ k]
        exact hleaves.world.sites k fun hk => nomatch hk.1
      | false =>
        refine .pure ⟨hall₂, rfl, nofun,
          .inr ⟨hstopped₂, rfl, .inr ⟨rfl, rfl, fun k hk => ?_⟩⟩⟩
        rw [hsame₂ k]
        exact hdone rfl rfl k hk
    | false =>
      refine (detach_spec (c := c) (· ∈ attempted) hstopped₂).seq ?_
      rintro detached m₃ ⟨hfollows₃, hstopped₃, -, -⟩
      exact .pure ⟨follows_changes_trans hall₂ hfollows₃, rfl, nofun,
        .inl ⟨rfl, hstopped₃⟩⟩

end ShadowMount.ShellcoreHooks
