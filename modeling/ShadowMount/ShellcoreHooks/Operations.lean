import ShadowMount.ShellcoreHooks.Sites

/-!
# The parts of the operations

Specifications of the loops that the operations on the hooks are made of: the recovery of a
previous bridge, the clean-up of an installation, the repair and the removal.  Each says which
sites a loop may change, what it has achieved when it reports success, and that it succeeds
when no call fails.
-/

namespace ShadowMount.ShellcoreHooks

open Foundation

variable {c : Console} {m m' : HookMachine} {g : Hooks}
variable {p : Process} {k : Hook}

theorem follows_leaves_trans {may : Hook → Prop} {m'' : HookMachine}
    (h : Evolves (Leaves c may) m m') (h' : Evolves (Leaves c may) m' m'') :
    Evolves (Leaves c may) m m'' :=
  h.trans h' (fun _ hb => hb) fun _ hd => h.world.trans hd

/-- The record is about the image of the process. -/
structure Records (c : Console) (p : Process) (g : Hooks) : Prop where
  remote : g.remote = p.remote c
  bridge : g.bridgeAddress = p.bridge c

theorem Records.site (h : Records c p g) (k : Hook) : g.site k = p.siteAddress c k := by
  unfold Hooks.site
  rw [h.remote]
  rfl

theorem Records.pid (h : Records c p g) : g.remote.pid = p.pid := by
  rw [h.remote]
  rfl

theorem Records.alike {q : Process} (h : Records c p g) (hpq : p.Alike q) : Records c q g :=
  ⟨h.remote.trans hpq.remote.symm, h.bridge.trans hpq.bridge.symm⟩

theorem Records.patch (h : Records c p g) (horiginal : g.original k = p.original c k) :
    patchBytes c g.remote g.bridgeAddress k (g.original k).length = p.patch c k := by
  rw [horiginal, length_original, h.remote, h.bridge]
  rfl

theorem hookInstalled_spec (hg : Records c m.world g)
    (horiginal : g.original k = m.world.original c k) :
    Satisfies (hookInstalled c m.world.pid g k) m fun result m' =>
      Silent m m' ∧
        (result = true → m.world.patch c k = some (m.world.site c k)) ∧
        (m.Faultless → m.world.patch c k = some (m.world.site c k) → result = true) := by
  obtain ⟨patch, hpatch, hlength⟩ := exists_patch c m.world k
  unfold hookInstalled
  rw [hg.patch horiginal, hg.site, hpatch]
  have hsite : m.world.memory.read (m.world.siteAddress c k) patch.length =
      m.world.site c k := by
    rw [hlength]
    rfl
  refine (verifyRemoteBytes_spec m _ _ patch).mono ?_
  rintro result m₁ ⟨hsilent, htrue, hdone⟩
  rw [hsite] at htrue hdone
  refine ⟨hsilent, fun hr => congrArg some (htrue hr).symm, fun hm heq => hdone hm ?_ ?_⟩
  · intro _
    rw [hlength]
    exact site_accessible c m.world k
  · exact (Option.some.inj heq).symm

theorem verifyOriginal_spec (hg : Records c m.world g)
    (horiginal : g.original k = m.world.original c k) :
    Satisfies (verifyRemoteBytes m.world.pid (g.site k) (g.original k)) m fun result m' =>
      Silent m m' ∧
        (result = true → m.world.site c k = m.world.original c k) ∧
        (m.Faultless → m.world.site c k = m.world.original c k → result = true) := by
  have hsite : m.world.memory.read (m.world.siteAddress c k) (m.world.original c k).length =
      m.world.site c k := by
    rw [length_original]
    rfl
  rw [hg.site, horiginal]
  refine (verifyRemoteBytes_spec m _ _ _).mono ?_
  rintro result m₁ ⟨hsilent, htrue, hdone⟩
  rw [hsite] at htrue hdone
  refine ⟨hsilent, htrue, fun hm heq => hdone hm (fun _ => ?_) heq⟩
  rw [length_original]
  exact site_accessible c m.world k

theorem restoreSite_spec (hg : Records c m.world g)
    (horiginal : g.original k = m.world.original c k) :
    Satisfies (restoreRemoteBytes .other m.world.pid (g.site k) (g.original k)) m
      (SiteWritten c .other k (m.world.original c k) m) := by
  rw [hg.site, horiginal]
  refine (restoreRemoteBytes_spec m .other _ _ _).mono fun _ _ hwritten => ?_
  exact hwritten.site (length_original c m.world k)

theorem patchSite_spec (hg : Records c m.world g)
    (horiginal : g.original k = m.world.original c k) :
    Satisfies (patchSite c m.world.pid g k) m fun result m' =>
      Evolves (Leaves c (· = k)) m m' ∧
        (result = true → m.world.patch c k = some (m'.world.site c k)) := by
  obtain ⟨patch, hpatch, hlength⟩ := exists_patch c m.world k
  unfold patchSite
  rw [hg.patch horiginal, hg.site, hpatch]
  refine (remoteProcessWrite_spec m .other _ _ patch).seq ?_
  intro result m₁ hwritten
  have hsite := hwritten.site hlength
  cases result with
  | false => exact ⟨hsite.follows, nofun⟩
  | true =>
    refine (remoteProcessRead_spec m₁ _ _ patch.length).seq ?_
    rintro buffer m₂ ⟨hsilent, -, -⟩
    refine .pure ⟨hsilent.after hsite.follows, fun _ => ?_⟩
    rw [hsilent.world, hsite.done rfl]

/-- A clean-up that succeeds leaves the original bytes, and it does when no call fails. -/
theorem cleanupRemoteBridge_spec (hooks : List Hook) :
    ∀ m : HookMachine, Records c m.world g →
      (∀ k ∈ hooks, g.original k = m.world.original c k) →
      Satisfies (cleanupRemoteBridge m.world.pid g hooks) m fun result m' =>
        Evolves (Leaves c (· ∈ hooks)) m m' ∧
          (result = true → ∀ k ∈ hooks, m'.world.site c k = m.world.original c k) ∧
          (m.Faultless → result = true) := by
  induction hooks with
  | nil =>
    intro m _ _
    exact ⟨.refl (Leaves.refl c _ _), nofun, fun _ => rfl⟩
  | cons h rest ih =>
    intro m hg horiginal
    refine (restoreSite_spec hg (horiginal h List.mem_cons_self)).seq ?_
    intro restored m₁ hrestored
    have halike := hrestored.follows.world.process_alike
    have hrest := ih m₁ (hg.alike halike) fun k hk => by
      rw [halike.original]
      exact horiginal k (List.mem_cons_of_mem h hk)
    rw [halike.pid] at hrest
    refine hrest.seq ?_
    rintro others m₂ ⟨hfollows, hdone, hsuccess⟩
    have hfirst : Evolves (Leaves c (· ∈ h :: rest)) m m₁ :=
      hrestored.follows.mono fun _ hb => hb.mono fun k hk => hk ▸ List.mem_cons_self
    have hsecond : Evolves (Leaves c (· ∈ h :: rest)) m₁ m₂ :=
      hfollows.mono fun _ hb => hb.mono fun k hk => List.mem_cons_of_mem h hk
    refine .pure ⟨follows_leaves_trans hfirst hsecond, fun hr k hk => ?_,
      fun hm => ?_⟩
    · obtain ⟨hr₁, hr₂⟩ := (Bool.and_eq_true _ _).mp hr
      by_cases hmem : k ∈ rest
      · rw [hdone hr₂ k hmem, halike.original]
      · have hkh : k = h := (List.mem_cons.mp hk).resolve_right hmem
        subst hkh
        rw [hfollows.world.sites k hmem]
        exact hrestored.done hr₁
    · rw [hrestored.success hm, hsuccess (hrestored.follows.faultless hm)]
      rfl

theorem readSite_spec (m : HookMachine) (k : Hook) :
    Satisfies (readSite m.world.pid (m.world.remote c) k) m fun result m' =>
      Silent m m' ∧ ∀ bytes, result = some bytes → bytes = m.world.site c k := by
  unfold readSite
  simp only
  split
  · exact .pure ⟨.refl m, nofun⟩
  · refine (remoteProcessRead_spec m _ _ _).mono ?_
    rintro result m₁ ⟨hsilent, hread, -⟩
    exact ⟨hsilent, hread⟩

/-- The first loop of the recovery: every site holds the program's own patch or bytes that are
taken for the original. -/
theorem findStale_spec (hooks : List Hook) :
    ∀ m : HookMachine,
      Satisfies (findStale c m.world.pid (m.world.remote c) (m.world.bridge c) hooks) m
        fun result m' =>
          Silent m m' ∧ ∀ stale, result = some stale →
            (∀ k ∈ stale, k ∈ hooks ∧ m.world.patch c k = some (m.world.site c k)) ∧
            ∀ k ∈ hooks, k ∈ stale ∨
              isOriginal (m.world.remote c) k (m.world.site c k) = true := by
  induction hooks with
  | nil =>
    intro m
    refine .pure ⟨.refl m, fun stale hstale => ?_⟩
    cases hstale
    exact ⟨nofun, nofun⟩
  | cons h rest ih =>
    intro m
    refine (readSite_spec m h).seq ?_
    rintro result m₁ ⟨hsilent, hread⟩
    cases result with
    | none => exact .pure ⟨hsilent, nofun⟩
    | some bytes =>
      obtain rfl := hread bytes rfl
      have hrest := ih m₁
      rw [hsilent.world] at hrest
      dsimp only
      split
      · rename_i horiginal
        refine hrest.mono ?_
        rintro result m₂ ⟨hsilent', hspec⟩
        refine ⟨hsilent.trans hsilent', fun stale hstale => ?_⟩
        obtain ⟨hown, hall⟩ := hspec stale hstale
        refine ⟨fun k hk => ⟨List.mem_cons_of_mem h (hown k hk).1, (hown k hk).2⟩, ?_⟩
        intro k hk
        rcases List.mem_cons.mp hk with rfl | hk
        · exact .inr horiginal
        · exact hall k hk
      · split
        · rename_i hstale
          have hpatch := isStale_patch (length_site c m.world h) hstale
          refine hrest.seq ?_
          rintro result m₂ ⟨hsilent', hspec⟩
          refine .pure ⟨hsilent.trans hsilent', fun stale hstale => ?_⟩
          obtain ⟨others, rfl, rfl⟩ := Option.map_eq_some_iff.mp hstale
          obtain ⟨hown, hall⟩ := hspec others rfl
          constructor
          · intro k hk
            rcases List.mem_cons.mp hk with rfl | hk
            · exact ⟨List.mem_cons_self, hpatch⟩
            · exact ⟨List.mem_cons_of_mem h (hown k hk).1, (hown k hk).2⟩
          · intro k hk
            rcases List.mem_cons.mp hk with rfl | hk
            · exact .inl List.mem_cons_self
            · exact (hall k hk).imp_left (List.mem_cons_of_mem h)
        · exact .pure ⟨hsilent, nofun⟩

theorem staleOriginal_spec (hbridged : Bridged c m.world) (hk : k ∈ hooksOf c) (bridgeSize : Nat) :
    Satisfies (staleOriginal c m.world.pid (m.world.remote c) (m.world.bridge c) bridgeSize k) m
      fun result m' =>
        Silent m m' ∧ ∀ bytes, result = some bytes → bytes = m.world.original c k := by
  unfold staleOriginal
  simp only
  split
  · rename_i hcall
    split
    · exact .pure ⟨.refl m, nofun⟩
    · refine .pure ⟨.refl m, fun bytes hbytes => ?_⟩
      cases k with
      | launch => cases hcall
      | install => cases hcall
      | sandbox =>
        have horiginal := hbridged.originals .sandbox hk
        simp only [isOriginal, Bool.and_eq_true, decide_eq_true_eq] at horiginal
        have hbuilt := buildRelativeCall_of_parse horiginal.2 horiginal.1
        exact Option.some.inj (hbytes.symm.trans hbuilt)
  · rename_i offset hoffset
    split
    · exact .pure ⟨.refl m, nofun⟩
    · refine (remoteProcessRead_spec m _ _ _).seq ?_
      rintro result m₁ ⟨hsilent, hread, -⟩
      cases result with
      | none => exact .pure ⟨hsilent, nofun⟩
      | some bytes =>
        obtain rfl := hread bytes rfl
        dsimp only
        split
        · refine .pure ⟨hsilent, fun bytes hbytes => ?_⟩
          have hsize := siteSize_le c k
          have hpart := Memory.read_part (m := m.world.memory)
            (a := m.world.bridge c + offset) (n := trampolineSize) (k := 0) (j := siteSize c k)
            (by unfold trampolineSize; omega)
          rw [← Option.some.inj hbytes, ← hbridged.trampolines k hk offset hoffset]
          exact hpart.symm
        · exact .pure ⟨hsilent, nofun⟩

theorem staleOriginals_spec (bridgeSize : Nat) (stale : List Hook) :
    ∀ m : HookMachine, Bridged c m.world → (∀ k ∈ stale, k ∈ hooksOf c) →
      Satisfies (staleOriginals c m.world.pid (m.world.remote c) (m.world.bridge c) bridgeSize
          stale) m
        fun result m' =>
          Silent m m' ∧ ∀ originals, result = some originals →
            originals = stale.map fun k => (k, m.world.original c k) := by
  induction stale with
  | nil =>
    intro m _ _
    refine .pure ⟨.refl m, fun originals horiginals => ?_⟩
    cases horiginals
    rfl
  | cons h rest ih =>
    intro m hbridged hstale
    refine (staleOriginal_spec hbridged (hstale h List.mem_cons_self) bridgeSize).seq ?_
    rintro result m₁ ⟨hsilent, hread⟩
    cases result with
    | none => exact .pure ⟨hsilent, nofun⟩
    | some bytes =>
      obtain rfl := hread bytes rfl
      have hrest := ih m₁
      rw [hsilent.world] at hrest
      refine (hrest hbridged fun k hk => hstale k (List.mem_cons_of_mem h hk)).seq ?_
      rintro result m₂ ⟨hsilent', hspec⟩
      refine .pure ⟨hsilent.trans hsilent', fun originals horiginals => ?_⟩
      obtain ⟨others, rfl, rfl⟩ := Option.map_eq_some_iff.mp horiginals
      rw [hspec others rfl]
      rfl

/-- The stale sites are restored. -/
theorem restoreStale_spec (stale : List Hook) :
    ∀ m : HookMachine,
      Satisfies (restoreStale m.world.pid (m.world.remote c)
          (stale.map fun k => (k, m.world.original c k))) m
        fun result m' =>
          Evolves (Leaves c (· ∈ stale)) m m' ∧
            (result = true → ∀ k ∈ stale, m'.world.site c k = m.world.original c k) ∧
            (Untorn .recovery m → ∀ k ∈ stale, m'.world.site c k = m.world.original c k ∨
              m'.world.site c k = m.world.site c k) := by
  induction stale with
  | nil =>
    intro m
    exact .pure ⟨.refl (Leaves.refl c _ _), nofun, nofun⟩
  | cons h rest ih =>
    intro m
    refine (restoreRemoteBytes_spec m .recovery _ _ (m.world.original c h)).seq ?_
    intro restored m₁ hwritten
    have hrestored : SiteWritten c .recovery h (m.world.original c h) m restored m₁ :=
      hwritten.site (length_original c m.world h)
    have halike := hrestored.follows.world.process_alike
    have hfirst : Evolves (Leaves c (· ∈ h :: rest)) m m₁ :=
      hrestored.follows.mono fun _ hb => hb.mono fun k hk => hk ▸ List.mem_cons_self
    cases restored with
    | false =>
      refine .pure ⟨hfirst, nofun, fun hm k hk => ?_⟩
      by_cases hkh : k = h
      · subst hkh
        exact hrestored.untorn hm
      · exact .inr (hrestored.follows.world.sites k hkh)
    | true =>
      have hrest := ih m₁
      simp only [halike.pid, halike.remote, halike.original] at hrest
      refine hrest.mono ?_
      rintro result m₂ ⟨hfollows, hdone, huntorn⟩
      have hsecond : Evolves (Leaves c (· ∈ h :: rest)) m₁ m₂ :=
        hfollows.mono fun _ hb => hb.mono fun k hk => List.mem_cons_of_mem h hk
      -- The first site is restored unless a later turn writes it again.
      have hhead : ∀ k ∈ h :: rest, k ∉ rest →
          m₂.world.site c k = m.world.original c k := by
        intro k hk hmem
        have hkh : k = h := (List.mem_cons.mp hk).resolve_right hmem
        subst hkh
        rw [hfollows.world.sites k hmem]
        exact hrestored.done rfl
      refine ⟨follows_leaves_trans hfirst hsecond, fun hr k hk => ?_, fun hm k hk => ?_⟩
      · by_cases hmem : k ∈ rest
        · exact hdone hr k hmem
        · exact hhead k hk hmem
      · by_cases hmem : k ∈ rest
        · rcases huntorn (hm.follows hrestored.follows) k hmem with horiginal | hkept
          · exact .inl horiginal
          · by_cases hkh : k = h
            · subst hkh
              exact .inl (hkept.trans (hrestored.done rfl))
            · exact .inr (hkept.trans (hrestored.follows.world.sites k hkh))
        · exact .inl (hhead k hk hmem)

/-- What a recovery does: it changes only sites that hold the program's own patch.  When it
succeeds, every site holds its original bytes or what is taken for them. -/
structure Recovered (c : Console) (m : HookMachine) (result : Bool) (m' : HookMachine) : Prop where
  follows : Evolves (Leaves c fun k => m.world.patch c k = some (m.world.site c k)) m m'
  done : result = true → ∀ k ∈ hooksOf c,
    m'.world.site c k = m.world.original c k ∨
      (m'.world.site c k = m.world.site c k ∧
        isOriginal (m.world.remote c) k (m.world.site c k) = true)
  kept : Untorn .recovery m ∨ (∀ k ∈ hooksOf c, some (m.world.site c k) ≠ m.world.patch c k) →
    ∀ k, m'.world.site c k = m.world.original c k ∨ m'.world.site c k = m.world.site c k

/-- A recovery changes only sites that hold the program's own patch. -/
theorem recoverStaleBridge_spec
    (hbridged : Bridged c m.world ∨
      ∀ k ∈ hooksOf c, some (m.world.site c k) ≠ m.world.patch c k) (bridgeSize : Nat) :
    Satisfies (recoverStaleBridge c m.world.pid (m.world.remote c) (hooksOf c)
        (m.world.bridge c) bridgeSize) m (Recovered c m) := by
  refine (findStale_spec (hooksOf c) m).seq ?_
  rintro result m₁ ⟨hsilent, hfound⟩
  -- Without a write nothing has changed.
  have hquiet : ∀ m₂, Silent m₁ m₂ →
      Evolves (Leaves c fun k => m.world.patch c k = some (m.world.site c k)) m m₂ ∧
        ∀ k, m₂.world.site c k = m.world.site c k := by
    intro m₂ hsilent'
    have hall := hsilent.trans hsilent'
    exact ⟨hall.after (.refl (Leaves.refl c _ _)), fun k => by rw [hall.world]⟩
  have hgiveUp : ∀ m₂, Silent m₁ m₂ → Recovered c m false m₂ := by
    intro m₂ hsilent'
    obtain ⟨hfollows, hsame⟩ := hquiet m₂ hsilent'
    exact ⟨hfollows, nofun, fun _ k => .inr (hsame k)⟩
  match result with
  | none => exact hgiveUp m₁ (.refl m₁)
  | some [] =>
    obtain ⟨-, hall⟩ := hfound [] rfl
    obtain ⟨hfollows, hsame⟩ := hquiet m₁ (.refl m₁)
    refine .pure ⟨hfollows, fun _ k hk => .inr ⟨hsame k, ?_⟩,
      fun _ k => .inr (hsame k)⟩
    exact (hall k hk).resolve_left nofun
  | some (h :: rest) =>
    obtain ⟨hown, hall⟩ := hfound (h :: rest) rfl
    -- A stale site shows that the bridge is in the cave.
    have hthere : Bridged c m.world := by
      refine hbridged.resolve_right fun hnone => ?_
      obtain ⟨hk, hpatch⟩ := hown h List.mem_cons_self
      exact hnone h hk hpatch.symm
    refine (verifyRemoteBytes_silent m₁ _ _ _).seq ?_
    intro verified m₂ hverified
    cases verified with
    | false => exact hgiveUp m₂ hverified
    | true =>
      have hworld : m₂.world = m.world := (hsilent.trans hverified).world
      have horiginals := staleOriginals_spec bridgeSize (h :: rest) m₂
        (hworld ▸ hthere) fun k hk => (hown k hk).1
      rw [hworld] at horiginals
      refine horiginals.seq ?_
      rintro result m₃ ⟨hsilent', hread⟩
      cases result with
      | none => exact hgiveUp m₃ (hverified.trans hsilent')
      | some originals =>
        obtain rfl := hread originals rfl
        have hworld' : m₃.world = m.world := hsilent'.world.trans hworld
        have hrestore := restoreStale_spec (c := c) (h :: rest) m₃
        rw [hworld'] at hrestore
        refine hrestore.mono ?_
        rintro result m₄ ⟨hfollows, hdone, huntorn⟩
        have hsilently := (hsilent.trans hverified).trans hsilent'
        refine ⟨hsilently.andThen (hfollows.mono fun _ hb => ?_) (Leaves.refl c _ _),
          fun hr k hk => ?_, fun hcase k => ?_⟩
        · rw [hworld'] at hb ⊢
          exact hb.mono fun k hk => (hown k hk).2
        · rcases hall k hk with hstale | horiginal
          · exact .inl (hdone hr k hstale)
          · by_cases hstale : k ∈ h :: rest
            · exact .inl (hdone hr k hstale)
            · refine .inr ⟨?_, horiginal⟩
              rw [hfollows.world.sites k hstale, hworld']
        · by_cases hstale : k ∈ h :: rest
          · rcases hcase with hm | hnone
            · exact huntorn (hm.follows hsilently) k hstale
            · obtain ⟨hk, hpatch⟩ := hown k hstale
              exact absurd hpatch.symm (hnone k hk)
          · refine .inr ?_
            rw [hfollows.world.sites k hstale, hworld']

/-- What a part of the removal does to some sites: it changes only those that it owns, and
those that it does not report as failed hold their original bytes or what they held. -/
structure Removed (c : Console) (status : Status) (hooks : List Hook) (m : HookMachine)
    (result : Removal) (m' : HookMachine) : Prop where
  follows : Evolves (Leaves c fun k => k ∈ hooks ∧
    (status = .rollbackPending ∨ m.world.patch c k = some (m.world.site c k))) m m'
  restored : result.restored = true → ∀ k ∈ hooks, m'.world.site c k = m.world.original c k
  kept : result.rollbackFailed = false → ∀ k ∈ hooks,
    m'.world.site c k = m.world.original c k ∨ m'.world.site c k = m.world.site c k
  pending : status = .rollbackPending → result.rollbackFailed = false → result.restored = true
  success : m.Faultless → result.rollbackFailed = false ∧
    ((∀ k ∈ hooks, status = .rollbackPending ∨ m.world.site c k = m.world.original c k ∨
      m.world.patch c k = some (m.world.site c k)) → result.restored = true)

theorem toRestore_spec (hg : Records c m.world g)
    (horiginal : g.original k = m.world.original c k) :
    Satisfies (toRestore c m.world.pid g k) m fun result m' =>
      Silent m m' ∧
        (result = true → g.status = .rollbackPending ∨
          m.world.patch c k = some (m.world.site c k)) ∧
        (g.status = .rollbackPending → result = true) ∧
        (m.Faultless → m.world.patch c k = some (m.world.site c k) → result = true) := by
  unfold toRestore
  split
  · rename_i hpending
    exact .pure ⟨.refl m, fun _ => .inl hpending, fun _ => rfl, fun _ _ => rfl⟩
  · rename_i hpending
    refine (hookInstalled_spec hg horiginal).mono ?_
    rintro result m₁ ⟨hsilent, htrue, hdone⟩
    exact ⟨hsilent, fun hr => .inr (htrue hr), fun h => absurd h hpending, hdone⟩

/-- One hook is removed. -/
theorem removeHook_spec (hg : Records c m.world g)
    (horiginal : g.original k = m.world.original c k) :
    Satisfies (removeHook c m.world.pid g k) m (Removed c g.status [k] m) := by
  refine (toRestore_spec hg horiginal).seq ?_
  rintro owned m₁ ⟨hsilent, howned, hpending, hsuccess⟩
  have hworld := hsilent.world
  cases owned with
  | true =>
    have hrestore := restoreSite_spec (m := m₁) (k := k) (hworld ▸ hg) (hworld ▸ horiginal)
    rw [hworld] at hrestore
    refine hrestore.seq ?_
    intro restored m₂ hwritten
    refine .pure ⟨?_, ?_, ?_, ?_, ?_⟩
    · refine hsilent.andThen (hwritten.follows.mono fun _ hb => ?_) (Leaves.refl c _ _)
      rw [hworld] at hb ⊢
      refine hb.mono fun j hj => ?_
      subst hj
      exact ⟨List.mem_singleton.mpr rfl, howned rfl⟩
    · intro hr j hj
      rw [List.mem_singleton.mp hj]
      exact hwritten.done hr
    · intro hfailed j hj
      rw [List.mem_singleton.mp hj]
      exact .inl (hwritten.done (by simpa using hfailed))
    · intro _ hfailed
      simpa using hfailed
    · intro hm
      have hr := hwritten.success (hsilent.faultless hm)
      exact ⟨by simp [hr], fun _ => hr⟩
  | false =>
    have hverify := verifyOriginal_spec (m := m₁) (k := k) (hworld ▸ hg) (hworld ▸ horiginal)
    rw [hworld] at hverify
    refine hverify.seq ?_
    rintro verified m₂ ⟨hsilent', htrue, hdone⟩
    have hall := hsilent.trans hsilent'
    refine .pure ⟨?_, ?_, ?_, ?_, ?_⟩
    · exact hall.after (.refl (Leaves.refl c _ _))
    · intro hr j hj
      rw [List.mem_singleton.mp hj, hall.world]
      exact htrue hr
    · intro _ j _
      exact .inr (by rw [hall.world])
    · intro h
      exact nomatch hpending h
    · intro hm
      refine ⟨rfl, fun hsites => hdone (hsilent.faultless hm) ?_⟩
      rcases hsites k (List.mem_singleton.mpr rfl) with h | h | h
      · exact nomatch hpending h
      · exact h
      · exact nomatch hsuccess hm h

/-- The loop of the removal. -/
theorem removeHooks_spec (hooks : List Hook) :
    ∀ m : HookMachine, hooks.Nodup → Records c m.world g →
      (∀ k ∈ hooks, g.original k = m.world.original c k) →
      Satisfies (removeHooks c m.world.pid g hooks) m (Removed c g.status hooks m) := by
  induction hooks with
  | nil =>
    intro m _ _ _
    exact .pure ⟨.refl (Leaves.refl c _ _), nofun, nofun, fun _ _ => rfl,
      fun _ => ⟨rfl, fun _ => rfl⟩⟩
  | cons h rest ih =>
    intro m hnodup hg horiginal
    obtain ⟨hnotin, hnodup⟩ := List.nodup_cons.mp hnodup
    refine (removeHook_spec hg (horiginal h List.mem_cons_self)).seq ?_
    intro first m₁ hfirst
    have halike := hfirst.follows.world.process_alike
    have hothers : ∀ k ∈ rest, m₁.world.site c k = m.world.site c k := by
      intro k hk
      refine hfirst.follows.world.sites k fun hmay => hnotin ?_
      exact List.mem_singleton.mp hmay.1 ▸ hk
    have hrest := ih m₁ hnodup (hg.alike halike) fun k hk => by
      rw [halike.original]
      exact horiginal k (List.mem_cons_of_mem h hk)
    rw [halike.pid] at hrest
    refine hrest.seq ?_
    intro others m₂ hsecond
    have hhead : m₂.world.site c h = m₁.world.site c h :=
      hsecond.follows.world.sites h fun hmay => hnotin hmay.1
    refine .pure ⟨?_, ?_, ?_, ?_, ?_⟩
    · refine follows_leaves_trans
        (hfirst.follows.mono fun _ hb => hb.mono fun k hk =>
          ⟨List.mem_cons.mpr (.inl (List.mem_singleton.mp hk.1)), hk.2⟩)
        (hsecond.follows.mono fun _ hb => hb.mono fun k hk =>
          ⟨List.mem_cons_of_mem h hk.1, ?_⟩)
      rw [halike.patch, hothers k hk.1] at hk
      exact hk.2
    · intro hr k hk
      obtain ⟨hr₁, hr₂⟩ := (Bool.and_eq_true _ _).mp hr
      rcases List.mem_cons.mp hk with rfl | hk
      · rw [hhead]
        exact hfirst.restored hr₁ k (List.mem_singleton.mpr rfl)
      · rw [hsecond.restored hr₂ k hk, halike.original]
    · intro hfailed k hk
      obtain ⟨hf₁, hf₂⟩ := Bool.or_eq_false_iff.mp hfailed
      rcases List.mem_cons.mp hk with rfl | hk
      · rw [hhead]
        exact hfirst.kept hf₁ k (List.mem_singleton.mpr rfl)
      · have hkept := hsecond.kept hf₂ k hk
        rwa [halike.original, hothers k hk] at hkept
    · intro hpending hfailed
      obtain ⟨hf₁, hf₂⟩ := Bool.or_eq_false_iff.mp hfailed
      exact (Bool.and_eq_true _ _).mpr
        ⟨hfirst.pending hpending hf₁, hsecond.pending hpending hf₂⟩
    · intro hm
      obtain ⟨hf₁, hr₁⟩ := hfirst.success hm
      obtain ⟨hf₂, hr₂⟩ := hsecond.success (hfirst.follows.faultless hm)
      refine ⟨Bool.or_eq_false_iff.mpr ⟨hf₁, hf₂⟩, fun hsites => ?_⟩
      refine (Bool.and_eq_true _ _).mpr ⟨hr₁ fun k hk => ?_, hr₂ fun k hk => ?_⟩
      · rw [List.mem_singleton.mp hk]
        exact hsites h List.mem_cons_self
      · rw [hothers k hk, halike.original, halike.patch]
        exact hsites k (List.mem_cons_of_mem h hk)

end ShadowMount.ShellcoreHooks
