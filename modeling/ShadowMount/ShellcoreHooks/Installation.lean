import ShadowMount.ShellcoreHooks.Operations

/-!
# Installing the hooks

What {lit}`install_hooks_for_pid` does to the process.  Before anything is patched, the
original bytes are read and put into the trampolines of the bridge; from then on the bridge
holds what a later recovery needs.  The sites are patched one after another, and those that
were tried are put back when something fails.
-/

namespace ShadowMount.ShellcoreHooks

open Foundation

variable {c : Console} {m m' : HookMachine} {g : Hooks} {p q r : Process}
variable {symbol : Nat} {bridge bridge' : Memory UInt8}

/-- The sites that another payload has patched are as they were. -/
structure Spares (c : Console) (p q : Process) : Prop where
  alike : p.Alike q
  sites : ∀ k, p.foreign k = true → q.site c k = p.site c k

theorem Spares.refl (c : Console) (p : Process) : Spares c p p :=
  ⟨rfl, fun _ _ => rfl⟩

theorem Spares.trans (h : Spares c p q) (h' : Spares c q r) : Spares c p r where
  alike := h.alike.trans h'.alike
  sites k hk := by
    have hq : q.foreign k = true := by rw [h.alike.foreign, hk]
    exact (h'.sites k hq).trans (h.sites k hk)

theorem Leaves.spares {may : Hook → Prop} (h : Leaves c may p q)
    (hmay : ∀ k, may k → p.foreign k = false) : Spares c p q where
  alike := h.process_alike
  sites k hk := h.sites k fun hm => by simp [hmay k hm] at hk

theorem SameBut.spares (h : SameBut p q) : Spares c p q where
  alike := by
    unfold Process.Alike
    rw [h]
  sites k _ := by
    unfold SameBut at h
    rw [h]
    rfl

theorem follows_spares_trans {m'' : HookMachine} (h : Evolves (Spares c) m m')
    (h' : Evolves (Spares c) m' m'') : Evolves (Spares c) m m'' :=
  h.trans h' (fun _ hb => hb) fun _ hd => h.world.trans hd

theorem Silent.spares (h : Silent m m') : Evolves (Spares c) m m' :=
  h.after (.refl (Spares.refl c _))

/-- Only the cave differs. -/
structure CaveOnly (c : Console) (p q : Process) : Prop where
  alike : q = { p with memory := q.memory }
  sites : ∀ k, q.site c k = p.site c k

theorem CaveOnly.refl (c : Console) (p : Process) : CaveOnly c p p :=
  ⟨rfl, fun _ => rfl⟩

theorem CaveOnly.process_alike (h : CaveOnly c p q) : p.Alike q := by
  unfold Process.Alike
  rw [h.alike]

theorem CaveOnly.spares (h : CaveOnly c p q) : Spares c p q :=
  ⟨h.process_alike, fun k _ => h.sites k⟩

/-- The originals are read. -/
theorem readOriginals_spec (hooks : List Hook) :
    ∀ (m : HookMachine) (before : Hook → List UInt8),
      Satisfies (readOriginals m.world.pid (m.world.remote c) hooks before) m
        fun result m' =>
          Silent m m' ∧ ∀ originals, result = some originals →
            (∀ k ∈ hooks, originals k = m.world.site c k ∧
              isOriginal (m.world.remote c) k (m.world.site c k) = true) ∧
            ∀ k, k ∉ hooks → originals k = before k := by
  induction hooks with
  | nil =>
    intro m before
    refine .pure ⟨.refl m, fun originals horiginals => ?_⟩
    cases horiginals
    exact ⟨nofun, fun _ _ => rfl⟩
  | cons h rest ih =>
    intro m before
    refine (readSite_spec m h).seq ?_
    rintro result m₁ ⟨hsilent, hread⟩
    cases result with
    | none => exact .pure ⟨hsilent, nofun⟩
    | some bytes =>
      obtain rfl := hread bytes rfl
      dsimp only
      split
      · rename_i horiginal
        have hrest := ih m₁ (Function.update before h (m.world.site c h))
        rw [hsilent.world] at hrest
        refine hrest.mono ?_
        rintro result m₂ ⟨hsilent', hspec⟩
        refine ⟨hsilent.trans hsilent', fun originals horiginals => ?_⟩
        obtain ⟨hmem, hnot⟩ := hspec originals horiginals
        constructor
        · intro k hk
          by_cases hkr : k ∈ rest
          · exact hmem k hkr
          · have hkh : k = h := (List.mem_cons.mp hk).resolve_right hkr
            subst hkh
            rw [hnot k hkr, Function.update_self]
            exact ⟨rfl, horiginal⟩
        · intro k hk
          obtain ⟨hkh, hkr⟩ := not_or.mp (mt List.mem_cons.mpr hk)
          rw [hnot k hkr, Function.update_of_ne hkh]
      · exact .pure ⟨hsilent, nofun⟩

theorem bridgeSymbolOffset_eq_some {size blobSize offset : Nat}
    (h : bridgeSymbolOffset symbol size blobSize = some offset) : offset = symbol := by
  unfold bridgeSymbolOffset at h
  split at h
  · exact (Option.some.inj h).symm
  · cases h

theorem writeEmbeddedTrampoline_spec {blobSize : Nat} {original : List UInt8}
    {remoteBridgeAddress returnAddress : Nat}
    (h : writeEmbeddedTrampoline bridge blobSize symbol original remoteBridgeAddress
      returnAddress = some bridge') :
    (∃ jump, buildRelativeJump (remoteBridgeAddress + symbol + original.length) returnAddress =
        some jump ∧
      bridge'.read symbol (original.length + relativeJumpSize) = original ++ jump) ∧
      ∀ x, x < symbol ∨ symbol + trampolineSize ≤ x → bridge' x = bridge x := by
  unfold writeEmbeddedTrampoline at h
  split at h
  · cases h
  · rename_i hsize
    obtain ⟨offset, hoffset, hrest⟩ := Option.bind_eq_some_iff.mp h
    obtain ⟨jump, hjump, hwritten⟩ := Option.bind_eq_some_iff.mp hrest
    obtain rfl := bridgeSymbolOffset_eq_some hoffset
    have hlength := length_buildRelativeJump hjump
    cases hwritten
    simp only [not_or, not_lt] at hsize
    have hle := hsize.2
    unfold trampolineSize
    constructor
    · refine ⟨jump, hjump, ?_⟩
      rw [Memory.read_add, Memory.read_write_apart (.inl le_rfl), Memory.read_write_self,
        ← hlength, Memory.read_write_self]
    · intro x hx
      rw [Memory.write_outside (by omega), Memory.write_outside (by omega),
        Memory.write_outside (by simp only [List.length_replicate]; omega)]

theorem setBridgePointer_spec {blobSize value : Nat}
    (h : setBridgePointer bridge blobSize symbol value = some bridge') {x : Nat}
    (hx : x < symbol ∨ symbol + 8 ≤ x) : bridge' x = bridge x := by
  unfold setBridgePointer at h
  obtain ⟨offset, hoffset, hwritten⟩ := Option.bind_eq_some_iff.mp h
  obtain rfl := bridgeSymbolOffset_eq_some hoffset
  cases hwritten
  exact Memory.write_outside (by simpa using hx)

theorem resolveImports_spec (pid size : Nat) (slots : List (Nat × Nat)) :
    ∀ (m : HookMachine) (bridge : Memory UInt8),
      Satisfies (resolveImports pid size slots bridge) m fun result m' =>
        Silent m m' ∧ ∀ bridge', result = some bridge' →
          ∀ x, (∀ slot ∈ slots, x < slot.1 ∨ slot.1 + 8 ≤ x) → bridge' x = bridge x := by
  induction slots with
  | nil =>
    intro m bridge
    refine .pure ⟨.refl m, fun bridge' h x _ => ?_⟩
    cases h
    rfl
  | cons slot rest ih =>
    intro m bridge
    have hgone : ∀ m₁ : HookMachine, Silent m m₁ → Satisfies (pure none) m₁
        fun (result : Option (Memory UInt8)) m' =>
          Silent m m' ∧ ∀ bridge', result = some bridge' →
            ∀ x, (∀ s ∈ slot :: rest, x < s.1 ∨ s.1 + 8 ≤ x) → bridge' x = bridge x :=
      fun _ hsilent => .pure ⟨hsilent, nofun⟩
    refine .bind (satisfies_query ?_ ?_)
    · intro e _
      exact hgone _ (.record rfl)
    · have hsilent : Silent m (m.record (.dlsym slot.2) none m.world) := .record rfl
      split
      · exact hgone _ hsilent
      · exact hgone _ hsilent
      · split
        · exact hgone _ hsilent
        · rename_i bridge₁ hpointer
          refine (ih _ bridge₁).mono ?_
          rintro result m₂ ⟨hsilent', hspec⟩
          refine ⟨hsilent.trans hsilent', fun bridge' h x hx => ?_⟩
          rw [hspec bridge' h x fun s hs => hx s (List.mem_cons_of_mem slot hs)]
          exact setBridgePointer_spec hpointer (hx slot List.mem_cons_self)

theorem read_trampoline {offset size : Nat} (hsize : size ≤ trampolineSize)
    (h : ∀ x, offset ≤ x → x < offset + trampolineSize → bridge' x = bridge x) :
    bridge'.read offset size = bridge.read offset size :=
  Memory.read_congr fun i hi => h (offset + i) (by omega) (by omega)

/-- A bridge that is ready to be written: its trampolines hold the recorded bytes and lead back
behind them, and its signature is that of the blob. -/
structure Embedded (c : Console) (g : Hooks) (bridge : Memory UInt8) : Prop where
  trampolines : ∀ k ∈ hooksOf c, ∀ offset, c.blob.trampoline k = some offset →
    ∃ jump, buildRelativeJump (g.bridgeAddress + offset + (g.original k).length)
        (g.site k + (g.original k).length) = some jump ∧
      bridge.read offset ((g.original k).length + relativeJumpSize) = g.original k ++ jump
  signature : c.blob.Signed → ∀ x < bridgeSignatureSize, bridge x = c.blob.code.getD x 0

/-- The bridge holds the trampolines of the hooks. -/
theorem embedBridge_spec (hcount : g.hookCount = hookCount c)
    (hsizes : ∀ k, (g.original k).length ≤ maxHookPrologueSize)
    (h : embedBridge c g = some bridge) : Embedded c g bridge := by
  have hsize : ∀ k, (g.original k).length + relativeJumpSize ≤ trampolineSize := fun k =>
    Nat.add_le_add_right (hsizes k) _
  have hslot : ∀ t ∈ [c.blob.launchTrampoline, c.blob.installTrampoline], ∀ a ∈
      [c.blob.sandboxOriginal, c.blob.installTitleDir], ∀ x, t ≤ x → x < t + trampolineSize →
        x < a ∨ a + 8 ≤ x := by
    intro t ht a ha x hlow hhigh
    have happart := c.blob.slotsApart t ht a (by simp only [List.mem_append]; tauto)
    unfold Apart at happart
    omega
  have hapart := c.blob.trampolinesApart
  unfold Apart at hapart
  unfold embedBridge at h
  obtain ⟨bridge₁, hlaunch, hrest⟩ := Option.bind_eq_some_iff.mp h
  obtain ⟨bridge₂, hsandbox, hlast⟩ := Option.bind_eq_some_iff.mp hrest
  obtain ⟨⟨jump₁, hjump₁, hread₁⟩, houtside₁⟩ := writeEmbeddedTrampoline_spec hlaunch
  -- The pointer for the sandbox hook is outside the launch trampoline.
  have hread₂ : bridge₂.read c.blob.launchTrampoline
      ((g.original .launch).length + relativeJumpSize) = g.original .launch ++ jump₁ := by
    rw [read_trampoline (hsize _) fun x hlow hhigh => setBridgePointer_spec hsandbox
      (hslot _ (by simp) _ (by simp) x hlow hhigh)]
    exact hread₁
  have hsigned₂ : c.blob.Signed → ∀ x < bridgeSignatureSize,
      bridge₂ x = c.blob.code.getD x 0 := by
    intro hsigned x hx
    have hlow := hsigned.apart c.blob.sandboxOriginal (by simp)
    have hlow' := hsigned.apart c.blob.launchTrampoline (by simp)
    exact (setBridgePointer_spec hsandbox (.inl (by omega))).trans (houtside₁ x (.inl (by omega)))
  split at hlast
  · obtain ⟨bridge₃, hinstall, hdir⟩ := Option.bind_eq_some_iff.mp hlast
    obtain ⟨⟨jump₃, hjump₃, hread₃⟩, houtside₃⟩ := writeEmbeddedTrampoline_spec hinstall
    refine ⟨?_, ?_⟩
    · intro k hk offset hoffset
      cases k with
      | launch =>
        cases hoffset
        refine ⟨jump₁, hjump₁, ?_⟩
        rw [read_trampoline (hsize _) fun x hlow hhigh => (setBridgePointer_spec hdir
          (hslot _ (by simp) _ (by simp) x hlow hhigh)).trans (houtside₃ x (by omega))]
        exact hread₂
      | sandbox => cases hoffset
      | install =>
        cases hoffset
        refine ⟨jump₃, hjump₃, ?_⟩
        rw [read_trampoline (hsize _) fun x hlow hhigh => setBridgePointer_spec hdir
          (hslot _ (by simp) _ (by simp) x hlow hhigh)]
        exact hread₃
    · intro hsigned x hx
      have hlow := hsigned.apart c.blob.installTitleDir (by simp)
      have hlow' := hsigned.apart c.blob.installTrampoline (by simp)
      rw [setBridgePointer_spec hdir (.inl (by omega)), houtside₃ x (.inl (by omega))]
      exact hsigned₂ hsigned x hx
  · rename_i hbase
    cases hlast
    refine ⟨?_, hsigned₂⟩
    intro k hk offset hoffset
    cases k with
    | launch =>
      cases hoffset
      exact ⟨jump₁, hjump₁, hread₂⟩
    | sandbox => cases hoffset
    | install =>
      rw [hookCount, if_pos (enabled_of_install hk)] at hcount
      exact absurd hcount hbase

theorem Embedded.outside (h : Embedded c g bridge)
    (hsizes : ∀ k, (g.original k).length ≤ maxHookPrologueSize)
    (houtside : ∀ x, (∀ slot ∈ c.blob.imports.zipIdx, x < slot.1 ∨ slot.1 + 8 ≤ x) →
      bridge' x = bridge x) : Embedded c g bridge' := by
  refine ⟨?_, ?_⟩
  · intro k hk offset hoffset
    obtain ⟨jump, hjump, hread⟩ := h.trampolines k hk offset hoffset
    refine ⟨jump, hjump, Eq.trans ?_ hread⟩
    refine read_trampoline (Nat.add_le_add_right (hsizes k) _) ?_
    intro x hlow hhigh
    refine houtside x fun slot hslot => ?_
    have htrampoline : offset ∈ [c.blob.launchTrampoline, c.blob.installTrampoline] := by
      cases k <;> cases hoffset <;> simp
    have happart := c.blob.slotsApart offset htrampoline slot.1 (by
      simp [List.fst_mem_of_mem_zipIdx hslot])
    unfold Apart at happart
    omega
  · intro hsigned x hx
    rw [houtside x fun slot hslot => .inl ?_]
    · exact h.signature hsigned x hx
    · have hlow := hsigned.apart slot.1 (by simp [List.fst_mem_of_mem_zipIdx hslot])
      omega

/-- What is written into the cave. -/
theorem populateBridge_spec (m : HookMachine) (g : Hooks) :
    Satisfies (populateBridge c g) m fun result m' =>
      Silent m m' ∧
        (g.hookCount = hookCount c → (∀ k, (g.original k).length ≤ maxHookPrologueSize) →
          ∀ bridge, result = some bridge → Embedded c g bridge) := by
  unfold populateBridge
  split
  · exact .pure ⟨.refl m, fun _ _ => nofun⟩
  · rename_i bridge₁ hembed
    refine .bind (satisfies_query ?_ ?_)
    · intro e _
      exact .pure ⟨.record rfl, fun _ _ => nofun⟩
    · have hsilent : Silent m (m.record .dynlibHandle none m.world) := .record rfl
      split
      · exact .pure ⟨hsilent, fun _ _ => nofun⟩
      · refine (resolveImports_spec _ _ _ _ bridge₁).mono ?_
        rintro result m₂ ⟨hsilent', hspec⟩
        refine ⟨hsilent.trans hsilent', ?_⟩
        intro hcount hsizes bridge hbridge
        exact (embedBridge_spec hcount hsizes hembed).outside hsizes (hspec bridge hbridge)

theorem bridgeCaveIsAvailable_silent (m : HookMachine) (pid address size : Nat) :
    Satisfies (bridgeCaveIsAvailable c pid address size) m fun _ m' => Silent m m' := by
  unfold bridgeCaveIsAvailable
  split
  · exact .pure (.refl m)
  · refine (verifyRemoteBytes_silent m _ _ _).seq ?_
    intro zero m₁ hsilent
    cases zero with
    | true => exact .pure hsilent
    | false =>
      refine (verifyRemoteBytes_silent m₁ _ _ _).mono ?_
      exact fun _ _ hsilent' => hsilent.trans hsilent'

theorem checkTitleDir_silent (m : HookMachine) (pid : Nat) (r : Remote) :
    Satisfies (checkTitleDir c pid r) m fun _ m' => Silent m m' := by
  unfold checkTitleDir
  split
  · exact verifyRemoteBytes_silent m _ _ _
  · exact .pure (.refl m)

theorem retainPages_silent (pid n : Nat) :
    ∀ m : HookMachine, Satisfies (retainPages pid n) m fun _ m' => Silent m m' := by
  induction n with
  | zero => exact fun m => .pure (.refl m)
  | succ n ih =>
    intro m
    have hrest : ∀ (answer : Option Unit) (m₁ : HookMachine), Silent m m₁ →
        Satisfies (if answer.isSome then retainPages pid n else pure false) m₁
          fun _ m' => Silent m m' := by
      intro answer m₁ hsilent
      split
      · exact (ih m₁).mono fun _ _ hsilent' => hsilent.trans hsilent'
      · exact .pure hsilent
    exact .bind (.bind (satisfies_query
      (fun e _ => hrest none _ (.record rfl)) (hrest _ _ (.record rfl))))

theorem retainHookPages_silent (m : HookMachine) (pid : Nat) :
    Satisfies (retainHookPages c pid) m fun _ m' => Silent m m' := by
  unfold retainHookPages
  split
  · exact retainPages_silent pid _ m
  · exact .pure (.refl m)

/-- A bridge that was written is planted. -/
theorem Embedded.planted (h : Embedded c g bridge) (hg : Records c p g)
    (hfits : blobSize c ≤ c.offsets.bridgeCaveSize)
    (horiginal : ∀ k ∈ hooksOf c, g.original k = p.original c k)
    (hexpected : ∀ k ∈ hooksOf c, isOriginal (p.remote c) k (p.original c k) = true)
    (hread : p.memory.read (p.bridge c) (blobSize c) = bridge.read 0 (blobSize c)) :
    Planted c p := by
  have hpart : ∀ a n, a + n ≤ blobSize c → p.memory.read (p.bridge c + a) n = bridge.read a n := by
    intro a n hwithin
    have hbridge := Memory.read_part (m := bridge) (a := 0) hwithin
    rw [Nat.zero_add] at hbridge
    rw [Memory.read_part hwithin, hread, ← hbridge]
  have htrampoline : ∀ k ∈ hooksOf c, ∀ offset, c.blob.trampoline k = some offset →
      ∃ jump, buildRelativeJump (p.bridge c + offset + siteSize c k)
          (p.siteAddress c k + siteSize c k) = some jump ∧
        p.memory.read (p.bridge c + offset) (siteSize c k + relativeJumpSize) =
          p.original c k ++ jump := by
    intro k hk offset hoffset
    have hinside := trampoline_inside hk hoffset
    have hsize := siteSize_le c k
    have hlength : (g.original k).length = siteSize c k := by
      rw [horiginal k hk, length_original]
    obtain ⟨jump, hjump, hbytes⟩ := h.trampolines k hk offset hoffset
    rw [hlength, hg.bridge, hg.site] at hjump
    rw [hlength, horiginal k hk] at hbytes
    refine ⟨jump, hjump, ?_⟩
    rw [hpart offset _ (by unfold trampolineSize at hinside; omega), hbytes]
  refine ⟨⟨hfits, hexpected, ?_⟩, ?_, ?_⟩
  · intro k hk offset hoffset
    obtain ⟨jump, -, hbytes⟩ := htrampoline k hk offset hoffset
    rw [Memory.read_add] at hbytes
    exact (List.append_inj hbytes (by simp [length_original])).1
  · intro hsigned x hx
    have hbase := c.blob.base_le
    have hsize := hsigned.size
    have hcell := hpart x 1 (by unfold blobSize; split <;> omega)
    rw [← h.signature hsigned x hx]
    simpa [Memory.read] using hcell
  · intro k hk offset hoffset
    obtain ⟨jump, hjump, hbytes⟩ := htrampoline k hk offset hoffset
    rw [Memory.read_add] at hbytes
    exact ⟨jump, hjump, (List.append_inj hbytes (by simp [length_original])).2⟩

/-- The cave is written with the bridge. -/
theorem writeCave_spec (hg : Records c m.world g) (hcount : g.hookCount = hookCount c)
    (hsizes : ∀ k, (g.original k).length ≤ maxHookPrologueSize)
    (horiginal : ∀ k ∈ hooksOf c, g.original k = m.world.original c k)
    (hexpected : ∀ k ∈ hooksOf c, isOriginal (m.world.remote c) k (m.world.original c k) = true)
    (hfits : blobSize c ≤ c.offsets.bridgeCaveSize) :
    Satisfies (writeCave c m.world.pid g) m fun result m' =>
      Evolves (CaveOnly c) m m' ∧ (result = true → Planted c m'.world) := by
  refine (populateBridge_spec m g).seq ?_
  rintro result m₁ ⟨hsilent, hpopulated⟩
  have hbridge := hpopulated hcount hsizes
  have hworld := hsilent.world
  cases result with
  | none => exact .pure ⟨hsilent.after (.refl (CaveOnly.refl c _)), nofun⟩
  | some bridge =>
    have hbytes : (bridge.read 0 (blobSize c)).length = blobSize c := Memory.length_read ..
    refine (remoteProcessWrite_spec m₁ .other _ _ _).seq ?_
    intro written m₂ hwritten
    have hcave : Evolves (CaveOnly c) m m₂ := by
      refine hsilent.andThen (hwritten.follows.mono fun _ hb => ⟨hb.alike, fun k => ?_⟩)
        (CaveOnly.refl c _)
      rw [hworld, hg.bridge, hbytes] at hb
      rw [hworld]
      exact hb.keeps_sites le_rfl (by omega) k
    cases written with
    | false => exact .pure ⟨hcave, nofun⟩
    | true =>
      refine (verifyRemoteBytes_silent m₂ _ _ _).mono ?_
      intro verified m₃ hsilent'
      refine ⟨hsilent'.after hcave, fun _ => ?_⟩
      have halike := hcave.world.process_alike
      have hread := hwritten.done rfl
      rw [hbytes, hg.bridge, ← halike.bridge] at hread
      rw [hsilent'.world]
      refine (hbridge bridge rfl).planted (hg.alike halike) hfits ?_ ?_ hread
      · intro k hk
        rw [halike.original]
        exact horiginal k hk
      · intro k hk
        rw [halike.remote, halike.original]
        exact hexpected k hk

/-- The part of an installation between the recovery and the first patch, when the sites hold
their original bytes. -/
theorem prepareCave_spec (hg : Records c m.world g) (hzero : g.original = fun _ => [])
    (hfits : blobSize c ≤ c.offsets.bridgeCaveSize)
    (hsites : ∀ k ∈ hooksOf c, m.world.site c k = m.world.original c k) :
    Satisfies (prepareCave c m.world.pid g) m fun result m' =>
      Evolves (CaveOnly c) m m' ∧ Records c m.world result.2 ∧
        result.2.status = g.status ∧ result.2.enabled = g.enabled ∧
        result.2.attached = g.attached ∧
        (m'.world = m.world ∨
          ∀ k ∈ hooksOf c, isOriginal (m.world.remote c) k (m.world.original c k) = true) ∧
        (result.1 = true → result.2.hookCount = hookCount c ∧
          (∀ k ∈ hooksOf c, result.2.original k = m.world.original c k) ∧
          Planted c m'.world) := by
  have hread := readOriginals_spec (c := c) (hookOrder.take (hookCount c)) m g.original
  rw [← hg.remote] at hread
  refine hread.seq ?_
  rintro result m₁ ⟨hsilent, hfound⟩
  have hstart := Evolves.refl (m := m) (CaveOnly.refl c m.world)
  cases result with
  | none =>
    exact Satisfies.pure ⟨hsilent.after hstart, hg, rfl, rfl, rfl, Or.inl hsilent.world, nofun⟩
  | some originals =>
    obtain ⟨hmem, hnot⟩ := hfound originals rfl
    have horiginal : ∀ k ∈ hooksOf c, originals k = m.world.original c k := fun k hk =>
      (hmem k hk).1.trans (hsites k hk)
    have hexpected : ∀ k ∈ hooksOf c,
        isOriginal (m.world.remote c) k (m.world.original c k) = true := by
      intro k hk
      rw [← hg.remote, ← hsites k hk]
      exact (hmem k hk).2
    have hsizes : ∀ k, (originals k).length ≤ maxHookPrologueSize := by
      intro k
      by_cases hk : k ∈ hooksOf c
      · rw [horiginal k hk, length_original]
        exact siteSize_le c k
      · rw [hnot k hk, hzero]
        exact Nat.zero_le _
    refine (checkTitleDir_silent m₁ _ _).seq ?_
    intro checked m₂ hsilent₂
    cases checked with
    | false =>
      exact Satisfies.pure ⟨(hsilent.trans hsilent₂).after hstart, ⟨hg.remote, hg.bridge⟩,
        rfl, rfl, rfl, Or.inr hexpected, nofun⟩
    | true =>
      refine (bridgeCaveIsAvailable_silent m₂ _ _ _).seq ?_
      intro available m₃ hsilent₃
      have hquiet := (hsilent.trans hsilent₂).trans hsilent₃
      cases available with
      | false =>
        exact Satisfies.pure ⟨hquiet.after hstart, ⟨hg.remote, hg.bridge⟩, rfl, rfl, rfl,
          Or.inr hexpected, nofun⟩
      | true =>
        have hworld := hquiet.world
        have hcave := writeCave_spec (m := m₃)
          (g := { g with
            original := originals, bridgeSize := blobSize c, hookCount := hookCount c })
          (hworld ▸ ⟨hg.remote, hg.bridge⟩) rfl hsizes (hworld ▸ horiginal)
          (hworld ▸ hexpected) hfits
        rw [hworld] at hcave
        refine hcave.seq ?_
        rintro written m₄ ⟨hfollows, hdone⟩
        have hall : Evolves (CaveOnly c) m m₄ :=
          hquiet.andThen hfollows (CaveOnly.refl c _)
        exact Satisfies.pure ⟨hall, ⟨hg.remote, hg.bridge⟩, rfl, rfl, rfl,
          Or.inr hexpected, fun hw => ⟨rfl, horiginal, hdone hw⟩⟩

theorem shellcoreRemoteResolve_spec (m : HookMachine) :
    Satisfies (shellcoreRemoteResolve c m.world.pid) m fun result m' =>
      Silent m m' ∧
        (∀ r, result = some r → r = m.world.remote c ∧ m.world.imageBase ≠ 0) ∧
        (m.Faultless → m.world.imageBase ≠ 0 → result = some (m.world.remote c)) := by
  refine satisfies_query ?_ ?_
  · intro e he
    refine ⟨.record rfl, nofun, fun hm => ?_⟩
    rw [hm] at he
    cases he
  · rw [c.supported]
    refine ⟨.record rfl, fun r hr => ?_, fun _ hbase => ?_⟩
    · split at hr
      · rename_i hcond
        exact ⟨(Option.some.inj hr).symm, hcond.2⟩
      · cases hr
    · rw [if_pos ⟨rfl, hbase⟩]
      rfl

/-- The loop patches one site after the other. -/
theorem patchHooks_spec (hooks : List Hook) :
    ∀ (m : HookMachine) (n : Nat), hooks.Nodup → Records c m.world g →
      (∀ k ∈ hooks, g.original k = m.world.original c k) →
      Satisfies (patchHooks c m.world.pid g hooks n) m fun result m' =>
        ∃ j, result.2 = n + j ∧ j ≤ hooks.length ∧ (hooks ≠ [] → j ≠ 0) ∧
          Evolves (Leaves c (· ∈ hooks.take j)) m m' ∧
          (result.1 = true → j = hooks.length ∧
            ∀ k ∈ hooks, m.world.patch c k = some (m'.world.site c k)) := by
  induction hooks with
  | nil =>
    intro m n _ _ _
    exact .pure ⟨0, rfl, le_rfl, fun h => absurd rfl h,
      .refl (Leaves.refl c _ _), fun _ => ⟨rfl, nofun⟩⟩
  | cons h rest ih =>
    intro m n hnodup hg horiginal
    obtain ⟨hnotin, hnodup⟩ := List.nodup_cons.mp hnodup
    refine (patchSite_spec hg (horiginal h List.mem_cons_self)).seq ?_
    rintro patched m₁ ⟨hfollows, hpatched⟩
    have halike := hfollows.world.process_alike
    cases patched with
    | false =>
      refine .pure ⟨1, rfl, by simp, fun _ => Nat.one_ne_zero, ?_, nofun⟩
      exact hfollows.mono fun _ hb => hb.mono fun k hk => by simp [hk]
    | true =>
      have hrest := ih m₁ (n + 1) hnodup (hg.alike halike) fun k hk => by
        rw [halike.original]
        exact horiginal k (List.mem_cons_of_mem h hk)
      rw [halike.pid] at hrest
      refine hrest.mono ?_
      rintro result m₂ ⟨j, hcount, hle, -, hlater, hdone⟩
      refine ⟨j + 1, by omega, by simpa using hle, fun _ => by omega, ?_, fun hr => ?_⟩
      · refine follows_leaves_trans
          (hfollows.mono fun _ hb => hb.mono fun k hk => by simp [hk])
          (hlater.mono fun _ hb => hb.mono fun k hk => ?_)
        rw [List.take_succ_cons]
        exact List.mem_cons_of_mem h hk
      · obtain ⟨hj, hall⟩ := hdone hr
        refine ⟨by simp [hj], fun k hk => ?_⟩
        rcases List.mem_cons.mp hk with rfl | hk
        · rw [hpatched rfl, hlater.world.sites k fun hmem => hnotin (List.mem_of_mem_take hmem)]
        · rw [← halike.patch]
          exact hall k hk

/-- What an installation knows once it has patched a site. -/
structure Engaged (c : Console) (m : HookMachine) (patched : Nat) (g : Hooks) (m' : HookMachine) :
    Prop where
  records : Records c m.world g
  base : m.world.imageBase ≠ 0
  originals : ∀ k ∈ hooksOf c, g.original k = m.world.original c k
  bridged : Bridged c m'.world
  patched_le : patched ≤ hookCount c
  untried : ∀ k ∈ hooksOf c, k ∉ hookOrder.take patched →
    m'.world.site c k = m.world.original c k
  own : ∀ k ∈ hooksOf c, m.world.foreign k = false

/-- What an installation has done when it comes to its end. -/
structure Attempted (c : Console) (m : HookMachine) (result : Bool × Nat × Hooks)
    (m' : HookMachine) : Prop where
  spares : Evolves (Spares c) m m'
  stopped : m'.world.stopped = m.world.stopped
  attached : result.2.2.attached = false
  bridged : Bridged c m'.world ∨
    ∀ k ∈ hooksOf c, some (m'.world.site c k) ≠ m.world.patch c k
  idle : result.2.1 = 0 → result.1 = false ∧
    (Untorn .recovery m ∨ (∀ k ∈ hooksOf c, some (m.world.site c k) ≠ m.world.patch c k) →
      ∀ k, m'.world.site c k = m.world.original c k ∨ m'.world.site c k = m.world.site c k)
  active : result.2.1 ≠ 0 → Engaged c m result.2.1 result.2.2 m'
  installed : result.1 = true → result.2.1 = hookCount c ∧ result.2.2.hookCount = hookCount c ∧
    result.2.2.status = .ready ∧
    ∀ k ∈ hooksOf c, m.world.patch c k = some (m'.world.site c k)

theorem hooksOf_nodup (c : Console) : (hooksOf c).Nodup :=
  (List.take_sublist _ _).nodup (by decide)

theorem hookCount_le (c : Console) : hookCount c ≤ 3 := by
  unfold hookCount
  split <;> decide

theorem hookCount_pos (c : Console) : hookCount c ≠ 0 := by
  unfold hookCount
  split <;> decide

theorem length_hooksOf (c : Console) : (hooksOf c).length = hookCount c := by
  have hle := hookCount_le c
  simp only [hooksOf, List.length_take, hookOrder, List.length_cons, List.length_nil]
  omega

/-- An installation that has only looked at the process. -/
theorem Attempted.ofSilent (hsilent : Silent m m') (hattached : g.attached = false)
    (hbridged : Bridged c m.world ∨
      ∀ k ∈ hooksOf c, some (m.world.site c k) ≠ m.world.patch c k) :
    Attempted c m (false, 0, g) m' where
  spares := hsilent.spares
  stopped := by rw [hsilent.world]
  attached := hattached
  bridged := by
    rw [hsilent.world]
    exact hbridged
  idle _ := ⟨rfl, fun _ k => .inr (by rw [hsilent.world])⟩
  active h := absurd rfl h
  installed := nofun

theorem Recovered.bridged {result : Bool} (h : Recovered c m result m')
    (hbridged : Bridged c m.world ∨
      ∀ k ∈ hooksOf c, some (m.world.site c k) ≠ m.world.patch c k) :
    Bridged c m'.world ∨ ∀ k ∈ hooksOf c, some (m'.world.site c k) ≠ m.world.patch c k := by
  refine hbridged.imp (fun hb => hb.leaves h.follows.world) fun hnone k hk => ?_
  rw [h.follows.world.sites k fun hpatch => hnone k hk hpatch.symm]
  exact hnone k hk

theorem Recovered.spares {result : Bool} (h : Recovered c m result m')
    (hforeign : ∀ k, m.world.foreign k = true →
      m.world.site c k ≠ m.world.original c k ∧ some (m.world.site c k) ≠ m.world.patch c k) :
    Evolves (Spares c) m m' := by
  refine h.follows.mono fun _ hb => hb.spares fun k hk => ?_
  by_contra hflag
  exact (hforeign k (by simpa using hflag)).2 hk.symm

theorem Recovered.sites (h : Recovered c m true m')
    (hexpected : ∀ k ∈ hooksOf c, isOriginal (m.world.remote c) k (m.world.site c k) = true →
      m.world.site c k = m.world.original c k) :
    ∀ k ∈ hooksOf c, m'.world.site c k = m'.world.original c k := by
  intro k hk
  rw [h.follows.world.process_alike.original]
  rcases h.done rfl k hk with horiginal | ⟨hsame, horiginal⟩
  · exact horiginal
  · rw [hsame]
    exact hexpected k hk horiginal

/-- What an installation has done when it comes to its end, if the sites that are taken for
original ones are. -/
theorem attemptInstall_spec
    (hbridged : Bridged c m.world ∨
      ∀ k ∈ hooksOf c, some (m.world.site c k) ≠ m.world.patch c k)
    (hforeign : ∀ k, m.world.foreign k = true →
      m.world.site c k ≠ m.world.original c k ∧ some (m.world.site c k) ≠ m.world.patch c k)
    (hexpected : ∀ k ∈ hooksOf c, isOriginal (m.world.remote c) k (m.world.site c k) = true →
      m.world.site c k = m.world.original c k) :
    Satisfies (attemptInstall c m.world.pid) m (Attempted c m) := by
  refine (shellcoreRemoteResolve_spec m).seq ?_
  rintro result m₁ ⟨hsilent₁, hresolved, -⟩
  cases result with
  | none => exact .pure (Attempted.ofSilent hsilent₁ rfl hbridged)
  | some r =>
    obtain ⟨rfl, hbase⟩ := hresolved r rfl
    dsimp only
    split
    · rename_i hfitsImage
      have hfits : blobSize c ≤ c.offsets.bridgeCaveSize := by
        simp only [imageFits, Bool.and_eq_true, decide_eq_true_eq] at hfitsImage
        exact hfitsImage.2
      refine (retainHookPages_silent m₁ _).seq ?_
      intro retained m₂ hsilent₂
      have hsilent := hsilent₁.trans hsilent₂
      have hworld := hsilent.world
      cases retained with
      | false => exact .pure (Attempted.ofSilent hsilent rfl hbridged)
      | true =>
        have hrecover := recoverStaleBridge_spec (c := c) (m := m₂)
          (by rw [hworld]; exact hbridged) (blobSize c)
        rw [hworld] at hrecover
        refine hrecover.seq ?_
        intro recovered m₃ hrec
        have hspares₃ : Evolves (Spares c) m m₃ :=
          follows_spares_trans hsilent.spares (hrec.spares (by rw [hworld]; exact hforeign))
        have hstopped₃ : m₃.world.stopped = m.world.stopped := by
          rw [hrec.follows.world.stopped, hworld]
        have hbridged₃ := hrec.bridged (by rw [hworld]; exact hbridged)
        have hkept : Untorn .recovery m ∨
            (∀ k ∈ hooksOf c, some (m.world.site c k) ≠ m.world.patch c k) →
            ∀ k, m₃.world.site c k = m.world.original c k ∨
              m₃.world.site c k = m.world.site c k := by
          intro hcase k
          have hk := hrec.kept (by
            rw [hworld]
            exact hcase.imp_left fun hm => hm.follows hsilent) k
          rwa [hworld] at hk
        have halike₃ := hspares₃.world.alike
        rw [hworld] at hbridged₃
        cases recovered with
        | false =>
          exact .pure ⟨hspares₃, hstopped₃, rfl, hbridged₃,
            fun _ => ⟨rfl, hkept⟩, fun h => absurd rfl h, nofun⟩
        | true =>
          have hsites₃ := hrec.sites (by rw [hworld]; exact hexpected)
          -- No site belongs to another payload, or the recovery would have failed.
          have hown : ∀ k ∈ hooksOf c, m.world.foreign k = false := by
            intro k hk
            by_contra hflag
            have hflag : m.world.foreign k = true := by simpa using hflag
            refine (hforeign k hflag).1 ?_
            rw [← hspares₃.world.sites k hflag, hsites₃ k hk, halike₃.original]
          have hprepare := prepareCave_spec (m := m₃)
            (g := { Hooks.zero with
              remote := m.world.remote c, bridgeAddress := m.world.bridge c })
            ⟨halike₃.remote.symm, halike₃.bridge.symm⟩ rfl hfits hsites₃
          rw [halike₃.pid] at hprepare
          refine hprepare.seq ?_
          rintro ⟨ready, g⟩ m₄ ⟨hcave, hrecords, hstatus, henabled, hattached, horiginals, hready⟩
          have hspares₄ : Evolves (Spares c) m m₄ :=
            follows_spares_trans hspares₃ (hcave.mono fun _ hb => hb.spares)
          have hstopped₄ : m₄.world.stopped = m.world.stopped := by
            rw [hcave.world.alike]
            exact hstopped₃
          have hsame₄ : ∀ k, m₄.world.site c k = m₃.world.site c k := hcave.world.sites
          have halike₄ := hspares₄.world.alike
          dsimp only at hrecords hattached hready
          have hrecords₀ : Records c m.world g := ⟨hrecords.remote.trans halike₃.remote,
            hrecords.bridge.trans halike₃.bridge⟩
          cases ready with
          | false =>
            refine .pure ⟨hspares₄, hstopped₄, hattached, ?_, fun _ => ⟨rfl, ?_⟩,
              fun h => absurd rfl h, nofun⟩
            · rcases horiginals with hsame | hexpected₃
              · rw [hsame]
                exact hbridged₃
              · refine .inr fun k hk => ?_
                have hne := isOriginal_ne_patch (hexpected₃ k hk) hfits
                rw [halike₃.patch, ← hsites₃ k hk, ← hsame₄ k] at hne
                exact hne.symm
            · intro hcase k
              rw [hsame₄ k]
              exact hkept hcase k
          | true =>
            obtain ⟨hcount, hrecorded, hplanted₄⟩ := hready rfl
            have hpatch := patchHooks_spec (hooksOf c) m₄ 0 (hooksOf_nodup c)
              (hrecords₀.alike halike₄) fun k hk => by
                rw [hrecorded k hk, halike₃.original, halike₄.original]
            rw [halike₄.pid] at hpatch
            refine hpatch.seq ?_
            rintro ⟨ok, patched⟩ m₅ ⟨j, hj, hle, hpos, hleaves, hdone⟩
            dsimp only at hj hdone
            rw [Nat.zero_add] at hj
            subst hj
            have hbridged₅ := hplanted₄.bridged.leaves hleaves.world
            have hpatchedOwn : ∀ k ∈ (hooksOf c).take patched, m₄.world.foreign k = false := by
              intro k hk
              rw [halike₄.foreign]
              exact hown k (List.mem_of_mem_take hk)
            have hne : patched ≠ 0 := hpos fun hnil => by
              have := length_hooksOf c
              rw [hnil] at this
              exact hookCount_pos c this.symm
            have hlength := length_hooksOf c
            refine .pure ⟨follows_spares_trans hspares₄
                (hleaves.mono fun _ hb => hb.spares hpatchedOwn), ?_, ?_, .inl hbridged₅,
              fun h => absurd h hne, fun _ => ⟨?_, hbase, ?_, hbridged₅, ?_, ?_, hown⟩, ?_⟩
            · rw [hleaves.world.stopped, hstopped₄]
            · dsimp only
              split <;> exact hattached
            · dsimp only
              split
              · exact ⟨hrecords₀.remote, hrecords₀.bridge⟩
              · exact hrecords₀
            · intro k hk
              dsimp only
              split <;> rw [hrecorded k hk, halike₃.original]
            · dsimp only
              omega
            · intro k hk hnot
              have htake : k ∉ (hooksOf c).take patched := by
                rw [hooksOf, List.take_take, min_eq_left (by omega)]
                exact hnot
              rw [hleaves.world.sites k htake, hsame₄ k, hsites₃ k hk, halike₃.original]
            · intro hok
              obtain ⟨hall, hpatches⟩ := hdone hok
              dsimp only at hok ⊢
              rw [if_pos hok]
              refine ⟨by omega, hcount, rfl, fun k hk => ?_⟩
              rw [← halike₄.patch]
              exact hpatches k hk
    · exact .pure (Attempted.ofSilent hsilent₁ rfl hbridged)

end ShadowMount.ShellcoreHooks
