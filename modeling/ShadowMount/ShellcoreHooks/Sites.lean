import ShadowMount.ShellcoreHooks.Calls

/-!
# Hook sites

The sites and the cave of the process, as the program reaches them.  What is written at one
site is not seen at another nor in the cave, by the offsets of the firmware.  A site whose
bytes lead into the bridge holds byte for byte the program's own patch, and bytes that are
taken for the original ones are never that patch.
-/

namespace ShadowMount.ShellcoreHooks

open Foundation

variable {c : Console} {p q r : Process}

/-- The hooks of a console. -/
def hooksOf (c : Console) : List Hook := hookOrder.take (hookCount c)

/-- The size of a site. -/
def siteSize (c : Console) (h : Hook) : Nat := (c.offsets.site h).patchSize

theorem Console.wellFormed (c : Console) : c.offsets.WellFormed :=
  offsets_wellFormed c.supported

/-- The installation hook is used only where its bridge is enabled. -/
theorem enabled_of_install (h : .install ∈ hooksOf c) : installBridgeEnabled c = true := by
  by_contra hdisabled
  have hcount : hookCount c = 2 := if_neg hdisabled
  rw [hooksOf, hcount] at h
  exact absurd h (by decide)

/-- Nothing but the memory and the stop of the process differs. -/
def Process.Alike (p q : Process) : Prop :=
  q = { p with memory := q.memory, stopped := q.stopped }

namespace Process.Alike

theorem refl (p : Process) : p.Alike p := rfl

theorem pid (h : p.Alike q) : q.pid = p.pid := by
  rw [h]

theorem imageBase (h : p.Alike q) : q.imageBase = p.imageBase := by
  rw [h]

theorem before (h : p.Alike q) : q.before = p.before := by
  rw [h]

theorem touched (h : p.Alike q) : q.touched = p.touched := by
  rw [h]

theorem foreign (h : p.Alike q) : q.foreign = p.foreign := by
  rw [h]

theorem trans (h : p.Alike q) (h' : q.Alike r) : p.Alike r := by
  unfold Process.Alike at h h' ⊢
  rw [h', h]

theorem siteAddress (h : p.Alike q) (k : Hook) : q.siteAddress c k = p.siteAddress c k := by
  simp [Process.siteAddress, h.imageBase]

theorem bridge (h : p.Alike q) : q.bridge c = p.bridge c := by
  simp [Process.bridge, h.imageBase]

theorem remote (h : p.Alike q) : q.remote c = p.remote c := by
  simp [Process.remote, h.imageBase, h.pid]

theorem original (h : p.Alike q) (k : Hook) : q.original c k = p.original c k := by
  simp [Process.original, h.before, h.siteAddress]

theorem patch (h : p.Alike q) (k : Hook) : q.patch c k = p.patch c k := by
  simp [Process.patch, h.remote, h.bridge]

end Process.Alike

theorem Within.process_alike {a n : Nat} (h : Within a n p q) : p.Alike q := by
  unfold Process.Alike
  rw [h.alike]

theorem length_site (c : Console) (p : Process) (h : Hook) :
    (p.site c h).length = siteSize c h :=
  Memory.length_read ..

theorem length_original (c : Console) (p : Process) (h : Hook) :
    (p.original c h).length = siteSize c h :=
  Memory.length_read ..

theorem siteSize_pos (c : Console) (h : Hook) : siteSize c h ≠ 0 := by
  by_cases hs : h = .sandbox
  · subst hs
    have := c.wellFormed.sandboxSize
    simp only [siteSize, FirmwareOffsets.site, Hook.target, FirmwareOffsets.targets, this]
    decide
  · have := c.wellFormed.jumpSize h (mem_hookOrder h) hs
    unfold siteSize
    omega

theorem siteSize_le (c : Console) (h : Hook) : siteSize c h ≤ maxHookPrologueSize := by
  by_cases hs : h = .sandbox
  · subst hs
    have := c.wellFormed.sandboxSize
    simp only [siteSize, FirmwareOffsets.site, Hook.target, FirmwareOffsets.targets, this]
    decide
  · exact (c.wellFormed.jumpSize h (mem_hookOrder h) hs).2

theorem siteAddress_lt (c : Console) (p : Process) (h : Hook) :
    p.siteAddress c h + siteSize c h < 2 ^ 62 := by
  have hnear := c.wellFormed.near h (mem_hookOrder h)
  have hbase := p.base_lt
  unfold Process.siteAddress siteSize
  omega

/-- The bytes of a hook's site can be accessed. -/
theorem site_accessible (c : Console) (p : Process) (h : Hook) :
    accessible p p.pid (p.siteAddress c h) (siteSize c h) = true := by
  have hlt := siteAddress_lt c p h
  have hpos := siteSize_pos c h
  simp only [accessible, Bool.and_eq_true, decide_eq_true_eq]
  exact ⟨⟨trivial, hpos⟩, by omega⟩

/-- The sites of two hooks do not overlap. -/
theorem sites_apart (c : Console) (p : Process) {h h' : Hook} (hne : h ≠ h') :
    Apart (p.siteAddress c h) (siteSize c h) (p.siteAddress c h') (siteSize c h') := by
  have happart := c.wellFormed.sitesApart h (mem_hookOrder h) h' (mem_hookOrder h') hne
  unfold Apart at happart ⊢
  unfold Process.siteAddress siteSize
  omega

/-- No site overlaps the cave of the bridge. -/
theorem cave_apart (c : Console) (p : Process) (h : Hook) :
    Apart (p.siteAddress c h) (siteSize c h) (p.bridge c) c.offsets.bridgeCaveSize := by
  have happart := c.wellFormed.caveApart h (mem_hookOrder h)
  unfold Apart at happart ⊢
  unfold Process.siteAddress Process.bridge siteSize
  omega

theorem hookAddress_lt (c : Console) (p : Process) (h : Hook) :
    p.bridge c + c.blob.hook h < 2 ^ 62 := by
  have hcave := c.wellFormed.caveNear
  have hbase := p.base_lt
  have hhook := c.blob.hook_lt h
  have hsize := c.blob.size_le
  unfold Process.bridge
  omega

/-- Every hook has a patch of the size of its site. -/
theorem exists_patch (c : Console) (p : Process) (h : Hook) :
    ∃ bytes, p.patch c h = some bytes ∧ bytes.length = siteSize c h := by
  have hjump : ∀ h' : Hook, h' ≠ .sandbox → ∃ bytes,
      buildHookPatch (p.bridge c + c.blob.hook h') (siteSize c h') = some bytes ∧
        bytes.length = siteSize c h' := by
    intro h' hs
    have hsize := c.wellFormed.jumpSize h' (mem_hookOrder h') hs
    have hfits : ¬ (siteSize c h' < absoluteJumpSize ∨ maxHookPrologueSize < siteSize c h') := by
      unfold siteSize absoluteJumpSize maxHookPrologueSize
      omega
    have hbuilt : buildHookPatch (p.bridge c + c.blob.hook h') (siteSize c h') =
        some (buildAbsoluteJump (p.bridge c + c.blob.hook h') ++
          List.replicate (siteSize c h' - absoluteJumpSize) 0x90) :=
      if_neg hfits
    exact ⟨_, hbuilt, length_buildHookPatch hbuilt⟩
  cases h with
  | launch => exact hjump .launch (by decide)
  | sandbox =>
    have hnear := c.wellFormed.near .sandbox (by decide)
    have hcave := c.wellFormed.caveNear
    have hhook := c.blob.hook_lt .sandbox
    have hsize := c.blob.size_le
    obtain ⟨call, hcall⟩ := buildRelativeCall_near (p.siteAddress c .sandbox)
      (p.bridge c + c.blob.hook .sandbox) (by
        unfold Process.siteAddress Process.bridge
        constructor <;> omega)
    refine ⟨call, hcall, (length_buildRelativeCall hcall).trans ?_⟩
    exact c.wellFormed.sandboxSize.symm
  | install => exact hjump .install (by decide)

/-- A stale site holds the program's own patch. -/
theorem isStale_patch {h : Hook} {bytes : List UInt8} (hlength : bytes.length = siteSize c h)
    (hstale : isStale c (p.remote c) (p.bridge c) h bytes = true) : p.patch c h = some bytes := by
  have hle : bytes.length ≤ maxHookPrologueSize := hlength ▸ siteSize_le c h
  have hjump : parseAbsoluteJump bytes = some (p.bridge c + c.blob.hook h) →
      buildHookPatch (p.bridge c + c.blob.hook h) (siteSize c h) = some bytes := by
    intro hparse
    rw [← hlength]
    exact buildHookPatch_of_parse hparse hle
  cases h with
  | launch => exact hjump (by simpa [isStale] using hstale)
  | sandbox =>
    simp only [isStale, Bool.and_eq_true, decide_eq_true_eq] at hstale
    exact buildRelativeCall_of_parse hstale.2 hstale.1
  | install => exact hjump (by simpa [isStale] using hstale)

/-- Bytes that are taken for the original ones are not the program's patch. -/
theorem isOriginal_ne_patch {h : Hook} {bytes : List UInt8}
    (horiginal : isOriginal (p.remote c) h bytes = true)
    (hfits : blobSize c ≤ c.offsets.bridgeCaveSize) : p.patch c h ≠ some bytes := by
  have hjump : ∀ size, bytes.take 4 = expectedFunctionPrologue →
      buildHookPatch (p.bridge c + c.blob.hook h) size ≠ some bytes := by
    intro size hprologue hbuilt
    unfold buildHookPatch at hbuilt
    split at hbuilt
    · cases hbuilt
    · cases hbuilt
      simp [buildAbsoluteJump, expectedFunctionPrologue, littleEndian] at hprologue
  cases h with
  | launch =>
    simp only [isOriginal, Bool.and_eq_true, decide_eq_true_eq] at horiginal
    exact hjump _ horiginal.2
  | sandbox =>
    simp only [isOriginal, Bool.and_eq_true, decide_eq_true_eq] at horiginal
    intro hbuilt
    have hlt := hookAddress_lt c p .sandbox
    have hparse := parseRelativeCall_build hbuilt (by omega)
    have heq := Option.some.inj (hparse.symm.trans horiginal.2)
    have happart := c.wellFormed.callApart
    have hhook := c.blob.sandboxHook_lt
    have hbase : c.blob.baseSize ≤ blobSize c := by
      unfold blobSize
      split
      · exact c.blob.base_le
      · exact le_rfl
    simp only [Process.remote, Process.bridge] at heq
    unfold Apart at happart
    omega
  | install =>
    simp only [isOriginal, Bool.and_eq_true, decide_eq_true_eq] at horiginal
    exact hjump _ horiginal.2

/-- A trampoline lies inside of the bridge. -/
theorem trampoline_inside {h : Hook} (hh : h ∈ hooksOf c) {offset : Nat}
    (hoffset : c.blob.trampoline h = some offset) : offset + trampolineSize ≤ blobSize c := by
  cases h with
  | launch =>
    cases hoffset
    have hinside := c.blob.launchInside
    have hbase := c.blob.base_le
    unfold blobSize
    split <;> omega
  | sandbox => cases hoffset
  | install =>
    cases hoffset
    rw [blobSize, if_pos (enabled_of_install hh)]
    exact c.blob.installInside

/-- All that differs is the memory, and of it only some sites and no trampoline. -/
structure Leaves (c : Console) (may : Hook → Prop) (p q : Process) : Prop where
  alike : q = { p with memory := q.memory }
  sites : ∀ h, ¬ may h → q.site c h = p.site c h
  trampolines : blobSize c ≤ c.offsets.bridgeCaveSize → ∀ h ∈ hooksOf c, ∀ offset,
    c.blob.trampoline h = some offset →
      q.memory.read (p.bridge c + offset) (siteSize c h) =
        p.memory.read (p.bridge c + offset) (siteSize c h)

/-- The bridge in the cave holds the original bytes of the functions that lead to it, and
they are what the program expects there. -/
structure Bridged (c : Console) (p : Process) : Prop where
  fits : blobSize c ≤ c.offsets.bridgeCaveSize
  originals : ∀ h ∈ hooksOf c, isOriginal (p.remote c) h (p.original c h) = true
  trampolines : ∀ h ∈ hooksOf c, ∀ offset, c.blob.trampoline h = some offset →
    p.memory.read (p.bridge c + offset) (siteSize c h) = p.original c h

/-- The signature is a part of the blob in which an installation writes nothing. -/
structure Blob.Signed (b : Blob) : Prop where
  size : bridgeSignatureSize ≤ b.baseSize
  apart : ∀ a ∈ [b.launchTrampoline, b.installTrampoline, b.sandboxOriginal, b.installTitleDir] ++
    b.imports, bridgeSignatureSize ≤ a

/-- The bridge in the cave is one that a later run can recover: its signature is there, and its
trampolines lead back behind the original bytes. -/
structure Planted (c : Console) (p : Process) : Prop where
  bridged : Bridged c p
  signature : c.blob.Signed → ∀ x < bridgeSignatureSize,
    p.memory (p.bridge c + x) = c.blob.code.getD x 0
  returns : ∀ h ∈ hooksOf c, ∀ offset, c.blob.trampoline h = some offset →
    ∃ jump, buildRelativeJump (p.bridge c + offset + siteSize c h)
        (p.siteAddress c h + siteSize c h) = some jump ∧
      p.memory.read (p.bridge c + offset + siteSize c h) relativeJumpSize = jump

variable {may may' : Hook → Prop}

theorem Leaves.process_alike (h : Leaves c may p q) : p.Alike q := by
  unfold Process.Alike
  rw [h.alike]

theorem Leaves.stopped (h : Leaves c may p q) : q.stopped = p.stopped := by
  rw [h.alike]

theorem Leaves.refl (c : Console) (may : Hook → Prop) (p : Process) : Leaves c may p p :=
  ⟨rfl, fun _ _ => rfl, fun _ _ _ _ _ => rfl⟩

theorem Leaves.trans (h : Leaves c may p q) (h' : Leaves c may q r) : Leaves c may p r where
  alike := by rw [h'.alike, h.alike]
  sites k hk := (h'.sites k hk).trans (h.sites k hk)
  trampolines hfits k hk offset hoffset := by
    have hlate := h'.trampolines hfits k hk offset hoffset
    rw [h.process_alike.bridge] at hlate
    exact hlate.trans (h.trampolines hfits k hk offset hoffset)

theorem Leaves.mono (h : Leaves c may p q) (hmay : ∀ k, may k → may' k) :
    Leaves c may' p q :=
  ⟨h.alike, fun k hk => h.sites k fun hm => hk (hmay k hm), h.trampolines⟩

/-- A process that is changed in some sites only stays bridged. -/
theorem Bridged.leaves (hp : Bridged c p) (h : Leaves c may p q) : Bridged c q where
  fits := hp.fits
  originals k hk := by
    rw [h.process_alike.remote, h.process_alike.original]
    exact hp.originals k hk
  trampolines k hk offset hoffset := by
    rw [h.process_alike.bridge, h.process_alike.original,
      h.trampolines hp.fits k hk offset hoffset]
    exact hp.trampolines k hk offset hoffset

/-- A write at a site leaves the other sites and the cave alone. -/
theorem Within.leaves_site {k : Hook} (h : Within (p.siteAddress c k) (siteSize c k) p q) :
    Leaves c (· = k) p q where
  alike := h.alike
  sites j hj := by
    unfold Process.site
    rw [h.process_alike.siteAddress]
    exact h.read_apart (sites_apart c p hj)
  trampolines hfits j hj offset hoffset := by
    have hinside := trampoline_inside hj hoffset
    have hsize := siteSize_le c j
    refine h.read_apart ((cave_apart c p k).symm.mono (by omega) ?_ le_rfl le_rfl)
    unfold trampolineSize at hinside
    omega

/-- A write in the cave leaves the sites alone. -/
theorem Within.keeps_sites {a n : Nat} (h : Within a n p q) (hlow : p.bridge c ≤ a)
    (hhigh : a + n ≤ p.bridge c + c.offsets.bridgeCaveSize) (k : Hook) :
    q.site c k = p.site c k := by
  unfold Process.site
  rw [h.process_alike.siteAddress]
  exact h.read_apart ((cave_apart c p k).mono le_rfl le_rfl hlow hhigh)

theorem Within.leaves_slot {a n : Nat} (h : Within (p.bridge c + a) n p q)
    (hfits : a + n ≤ c.offsets.bridgeCaveSize)
    (hslot : ∀ k ∈ hooksOf c, ∀ offset, c.blob.trampoline k = some offset →
      Apart offset trampolineSize a n) : Leaves c (fun _ => False) p q where
  alike := h.alike
  sites k _ := h.keeps_sites (by omega) (by omega) k
  trampolines _ k hk offset hoffset := by
    have happart := hslot k hk offset hoffset
    have hsize := siteSize_le c k
    refine h.read_apart ?_
    unfold Apart trampolineSize at *
    omega

variable {m m' : HookMachine} {purpose : Purpose} {k : Hook} {bytes : List UInt8} {result : Bool}

/-- What a part of a program that writes a site does. -/
structure SiteWritten (c : Console) (purpose : Purpose) (k : Hook) (bytes : List UInt8)
    (m : HookMachine) (result : Bool) (m' : HookMachine) : Prop where
  follows : Evolves (Leaves c (· = k)) m m'
  done : result = true → m'.world.site c k = bytes
  untorn : Untorn purpose m → m'.world.site c k = bytes ∨ m'.world.site c k = m.world.site c k
  success : m.Faultless → result = true

/-- A write over a site. -/
theorem Written.site
    (h : Written purpose m.world.pid (m.world.siteAddress c k) bytes m result m')
    (hlength : bytes.length = siteSize c k) : SiteWritten c purpose k bytes m result m' := by
  have hwithin := h.follows
  rw [hlength] at hwithin
  have hsite : m'.world.site c k =
      m'.world.memory.read (m.world.siteAddress c k) bytes.length := by
    unfold Process.site
    rw [hwithin.world.process_alike.siteAddress, hlength]
    rfl
  have hold : m.world.site c k = m.world.memory.read (m.world.siteAddress c k) bytes.length := by
    unfold Process.site
    rw [hlength]
    rfl
  refine ⟨hwithin.mono fun _ hb => hb.leaves_site, fun hr => hsite.trans (h.done hr),
    fun hm => ?_, fun hm => h.success hm ?_⟩
  · rw [hsite, hold]
    exact h.untorn hm
  · rw [hlength]
    exact site_accessible c m.world k

end ShadowMount.ShellcoreHooks
