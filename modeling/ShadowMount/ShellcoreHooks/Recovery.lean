import ShadowMount.ShellcoreHooks.Installation

/-!
# Recovering an interrupted installation

An installation that is cut short leaves the process in one of two states: either no site has
been written, or the bridge is in the cave and every site holds its original bytes or the
program's patch.  From both of them {lit}`recover_stale_bridge` gets the original bytes back:
in the first it has nothing to do, and in the second it finds them in the bridge.
-/

namespace ShadowMount.ShellcoreHooks

open Foundation

variable {c : Console} {m m' : HookMachine} {p w w' : Process} {k : Hook}

/-- The same image of the same process. -/
structure Process.SameImage (p w : Process) : Prop where
  pid : w.pid = p.pid
  imageBase : w.imageBase = p.imageBase

namespace Process.SameImage

theorem siteAddress (h : p.SameImage w) (k : Hook) : w.siteAddress c k = p.siteAddress c k := by
  simp [Process.siteAddress, h.imageBase]

theorem bridge (h : p.SameImage w) : w.bridge c = p.bridge c := by
  simp [Process.bridge, h.imageBase]

theorem remote (h : p.SameImage w) : w.remote c = p.remote c := by
  simp [Process.remote, h.imageBase, h.pid]

theorem patch (h : p.SameImage w) (k : Hook) : w.patch c k = p.patch c k := by
  simp [Process.patch, h.remote, h.bridge]

theorem alike (h : p.SameImage w) (h' : w.Alike w') : p.SameImage w' :=
  ⟨h'.pid.trans h.pid, h'.imageBase.trans h.imageBase⟩

end Process.SameImage

/-- No site has been written since the process was as it is given. -/
structure Untouched (c : Console) (p w : Process) : Prop where
  image : p.SameImage w
  noted : w.touched = true → ∀ k, w.original c k = p.site c k
  sites : ∀ k, w.site c k = p.site c k

/-- The bridge is in the cave, and some sites are patched. -/
structure Underway (c : Console) (p w : Process) : Prop where
  image : p.SameImage w
  touched : w.touched = true
  planted : Planted c w
  originals : ∀ k, w.original c k = p.site c k
  sites : ∀ k, w.site c k = p.site c k ∨ (k ∈ hooksOf c ∧ p.patch c k = some (w.site c k))

/-- What an installation that is cut short leaves of a process. -/
def Interrupted (c : Console) (p w : Process) : Prop := Untouched c p w ∨ Underway c p w

theorem Interrupted.image (h : Interrupted c p w) : p.SameImage w := by
  cases h with
  | inl hu => exact hu.image
  | inr hu => exact hu.image

theorem Untouched.changed (h : Untouched c p w) (halike : w.Alike w')
    (hsites : ∀ k, w'.site c k = w.site c k) : Untouched c p w' where
  image := h.image.alike halike
  noted htouched k := by
    rw [halike.original]
    rw [halike.touched] at htouched
    exact h.noted htouched k
  sites k := (hsites k).trans (h.sites k)

/-- A change of one site leaves the bridge planted. -/
theorem Planted.within (h : Planted c w)
    (hwithin : Within (w.siteAddress c k) (siteSize c k) w w') : Planted c w' := by
  have halike := hwithin.process_alike
  have hfits := h.bridged.fits
  have hread : ∀ a n, a + n ≤ blobSize c →
      w'.memory.read (w.bridge c + a) n = w.memory.read (w.bridge c + a) n := by
    intro a n hwhere
    have hcave := (cave_apart c w k).symm
    exact hwithin.read_apart (hcave.mono (by omega) (by omega) le_rfl le_rfl)
  refine ⟨h.bridged.leaves hwithin.leaves_site, ?_, ?_⟩
  · intro hsigned x hx
    have hbase := c.blob.base_le
    have hsize := hsigned.size
    have hcell := hread x 1 (by unfold blobSize; split <;> omega)
    rw [halike.bridge, ← h.signature hsigned x hx]
    simpa [Memory.read] using hcell
  · intro j hj offset hoffset
    have hinside := trampoline_inside hj hoffset
    have hsize := siteSize_le c j
    obtain ⟨jump, hjump, hbytes⟩ := h.returns j hj offset hoffset
    rw [halike.bridge, halike.siteAddress]
    refine ⟨jump, hjump, Eq.trans ?_ hbytes⟩
    have hlate := hread (offset + siteSize c j) relativeJumpSize (by
      unfold trampolineSize at hinside
      omega)
    simpa only [Nat.add_assoc] using hlate

theorem Underway.within (h : Underway c p w) (hk : k ∈ hooksOf c)
    (hwithin : Within (w.siteAddress c k) (siteSize c k) w w')
    (hsite : w'.site c k = p.site c k ∨ p.patch c k = some (w'.site c k) ∨
      w'.site c k = w.site c k) : Underway c p w' := by
  have halike := hwithin.process_alike
  refine ⟨h.image.alike halike, halike.touched.trans h.touched, h.planted.within hwithin, ?_, ?_⟩
  · intro j
    exact (halike.original j).trans (h.originals j)
  · intro j
    by_cases hj : j = k
    · subst hj
      rcases hsite with horiginal | hpatch | hsame
      · exact .inl horiginal
      · exact .inr ⟨hk, hpatch⟩
      · rw [hsame]
        exact h.sites j
    · rw [hwithin.leaves_site.sites j hj]
      exact h.sites j

theorem Underway.written {purpose : Purpose} {bytes : List UInt8} {result : Bool}
    (h : Underway c p m.world) (hk : k ∈ hooksOf c) (hm : Whole maxHookPrologueSize purpose m)
    (hwritten : Written purpose m.world.pid (m.world.siteAddress c k) bytes m result m')
    (hlength : bytes.length = siteSize c k)
    (hbytes : bytes = p.site c k ∨ p.patch c k = some bytes) :
    Evolves (fun _ w => Underway c p w) m m' := by
  have hfollows := hwritten.follows
  have hmoments := hwritten.moments (hm.mono (hlength ▸ siteSize_le c k))
  rw [hlength] at hfollows
  refine (hfollows.and hmoments).mono ?_
  rintro b ⟨hwithin, heither⟩
  have hsite : b.site c k = b.memory.read (m.world.siteAddress c k) bytes.length := by
    unfold Process.site
    rw [hwithin.process_alike.siteAddress, hlength]
    rfl
  refine h.within hk hwithin ?_
  unfold Written.Either at heither
  rw [← hsite] at heither
  rcases heither with hnew | hold
  · rw [hnew]
    exact hbytes.imp_right .inl
  · refine .inr (.inr (hold.trans ?_))
    unfold Process.site
    rw [hlength]
    rfl

theorem readSite_total (m : HookMachine) (k : Hook) :
    Satisfies (readSite m.world.pid (m.world.remote c) k) m fun result _ =>
      m.Faultless → result = some (m.world.site c k) := by
  have hpos := siteSize_pos c k
  have hle := siteSize_le c k
  unfold readSite
  dsimp only
  split
  next hsize =>
    exact absurd hsize (by
      rintro (hzero | hlarge)
      · exact hpos hzero
      · exact absurd hlarge (Nat.not_lt.mpr hle))
  next hsize =>
    apply Satisfies.mono (remoteProcessRead_spec m _ _ _)
    rintro result m₁ ⟨-, -, hsuccess⟩ hm
    exact hsuccess hm (site_accessible c m.world k)

theorem isStale_of_patch {bytes : List UInt8} (h : w.patch c k = some bytes) :
    isStale c (w.remote c) (w.bridge c) k bytes = true := by
  have hlt := hookAddress_lt c w k
  cases k with
  | launch =>
    have hparse := parseAbsoluteJump_build h (by omega)
    simpa [isStale] using hparse
  | sandbox =>
    have hlength := length_buildRelativeCall h
    have hparse := parseRelativeCall_build h (by omega)
    simp only [isStale, Bool.and_eq_true, decide_eq_true_eq]
    exact ⟨hlength, hparse⟩
  | install =>
    have hparse := parseAbsoluteJump_build h (by omega)
    simpa [isStale] using hparse

/-- The stale sites are found. -/
theorem findStale_total (hooks : List Hook) :
    ∀ m : HookMachine,
      (∀ k ∈ hooks, isOriginal (m.world.remote c) k (m.world.site c k) = true ∨
        m.world.patch c k = some (m.world.site c k)) →
      Satisfies (findStale c m.world.pid (m.world.remote c) (m.world.bridge c) hooks) m
        fun result _ => m.Faultless → ∃ stale, result = some stale := by
  induction hooks with
  | nil =>
    intro m _ _
    exact ⟨[], rfl⟩
  | cons h rest ih =>
    intro m hsites
    apply Satisfies.bind
    refine Satisfies.mono ((readSite_spec (c := c) m h).and (readSite_total (c := c) m h)) ?_
    rintro result m₁ ⟨⟨hsilent, -⟩, htotal⟩
    have hrest := ih m₁ (by
      rw [hsilent.world]
      exact fun k hk => hsites k (List.mem_cons_of_mem h hk))
    rw [hsilent.world] at hrest
    cases result with
    | none =>
      intro hm
      cases htotal hm
    | some bytes =>
      dsimp only
      split
      next horiginal =>
        exact hrest.mono fun _ _ hfound hm => hfound (hsilent.faultless hm)
      next horiginal =>
        split
        next hstale =>
          refine hrest.seq ?_
          intro result m₂ hfound hm
          obtain ⟨stale, rfl⟩ := hfound (hsilent.faultless hm)
          exact ⟨h :: stale, rfl⟩
        next hstale =>
          intro hm
          obtain rfl := Option.some.inj (htotal hm)
          rcases hsites h List.mem_cons_self with htaken | hpatch
          · exact absurd htaken horiginal
          · exact absurd (isStale_of_patch hpatch) hstale

/-- The original of a planted hook is found. -/
theorem staleOriginal_total (h : Planted c m.world) (hk : k ∈ hooksOf c) :
    Satisfies (staleOriginal c m.world.pid (m.world.remote c) (m.world.bridge c) (blobSize c) k) m
      fun result _ => m.Faultless → ∃ bytes, result = some bytes := by
  have horiginal := h.bridged.originals k hk
  unfold staleOriginal
  dsimp only
  split
  next hcall =>
    cases k with
    | launch => cases hcall
    | install => cases hcall
    | sandbox =>
      simp only [isOriginal, Bool.and_eq_true, decide_eq_true_eq] at horiginal
      have hsize : siteSize c .sandbox = relativeJumpSize :=
        (length_original c m.world .sandbox).symm.trans horiginal.1
      have hbuilt := buildRelativeCall_of_parse horiginal.2 horiginal.1
      split
      next hother => exact absurd hsize hother
      next => exact fun _ => ⟨_, hbuilt⟩
  next offset hoffset =>
    have hinside := trampoline_inside hk hoffset
    split
    next houtside => exact absurd hinside (by omega)
    next =>
      have hbase := c.blob.base_le
      have hblob := c.blob.size_le
      have hcave := c.wellFormed.caveNear
      have hlow := m.world.base_lt
      have hsite := siteAddress_lt c m.world k
      have hsize := siteSize_le c k
      have hbytes := h.bridged.trampolines k hk offset hoffset
      obtain ⟨jump, hjump, hback⟩ := h.returns k hk offset hoffset
      have hprologue : (m.world.original c k).take 4 = expectedFunctionPrologue := by
        cases k with
        | launch =>
          simp only [isOriginal, Bool.and_eq_true, decide_eq_true_eq] at horiginal
          exact horiginal.2
        | sandbox => cases hoffset
        | install =>
          simp only [isOriginal, Bool.and_eq_true, decide_eq_true_eq] at horiginal
          exact horiginal.2
      have haccessible : accessible m.world m.world.pid (m.world.bridge c + offset)
          trampolineSize = true := by
        have hcode : blobSize c ≤ c.blob.code.length := by
          unfold blobSize
          split
          · exact le_rfl
          · exact hbase
        simp only [accessible, Bool.and_eq_true, decide_eq_true_eq]
        refine ⟨⟨trivial, by decide⟩, ?_⟩
        unfold Process.bridge
        omega
      -- The trampoline is the original bytes, the jump back and what fills it up.
      have hread : m.world.memory.read (m.world.bridge c + offset) trampolineSize =
          m.world.original c k ++ (jump ++ m.world.memory.read
            (m.world.bridge c + offset + siteSize c k + relativeJumpSize)
            (maxHookPrologueSize - siteSize c k)) := by
        have hsplit : trampolineSize =
            siteSize c k + (relativeJumpSize + (maxHookPrologueSize - siteSize c k)) := by
          unfold trampolineSize
          omega
        rw [hsplit, Memory.read_add, Memory.read_add, hbytes, hback]
      have hlength := length_original c m.world k
      refine (remoteProcessRead_spec m _ _ _).seq ?_
      rintro result m₁ ⟨-, -, hsuccess⟩
      cases result with
      | none =>
        intro hm
        cases hsuccess hm haccessible
      | some bytes =>
        dsimp only
        split
        next => exact fun _ => ⟨_, rfl⟩
        next hshape =>
          intro hm
          obtain rfl := Option.some.inj (hsuccess hm haccessible)
          refine absurd ⟨?_, ?_⟩ hshape
          · rw [hread, List.take_append_of_le_length, hprologue]
            have hfour := congrArg List.length hprologue
            simp only [List.length_take, expectedFunctionPrologue, List.length_cons,
              List.length_nil] at hfour
            omega
          · show parseRelativeJump (List.drop (siteSize c k) _) _ = _
            rw [hread, List.drop_append_of_le_length (Nat.le_of_eq hlength.symm),
              List.drop_of_length_le (Nat.le_of_eq hlength), List.nil_append]
            exact parseRelativeJump_build hjump (by omega) _

theorem staleOriginals_total (stale : List Hook) :
    ∀ m : HookMachine, Planted c m.world → (∀ k ∈ stale, k ∈ hooksOf c) →
      Satisfies (staleOriginals c m.world.pid (m.world.remote c) (m.world.bridge c) (blobSize c)
          stale) m
        fun result _ => m.Faultless → ∃ originals, result = some originals := by
  induction stale with
  | nil =>
    intro m _ _ _
    exact ⟨[], rfl⟩
  | cons h rest ih =>
    intro m hplanted hstale
    have hhook := hstale h List.mem_cons_self
    apply Satisfies.bind
    refine Satisfies.mono ((staleOriginal_spec hplanted.bridged hhook (blobSize c)).and
      (staleOriginal_total hplanted hhook)) ?_
    rintro result m₁ ⟨⟨hsilent, -⟩, htotal⟩
    cases result with
    | none =>
      intro hm
      obtain ⟨bytes, hbytes⟩ := htotal hm
      cases hbytes
    | some bytes =>
      have hrest := ih m₁
      rw [hsilent.world] at hrest
      refine (hrest hplanted fun k hk => hstale k (List.mem_cons_of_mem h hk)).seq ?_
      intro result m₂ hothers hm
      obtain ⟨originals, rfl⟩ := hothers (hsilent.faultless hm)
      exact ⟨(h, bytes) :: originals, rfl⟩

/-- The sites are put back one after another: the bridge stays, and each site holds its original
bytes or the patch in every moment. -/
theorem restoreStale_underway (stale : List Hook) :
    ∀ m : HookMachine, Underway c p m.world → (∀ k ∈ stale, k ∈ hooksOf c) →
      Satisfies (restoreStale m.world.pid (m.world.remote c)
          (stale.map fun k => (k, m.world.original c k))) m
        fun result m' =>
          (Whole maxHookPrologueSize .recovery m → Evolves (fun _ w => Underway c p w) m m') ∧
            (m.Faultless → result = true) := by
  induction stale with
  | nil =>
    intro m hu _
    exact .pure ⟨fun _ => .refl hu, fun _ => rfl⟩
  | cons h rest ih =>
    intro m hu hstale
    have hhook := hstale h List.mem_cons_self
    have hlength := length_original c m.world h
    refine (restoreRemoteBytes_spec m .recovery _ _ (m.world.original c h)).seq ?_
    intro restored m₁ hwritten
    have hfollows := hwritten.follows
    have hmoments := fun hm => hu.written hhook hm hwritten hlength (.inl (hu.originals h))
    have hsuccess : m.Faultless → restored = true := fun hm =>
      hwritten.success hm (by rw [hlength]; exact site_accessible c m.world h)
    cases restored with
    | false => exact .pure ⟨hmoments, hsuccess⟩
    | true =>
      have halike := hfollows.world.process_alike
      have hu₁ : Underway c p m₁.world := by
        rw [hlength] at hfollows
        refine hu.within hhook hfollows.world (.inl ?_)
        exact ((hwritten.site hlength).done rfl).trans (hu.originals h)
      have hrest := ih m₁ hu₁ fun k hk => hstale k (List.mem_cons_of_mem h hk)
      simp only [halike.pid, halike.remote, halike.original] at hrest
      refine hrest.mono ?_
      rintro result m₂ ⟨hlater, hdone⟩
      constructor
      · intro hm
        exact (hmoments hm).trans (hlater (hm.follows hfollows)) (fun _ hb => hb) fun _ hd => hd
      · intro hm
        exact hdone (hfollows.faultless hm)

theorem Blob.Signed.length_signature {b : Blob} (h : b.Signed) :
    (b.code.take bridgeSignatureSize).length = bridgeSignatureSize := by
  have hsize := h.size
  have hbase := b.base_le
  rw [List.length_take]
  omega

theorem Planted.read_signature (h : Planted c w) (hsigned : c.blob.Signed) :
    w.memory.read (w.bridge c) (c.blob.code.take bridgeSignatureSize).length =
      c.blob.code.take bridgeSignatureSize := by
  have hsize := hsigned.size
  have hbase := c.blob.base_le
  rw [hsigned.length_signature]
  apply List.ext_getElem
  · rw [Memory.length_read, hsigned.length_signature]
  · intro x hx _
    rw [Memory.length_read] at hx
    simp only [Memory.read, List.getElem_map, List.getElem_range, List.getElem_take]
    rw [h.signature hsigned x hx]
    have hx' : x < c.blob.code.length := by omega
    rw [List.getD_eq_getElem?_getD, List.getElem?_eq_getElem hx']
    rfl

theorem signature_accessible (c : Console) (w : Process) :
    accessible w w.pid (w.bridge c) bridgeSignatureSize = true := by
  have hcave := c.wellFormed.caveNear
  have hlow := w.base_lt
  simp only [accessible, Bool.and_eq_true, decide_eq_true_eq]
  refine ⟨⟨trivial, by decide⟩, ?_⟩
  unfold Process.bridge bridgeSignatureSize
  omega

/-- Without a patch a recovery only looks, and is content when all sites hold what is taken for
their original bytes. -/
theorem recoverStaleBridge_unpatched
    (hnone : ∀ k ∈ hooksOf c, m.world.patch c k ≠ some (m.world.site c k)) (bridgeSize : Nat) :
    Satisfies (recoverStaleBridge c m.world.pid (m.world.remote c) (hooksOf c)
        (m.world.bridge c) bridgeSize) m fun result m' =>
      Silent m m' ∧
        (result = true → ∀ k ∈ hooksOf c,
          isOriginal (m.world.remote c) k (m.world.site c k) = true) ∧
        (m.Faultless → (∀ k ∈ hooksOf c,
          isOriginal (m.world.remote c) k (m.world.site c k) = true) → result = true) := by
  have hfind := findStale_spec (c := c) (hooksOf c) m
  have htotal : Satisfies
      (findStale c m.world.pid (m.world.remote c) (m.world.bridge c) (hooksOf c)) m
      fun result _ => m.Faultless →
        (∀ k ∈ hooksOf c, isOriginal (m.world.remote c) k (m.world.site c k) = true) →
          ∃ stale, result = some stale := by
    intro hm hall
    exact findStale_total (hooksOf c) m (fun k hk => Or.inl (hall k hk)) hm
  apply Satisfies.bind
  refine (hfind.and htotal).mono ?_
  rintro result m₁ ⟨⟨hsilent, hfound⟩, htotal⟩
  match result with
  | none =>
    refine Satisfies.pure ⟨hsilent, nofun, ?_⟩
    intro hm hall
    obtain ⟨stale, hstale⟩ := htotal hm hall
    cases hstale
  | some [] =>
    obtain ⟨-, hall⟩ := hfound [] rfl
    exact Satisfies.pure ⟨hsilent, fun _ k hk => (hall k hk).resolve_left nofun, fun _ _ => rfl⟩
  | some (h :: rest) =>
    obtain ⟨hown, -⟩ := hfound (h :: rest) rfl
    obtain ⟨hhook, hpatch⟩ := hown h List.mem_cons_self
    exact absurd hpatch (hnone h hhook)

/-- A recovery of an installation that is under way: in every moment another one can take its
place, and it succeeds when no call fails. -/
theorem recoverStaleBridge_underway (hu : Underway c p m.world) :
    Satisfies (recoverStaleBridge c m.world.pid (m.world.remote c) (hooksOf c)
        (m.world.bridge c) (blobSize c)) m fun result m' =>
      (Whole maxHookPrologueSize .recovery m → Evolves (fun _ w => Underway c p w) m m') ∧
        (c.blob.Signed → m.Faultless → result = true) := by
  have hfind := findStale_spec (c := c) (hooksOf c) m
  have htotal := findStale_total (c := c) (hooksOf c) m (by
    intro k hk
    rcases hu.sites k with hsite | ⟨-, hpatch⟩
    · rw [hsite, ← hu.originals k]
      exact Or.inl (hu.planted.bridged.originals k hk)
    · rw [hu.image.patch]
      exact Or.inr hpatch)
  apply Satisfies.bind
  refine (hfind.and htotal).mono ?_
  rintro result m₁ ⟨⟨hsilent₁, hfound⟩, htotal⟩
  have hquiet : ∀ m₂ : HookMachine, Silent m m₂ → Evolves (fun _ w => Underway c p w) m m₂ :=
    fun _ hsilent => hsilent.after (Evolves.refl hu)
  match result with
  | none =>
    refine Satisfies.pure ⟨fun _ => hquiet m₁ hsilent₁, fun _ hm => ?_⟩
    obtain ⟨stale, hstale⟩ := htotal hm
    cases hstale
  | some [] => exact Satisfies.pure ⟨fun _ => hquiet m₁ hsilent₁, fun _ _ => rfl⟩
  | some (h :: rest) =>
    obtain ⟨hown, -⟩ := hfound (h :: rest) rfl
    have hstale : ∀ k ∈ h :: rest, k ∈ hooksOf c := fun k hk => (hown k hk).1
    have hverify := verifyRemoteBytes_spec m₁ m.world.pid (m.world.bridge c)
      (c.blob.code.take bridgeSignatureSize)
    rw [hsilent₁.world] at hverify
    refine hverify.seq ?_
    rintro verified m₂ ⟨hsilent₂, -, hverified⟩
    have hsilent := hsilent₁.trans hsilent₂
    cases verified with
    | false =>
      refine Satisfies.pure ⟨fun _ => hquiet m₂ hsilent, fun hsigned hm => ?_⟩
      refine hverified (hsilent₁.faultless hm) ?_ (hu.planted.read_signature hsigned)
      intro _
      rw [hsigned.length_signature]
      exact signature_accessible c m.world
    | true =>
      have hworld : m₂.world = m.world := hsilent.world
      have horiginals := (staleOriginals_spec (c := c) (blobSize c) (h :: rest) m₂
        (hworld ▸ hu.planted.bridged) hstale).and
          (staleOriginals_total (h :: rest) m₂ (hworld ▸ hu.planted) hstale)
      rw [hworld] at horiginals
      refine horiginals.seq ?_
      rintro result m₃ ⟨⟨hsilent₃, hread⟩, hall⟩
      have hsilent' := hsilent.trans hsilent₃
      cases result with
      | none =>
        refine Satisfies.pure ⟨fun _ => hquiet m₃ hsilent', fun _ hm => ?_⟩
        obtain ⟨originals, horiginals⟩ := hall (hsilent.faultless hm)
        cases horiginals
      | some originals =>
        obtain rfl := hread originals rfl
        have hworld' : m₃.world = m.world := hsilent'.world
        have hrestore := restoreStale_underway (c := c) (p := p) (h :: rest) m₃
          (hworld' ▸ hu) hstale
        rw [hworld'] at hrestore
        refine hrestore.mono ?_
        rintro result m₄ ⟨hmoments, hdone⟩
        constructor
        · intro hm
          exact hsilent'.andThen (hmoments (hm.follows hsilent')) hu
        · intro _ hm
          exact hdone (hsilent'.faultless hm)

theorem Recovered.restored (h : Recovered c m true m') (hu : Underway c p m.world)
    (hfresh : ∀ k, some (p.site c k) ≠ p.patch c k) (k : Hook) :
    m'.world.site c k = p.site c k := by
  have hfits := hu.planted.bridged.fits
  by_cases hk : k ∈ hooksOf c
  · rcases h.done rfl k hk with horiginal | ⟨hsame, htaken⟩
    · exact horiginal.trans (hu.originals k)
    · rw [hsame]
      rcases hu.sites k with hsite | ⟨-, hpatch⟩
      · exact hsite
      · rw [← hu.image.patch] at hpatch
        exact absurd hpatch (isOriginal_ne_patch htaken hfits)
  · have hsite := (hu.sites k).resolve_right fun hown => hk hown.1
    refine (h.follows.world.sites k ?_).trans hsite
    rw [hsite, hu.image.patch]
    exact fun hpatch => hfresh k hpatch.symm

/-- A recovery gets the bytes of the sites back, when it says so and when no call fails. -/
theorem recoverStaleBridge_restores (hfresh : ∀ k, some (p.site c k) ≠ p.patch c k)
    (h : Interrupted c p m.world) :
    Satisfies (recoverStaleBridge c p.pid (p.remote c) (hooksOf c) (p.bridge c) (blobSize c)) m
      fun result m' =>
        (result = true → ∀ k, m'.world.site c k = p.site c k) ∧
        (c.blob.Signed → m.Faultless → (∀ k, m'.world.site c k = p.site c k) ∧
          (result = true ↔ ∀ k ∈ hooksOf c, isOriginal (p.remote c) k (p.site c k) = true)) := by
  rw [← h.image.pid, ← h.image.remote, ← h.image.bridge]
  rcases h with hu | hu
  · refine (recoverStaleBridge_unpatched ?_ _).mono ?_
    · intro k _
      rw [hu.sites k, hu.image.patch]
      exact (hfresh k).symm
    · rintro result m₁ ⟨hsilent, htrue, hdone⟩
      have hsites : ∀ k, m₁.world.site c k = p.site c k := by
        rw [hsilent.world]
        exact hu.sites
      simp only [hu.sites] at htrue hdone
      exact ⟨fun _ => hsites, fun _ hm => ⟨hsites, htrue, hdone hm⟩⟩
  · refine .mono ((recoverStaleBridge_spec (.inl hu.planted.bridged) _).and
      (recoverStaleBridge_underway hu)) ?_
    rintro result m₁ ⟨hrecovered, -, hsuccess⟩
    constructor
    · rintro rfl
      exact hrecovered.restored hu hfresh
    · intro hsigned hm
      obtain rfl := hsuccess hsigned hm
      refine ⟨hrecovered.restored hu hfresh, fun _ k hk => ?_, fun _ => rfl⟩
      rw [← hu.originals k]
      exact hu.planted.bridged.originals k hk

end ShadowMount.ShellcoreHooks
