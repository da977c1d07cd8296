import ShadowMount.ShellcoreHooks.Release

/-!
# Removing the hooks

What {lit}`stop_bridge_locked` and the two halves of {lit}`sm_shellcore_install_title_dir` do
to the process.  A record that is about another process reaches nothing: every call that it
leads to is refused.
-/

namespace ShadowMount.ShellcoreHooks

open Foundation

variable {c : Console} {m m' : HookMachine} {g : Hooks} {p q r : Process}
variable {may may' : Hook → Prop}

/-- The record is about the process. -/
def Here (p : Process) (g : Hooks) : Prop := g.status ≠ .empty ∧ g.remote.pid = p.pid

theorem not_here_zero (p : Process) : ¬ Here p Hooks.zero := fun h => h.1 rfl

theorem Here.alike (h : Here p g) (hpq : p.Alike q) : Here q g := ⟨h.1, h.2.trans hpq.pid.symm⟩

theorem Silent.sameBut (h : Silent m m') : Evolves SameBut m m' :=
  h.after (.refl rfl)

section Elsewhere

variable {pid : Nat}

theorem remoteProcessDetach_elsewhere (hpid : m.world.pid ≠ pid) :
    Satisfies (remoteProcessDetach pid) m fun result m' => result = false ∧ Silent m m' := by
  refine satisfies_lossyCall (fun e _ => ⟨rfl, .record rfl⟩)
    (fun _ => ⟨rfl, .record rfl⟩) fun world hact => ?_
  rw [if_neg fun h => hpid h.1] at hact
  cases hact

theorem remoteProcessAttach_elsewhere (hpid : m.world.pid ≠ pid) :
    Satisfies (remoteProcessAttach pid) m fun result m' => result = false ∧ Silent m m' := by
  refine satisfies_lossyCall (fun e _ => ?_) (fun _ => ⟨rfl, .record rfl⟩)
    fun world hact => ?_
  · rw [if_neg fun h => hpid h.1]
    exact ⟨rfl, .record rfl⟩
  · rw [if_neg fun h => hpid h.1] at hact
    cases hact

theorem remoteProcessWrite_elsewhere (hpid : m.world.pid ≠ pid) (purpose : Purpose)
    (address : Nat) (bytes : List UInt8) :
    Satisfies (remoteProcessWrite purpose pid address bytes) m fun result m' =>
      result = false ∧ Silent m m' := by
  have hrefused : ¬ accessible m.world pid address bytes.length = true := by
    simp [accessible, hpid]
  refine satisfies_lossyCall (fun e _ => ?_) (fun _ => ⟨rfl, .record rfl⟩)
    fun world hact => ?_
  · rw [if_neg hrefused]
    exact ⟨rfl, .record rfl⟩
  · rw [if_neg hrefused] at hact
    cases hact

theorem shellcoreRemoteResolve_elsewhere (hpid : m.world.pid ≠ pid) :
    Satisfies (shellcoreRemoteResolve c pid) m fun result m' =>
      result = none ∧ Silent m m' := by
  refine satisfies_query (fun e _ => ⟨rfl, .record rfl⟩) ⟨?_, .record rfl⟩
  exact if_neg fun h => hpid h.1

end Elsewhere

theorem findShellcorePid_spec (m : HookMachine) :
    Satisfies findShellcorePid m fun result m' =>
      Silent m m' ∧ (result = none ∨ result = some m.world.pid) ∧
        (m.Faultless → result = some m.world.pid) := by
  refine satisfies_query (fun e he => ⟨.record rfl, .inl rfl, fun hm => ?_⟩)
    ⟨.record rfl, .inr rfl, fun _ => rfl⟩
  rw [hm] at he
  cases he

/-- The sites that a removal may write: after a failed rollback every recorded one, else those
that hold the program's patch. -/
def Claimed (c : Console) (p : Process) (g : Hooks) (k : Hook) : Prop :=
  k ∈ g.recorded ∧ (g.status = .rollbackPending ∨ p.patch c k = some (p.site c k))

/-- What a removal does to the process that the record is about. -/
structure Unhooked (c : Console) (g : Hooks) (m : HookMachine) (g' : Hooks) (m' : HookMachine) :
    Prop where
  follows : Evolves (Changes c (Claimed c m.world g)) m m'
  emptied : g'.status = .empty →
    m'.world.stopped = false ∧ ∀ k ∈ g.recorded, m'.world.site c k = m.world.original c k
  record : g'.status ≠ .empty →
    g' = { g with status := g'.status, attached := g'.attached, enabled := g'.enabled }
  stopped : g'.status ≠ .empty → m'.world.stopped = g'.attached
  kept : g'.status ≠ .empty → g'.status ≠ .rollbackPending → g'.status = g.status ∧
    ∀ k ∈ g.recorded, m'.world.site c k = m.world.original c k ∨
      m'.world.site c k = m.world.site c k
  success : m.Faultless →
    (∀ k ∈ g.recorded, g.status = .rollbackPending ∨ m.world.site c k = m.world.original c k ∨
      m.world.patch c k = some (m.world.site c k)) → g'.status = .empty

theorem Unhooked.ofZero (hfollows : Evolves (Changes c (Claimed c m.world g)) m m')
    (hstopped : m'.world.stopped = false)
    (hsites : ∀ k ∈ g.recorded, m'.world.site c k = m.world.original c k) :
    Unhooked c g m Hooks.zero m' where
  follows := hfollows
  emptied _ := ⟨hstopped, hsites⟩
  record h := absurd rfl h
  stopped h := absurd rfl h
  kept h := absurd rfl h
  success _ _ := rfl

/-- Looking at the process or stopping it before a removal. -/
theorem Unhooked.after {m₁ : HookMachine} {g' : Hooks} (h : Unhooked c g m₁ g' m')
    (hsame : Evolves SameBut m m₁) : Unhooked c g m g' m' := by
  have hworld : m₁.world = { m.world with stopped := m₁.world.stopped } := hsame.world
  obtain ⟨hfollows, hemptied, hrecord, hstopped, hkept, hsuccess⟩ := h
  have hchanges : Evolves (Changes c (Claimed c m.world g)) m m₁ :=
    hsame.mono fun _ hb => hb.changes
  rw [hworld] at hfollows hemptied hkept hsuccess
  exact ⟨follows_changes_trans hchanges hfollows, hemptied, hrecord, hstopped, hkept,
    fun hm => hsuccess (hsame.faultless hm)⟩

theorem detachTwice_spec {pid : Nat} (may : Hook → Prop) (hstopped : m.world.stopped = true) :
    Satisfies (detachTwice pid) m fun result m' =>
      Evolves (Changes c may) m m' ∧ m'.world.stopped = !result ∧
        (∀ k, m'.world.site c k = m.world.site c k) ∧
        (m.Faultless → m.world.pid = pid → result = true) := by
  refine (detach_spec (c := c) may hstopped).seq ?_
  rintro detached m₁ ⟨hfollows₁, hstopped₁, hsame₁, hsuccess₁⟩
  cases detached with
  | true => exact .pure ⟨hfollows₁, hstopped₁, hsame₁, fun _ _ => rfl⟩
  | false =>
    refine (detach_spec (c := c) may hstopped₁).mono ?_
    rintro detached m₂ ⟨hfollows₂, hstopped₂, hsame₂, -⟩
    refine ⟨follows_changes_trans hfollows₁ hfollows₂, hstopped₂,
      fun k => (hsame₂ k).trans (hsame₁ k), fun hm hpid => ?_⟩
    exact nomatch hsuccess₁ hm hpid

/-- The hooks are removed from the image. -/
theorem removeFromImage_spec (hhere : Here m.world g) (hstopped : m.world.stopped = true)
    (hattached : g.attached = true) (hg : Records c m.world g)
    (horiginal : ∀ k ∈ g.recorded, g.original k = m.world.original c k) :
    Satisfies (removeFromImage c g) m (Unhooked c g m) := by
  have hnodup : g.recorded.Nodup := (List.take_sublist _ _).nodup (by decide)
  unfold removeFromImage
  simp only [hhere.2]
  refine (removeHooks_spec g.recorded m hnodup hg horiginal).seq ?_
  intro removal m₁ hremoved
  have hfollows₁ : Evolves (Changes c (Claimed c m.world g)) m m₁ :=
    hremoved.follows.mono fun _ hb => hb.changes
  have hstopped₁ : m₁.world.stopped = true := by
    rw [hremoved.follows.world.stopped, hstopped]
  split
  · rename_i hfailed
    refine .pure ⟨hfollows₁, nofun, fun _ => rfl,
      fun _ => hstopped₁.trans hattached.symm, fun _ h => absurd rfl h, fun hm _ => ?_⟩
    have hclean := (hremoved.success hm).1
    simp [hfailed] at hclean
  · rename_i hfailed
    have hfailed : removal.rollbackFailed = false := by simpa using hfailed
    refine (detachTwice_spec (c := c) (Claimed c m.world g) hstopped₁).seq ?_
    rintro detached m₂ ⟨hfollows₂, hstopped₂, hsame₂, hsuccess₂⟩
    have hall := follows_changes_trans hfollows₁ hfollows₂
    cases detached with
    | false =>
      refine .pure ⟨hall, nofun, fun _ => rfl,
        fun _ => hstopped₂.trans hattached.symm, fun _ h => absurd rfl h, fun hm _ => ?_⟩
      exact nomatch hsuccess₂ (hremoved.follows.faultless hm) hfollows₁.world.alike.pid
    | true =>
      refine .pure ?_
      cases hcase : removal.restored with
      | true =>
        refine Unhooked.ofZero hall hstopped₂ fun k hk => ?_
        rw [hsame₂ k]
        exact hremoved.restored hcase k hk
      | false =>
        refine ⟨hall, fun h => absurd h hhere.1, fun _ => rfl, fun _ => hstopped₂,
          fun _ _ => ⟨rfl, fun k hk => ?_⟩, fun hm hsites => ?_⟩
        · rw [hsame₂ k]
          exact hremoved.kept hfailed k hk
        · have hdone := (hremoved.success hm).2 hsites
          simp [hcase] at hdone

/-- The bridge is cut off and the sites restored. -/
theorem removeBridge_spec (hhere : Here m.world g) (hstopped : m.world.stopped = true)
    (hattached : g.attached = true) (hidle : g.hookCount = 0 → g.status = .rollbackPending)
    (hrecords : g.hookCount ≠ 0 → Records c m.world g ∧ m.world.imageBase ≠ 0)
    (horiginal : ∀ k ∈ g.recorded, g.original k = m.world.original c k) :
    Satisfies (removeBridge c g) m (Unhooked c g m) := by
  unfold removeBridge
  simp only [hhere.2]
  split
  · rename_i hzero
    refine (detach_spec (c := c) (Claimed c m.world g) hstopped).seq ?_
    rintro detached m₁ ⟨hfollows, hstopped₁, -, hsuccess⟩
    cases detached with
    | true =>
      refine .pure (Unhooked.ofZero hfollows hstopped₁ fun k hk => ?_)
      simp [Hooks.recorded, hzero] at hk
    | false =>
      refine .pure ⟨hfollows, fun h => absurd h hhere.1, fun _ => rfl, fun _ => ?_,
        fun _ h => absurd (hidle hzero) h, fun hm _ => nomatch hsuccess hm rfl⟩
      exact hstopped₁.trans hattached.symm
  · rename_i hcount
    obtain ⟨hg, hbase⟩ := hrecords hcount
    refine (shellcoreRemoteResolve_spec m).seq ?_
    rintro result m₁ ⟨hsilent, hresolved, hsuccess⟩
    have hworld := hsilent.world
    have hstopped₁ : m₁.world.stopped = true := by rw [hworld, hstopped]
    cases result with
    | none =>
      have hnever : m.Faultless → False := fun hm => nomatch hsuccess hm hbase
      dsimp only
      split
      · refine (detach_spec (c := c) (Claimed c m.world g) hstopped₁).seq ?_
        rintro detached m₂ ⟨hfollows, hstopped₂, hsame, -⟩
        refine .pure ⟨follows_changes_trans hsilent.changes hfollows,
          fun h => absurd h hhere.1, fun _ => rfl, fun _ => hstopped₂, fun _ _ => ⟨rfl, ?_⟩,
          fun hm => (hnever hm).elim⟩
        intro k _
        exact .inr ((hsame k).trans (by rw [hworld]))
      · rename_i hstatus
        exact .pure ⟨hsilent.changes, fun h => absurd h hhere.1, fun _ => rfl,
          fun _ => hstopped₁.trans hattached.symm, fun _ h => absurd h hstatus,
          fun hm => (hnever hm).elim⟩
    | some r =>
      obtain ⟨rfl, -⟩ := hresolved r rfl
      dsimp only
      have hsameBase : ¬ (m.world.remote c).imageBase ≠ g.remote.imageBase := by
        rw [hg.remote]
        exact fun h => h rfl
      rw [if_neg hsameBase]
      have hremove := removeFromImage_spec (c := c) (m := m₁) (g := g) (hworld ▸ hhere)
        hstopped₁ hattached (hworld ▸ hg) (hworld ▸ horiginal)
      exact hremove.mono fun _ _ hdone => hdone.after hsilent.sameBut

/-- A record about another process is dropped or kept, and reaches nothing. -/
theorem removeBridge_elsewhere (hpid : m.world.pid ≠ g.remote.pid) :
    Satisfies (removeBridge c g) m fun g' m' =>
      Silent m m' ∧ (g'.status = .empty ∨ g'.remote = g.remote) := by
  unfold removeBridge
  dsimp only
  split
  · refine (remoteProcessDetach_elsewhere hpid).seq ?_
    rintro detached m₁ ⟨rfl, hsilent⟩
    exact .pure ⟨hsilent, .inr rfl⟩
  · refine (shellcoreRemoteResolve_elsewhere hpid).seq ?_
    rintro result m₁ ⟨rfl, hsilent⟩
    dsimp only
    split
    · have hpid₁ : m₁.world.pid ≠ g.remote.pid := by rwa [hsilent.world]
      refine (remoteProcessDetach_elsewhere hpid₁).seq ?_
      rintro detached m₂ ⟨-, hsilent'⟩
      exact .pure ⟨hsilent.trans hsilent', .inr rfl⟩
    · exact .pure ⟨hsilent, .inr rfl⟩

theorem alive_spec (m : HookMachine) (pid : Nat) :
    Satisfies (query .kill fun p => some (decide (p.pid = pid))) m fun result m' =>
      Silent m m' ∧ (result = some false → m.world.pid ≠ pid) := by
  refine satisfies_query (fun e _ => ⟨.record rfl, nofun⟩)
    ⟨.record rfl, fun h => ?_⟩
  simpa using h

/-- A removal of hooks in the process: the record is emptied, and then its sites hold their
original bytes, or it is kept. -/
theorem stopBridgeLocked_spec (hm : Unstuck m) (hhere : Here m.world g)
    (hattached : m.world.stopped = g.attached)
    (hidle : g.hookCount = 0 → g.status = .rollbackPending)
    (hrecords : g.hookCount ≠ 0 → Records c m.world g ∧ m.world.imageBase ≠ 0)
    (horiginal : ∀ k ∈ g.recorded, g.original k = m.world.original c k) :
    Satisfies (stopBridgeLocked c g) m (Unhooked c g m) := by
  unfold stopBridgeLocked
  dsimp only
  rw [if_neg hhere.1]
  refine (findShellcorePid_spec m).seq ?_
  rintro current m₁ ⟨hsilent, hcurrent, -⟩
  have hworld := hsilent.world
  have hsame : ¬ (current.isSome ∧ current ≠ some g.remote.pid) := by
    rintro ⟨hsome, hother⟩
    rcases hcurrent with rfl | rfl
    · cases hsome
    · exact hother (congrArg some hhere.2.symm)
  rw [if_neg hsame]
  split
  · rename_i hstopped
    have hremove := removeBridge_spec (c := c) (m := m₁) (g := { g with enabled := false })
      (hworld ▸ hhere) (by rw [hworld, hattached, hstopped]) hstopped hidle
      (fun hcount => hworld ▸ ⟨⟨(hrecords hcount).1.remote, (hrecords hcount).1.bridge⟩,
        (hrecords hcount).2⟩) (hworld ▸ horiginal)
    refine hremove.mono fun g' m₂ hdone => ?_
    have hdone := hdone.after hsilent.sameBut
    exact ⟨hdone.follows, hdone.emptied, hdone.record, hdone.stopped, hdone.kept, hdone.success⟩
  · rename_i hrunning
    have hrunning : m.world.stopped = false := by
      rw [hattached]
      simpa using hrunning
    refine (remoteProcessAttach_spec m₁ g.remote.pid (hm.follows hsilent)).seq ?_
    rintro attached m₂ ⟨hfollows, hworld₂, -, hsuccess⟩
    rw [hworld] at hworld₂
    have hsame₂ : Evolves SameBut m m₂ := hsilent.andThen hfollows rfl
    cases attached with
    | true =>
      have hremove := removeBridge_spec (c := c) (m := m₂)
        (g := { g with enabled := false, attached := true }) (by rw [hworld₂]; exact hhere)
        (by rw [hworld₂]; rfl) rfl hidle
        (fun hcount => by
          rw [hworld₂]
          exact ⟨⟨(hrecords hcount).1.remote, (hrecords hcount).1.bridge⟩,
            (hrecords hcount).2⟩)
        (by rw [hworld₂]; exact horiginal)
      refine hremove.mono fun g' m₃ hdone => ?_
      have hdone := hdone.after hsame₂
      exact ⟨hdone.follows, hdone.emptied, hdone.record, hdone.stopped, hdone.kept,
        hdone.success⟩
    | false =>
      refine (alive_spec m₂ g.remote.pid).seq ?_
      rintro alive m₃ ⟨hsilent₃, halive⟩
      have hpid₂ : m₂.world.pid = g.remote.pid := by
        rw [hworld₂]
        exact hhere.2.symm
      have hlives : alive ≠ some false := fun h => halive h hpid₂
      rw [if_neg hlives]
      have hworld₃ : m₃.world = m.world := by
        rw [hsilent₃.world, hworld₂, Bool.false_or]
      have hall : Evolves (Changes c (Claimed c m.world g)) m m₃ :=
        follows_changes_trans (hsame₂.mono fun _ hb => hb.changes) hsilent₃.changes
      refine .pure ⟨hall, fun h => absurd h hhere.1, fun _ => rfl, fun _ => ?_,
        fun _ _ => ⟨rfl, fun k _ => .inr (by rw [hworld₃])⟩, fun hfaultless _ => ?_⟩
      · rw [hworld₃]
        exact hattached
      · refine nomatch hsuccess (hsilent.faultless hfaultless) ?_ ?_
        · rw [hworld]
          exact hhere.2.symm
        · rw [hworld]
          exact hrunning

/-- A record about another process reaches nothing. -/
theorem stopBridgeLocked_elsewhere (haway : ¬ Here m.world g) :
    Satisfies (stopBridgeLocked c g) m fun g' m' => Silent m m' ∧ ¬ Here m.world g' := by
  unfold stopBridgeLocked
  dsimp only
  split
  · rename_i hempty
    exact .pure ⟨.refl m, fun h => h.1 hempty⟩
  · rename_i hstatus
    have hpid : m.world.pid ≠ g.remote.pid := fun h => haway ⟨hstatus, h.symm⟩
    refine (findShellcorePid_spec m).seq ?_
    rintro current m₁ ⟨hsilent, -, -⟩
    have hpid₁ : m₁.world.pid ≠ g.remote.pid := by rwa [hsilent.world]
    have hremote : ∀ g' : Hooks, g'.status = .empty ∨ g'.remote = g.remote →
        ¬ Here m.world g' := by
      rintro g' (hempty | hsame) hhere
      · exact hhere.1 hempty
      · exact hpid (by rw [← hhere.2, hsame])
    split
    · exact .pure ⟨hsilent, not_here_zero _⟩
    · split
      · have hremove := removeBridge_elsewhere (c := c) (g := { g with enabled := false }) hpid₁
        refine hremove.mono ?_
        rintro g' m₂ ⟨hsilent', hrecord⟩
        exact ⟨hsilent.trans hsilent', hremote g' hrecord⟩
      · refine (remoteProcessAttach_elsewhere hpid₁).seq ?_
        rintro attached m₂ ⟨rfl, hsilent₂⟩
        refine (alive_spec m₂ g.remote.pid).seq ?_
        rintro alive m₃ ⟨hsilent₃, -⟩
        refine .pure ⟨(hsilent.trans hsilent₂).trans hsilent₃, hremote _ ?_⟩
        split
        · exact .inl rfl
        · exact .inr rfl

theorem blobSize_of_three (hle : g.hookCount ≤ hookCount c) (hthree : g.hookCount = 3) :
    blobSize c = c.blob.code.length := by
  have henabled : installBridgeEnabled c = true := by
    by_contra hdisabled
    have hcount : hookCount c = 2 := if_neg hdisabled
    omega
  exact if_pos henabled

section TitleDir

variable (hg : Records c m.world g) (hbridged : Bridged c m.world)
  (hle : g.hookCount ≤ hookCount c) (hthree : g.hookCount = 3)
include hg hbridged hle hthree

/-- A write into the bridge beside its trampolines leaves everything alone that a recovery
needs. -/
theorem bridgeWrite_spec {a : Nat} (bytes : List UInt8)
    (hinside : a + bytes.length ≤ c.blob.code.length)
    (hapart : ∀ t ∈ [c.blob.launchTrampoline, c.blob.installTrampoline],
      Apart t trampolineSize a bytes.length) :
    Satisfies (remoteProcessWrite .other m.world.pid (g.bridgeAddress + a) bytes) m
      fun _ m' => Evolves (Leaves c fun _ => False) m m' := by
  have hfits := hbridged.fits
  rw [blobSize_of_three hle hthree] at hfits
  rw [hg.bridge]
  refine (remoteProcessWrite_spec m .other _ _ bytes).mono fun _ m₁ hwritten => ?_
  refine hwritten.follows.mono fun _ hb => hb.leaves_slot (by omega) ?_
  intro k _ offset hoffset
  refine hapart offset ?_
  cases k <;> cases hoffset <;> simp

theorem writeArmed_spec (armed : UInt8) :
    Satisfies (writeArmed c m.world.pid g armed) m
      fun _ m' => Evolves (Leaves c fun _ => False) m m' :=
  bridgeWrite_spec hg hbridged hle hthree [armed] c.blob.armedInside c.blob.armedApart

/-- The flag is written when the call does not fail. -/
theorem writeArmed_done (armed : UInt8) :
    Satisfies (writeArmed c m.world.pid g armed) m
      fun result _ => (m.answers m.clock).fault = none → result = true := by
  have haccessible : accessible m.world m.world.pid (g.bridgeAddress + c.blob.installArmed) 1 =
      true := by
    have hfits := hbridged.fits
    rw [blobSize_of_three hle hthree] at hfits
    have hcave := c.wellFormed.caveNear
    have hlow := m.world.base_lt
    have hinside := c.blob.armedInside
    rw [hg.bridge]
    simp only [accessible, Bool.and_eq_true, decide_eq_true_eq]
    refine ⟨⟨trivial, by decide⟩, ?_⟩
    unfold Process.bridge
    omega
  unfold writeArmed remoteProcessWrite
  refine satisfies_lossyCall ?_ ?_ ?_
  · intro e he hnone
    rw [hnone] at he
    cases he
  · intro hrefused
    rw [List.length_singleton, if_pos haccessible] at hrefused
    cases hrefused
  · exact fun _ _ _ => rfl

end TitleDir

/-- The slots of the bridge are written. -/
theorem writeRemoteBridgeChunks_spec (hle : g.hookCount ≤ hookCount c)
    (hthree : g.hookCount = 3) (slots : List Nat) :
    ∀ (m : HookMachine) (bytes : List UInt8), Records c m.world g → Bridged c m.world →
      (∀ a ∈ slots, a ∈ c.blob.titleSlots ++ c.blob.dirSlots) →
      Satisfies (writeRemoteBridgeChunks m.world.pid g slots bytes) m
        fun _ m' => Evolves (Leaves c fun _ => False) m m' := by
  induction slots with
  | nil => exact fun m _ _ _ _ => .pure (.refl (Leaves.refl c _ _))
  | cons slot rest ih =>
    intro m bytes hg hbridged hslots
    have hslot := hslots slot List.mem_cons_self
    have hshort : (bytes.take 8).length ≤ 8 := List.length_take_le 8 bytes
    have hinside := c.blob.slotsInside slot hslot
    refine (bridgeWrite_spec hg hbridged hle hthree (bytes.take 8) (by omega) fun t ht => ?_).seq ?_
    · have happart := c.blob.slotsApart t ht slot (by
        simp only [List.mem_append] at hslot ⊢
        tauto)
      exact happart.mono le_rfl le_rfl le_rfl (by omega)
    · intro written m₁ hfollows
      have halike := hfollows.world.process_alike
      cases written with
      | false => exact .pure hfollows
      | true =>
        have hrest := ih m₁ (bytes.drop 8) (hg.alike halike)
          (hbridged.leaves hfollows.world)
          fun a ha => hslots a (List.mem_cons_of_mem slot ha)
        rw [halike.pid] at hrest
        exact hrest.mono fun _ _ hlater => follows_leaves_trans hfollows hlater

theorem armTitleDir_spec (hg : Records c m.world g) (hbridged : Bridged c m.world)
    (hle : g.hookCount ≤ hookCount c) (hthree : g.hookCount = 3) (title dir : List UInt8) :
    Satisfies (armTitleDir c m.world.pid g title dir) m
      fun _ m' => Evolves (Leaves c fun _ => False) m m' := by
  refine (writeRemoteBridgeChunks_spec hle hthree c.blob.titleSlots m title hg hbridged fun a ha =>
    List.mem_append.mpr (.inl ha)).seq ?_
  intro titled m₁ hfollows₁
  have halike₁ := hfollows₁.world.process_alike
  cases titled with
  | false => exact .pure hfollows₁
  | true =>
    have hdirs := writeRemoteBridgeChunks_spec hle hthree c.blob.dirSlots m₁ dir
      (hg.alike halike₁) (hbridged.leaves hfollows₁.world)
      fun a ha => List.mem_append.mpr (.inr ha)
    rw [halike₁.pid] at hdirs
    refine hdirs.seq ?_
    intro directed m₂ hfollows₂
    have hall := follows_leaves_trans hfollows₁ hfollows₂
    have halike₂ := hall.world.process_alike
    cases directed with
    | false => exact .pure hall
    | true =>
      have harmed := writeArmed_spec (hg.alike halike₂) (hbridged.leaves hall.world)
        hle hthree 1
      rw [halike₂.pid] at harmed
      exact harmed.mono fun _ _ hlater => follows_leaves_trans hall hlater

/-- A bridge that cannot be disarmed is cut off, by the original bytes of one site. -/
theorem endInstallTitleDir_spec (hg : Records c m.world g) (hbridged : Bridged c m.world)
    (hle : g.hookCount ≤ hookCount c) (hthree : g.hookCount = 3)
    (horiginal : g.original .install = m.world.original c .install) :
    Satisfies (endInstallTitleDir c g) m fun g' m' =>
      Evolves (Leaves c fun k => k = .install ∧ (m.answers m.clock).fault ≠ none) m m' ∧
        ((g' = g ∧ ∀ k, m'.world.site c k = m.world.site c k) ∨
          (g' = { g with status := .stale } ∧
            m'.world.site c .install = m.world.original c .install) ∨
          g' = { g with status := .rollbackPending }) := by
  unfold endInstallTitleDir
  simp only [hg.pid]
  refine ((writeArmed_spec hg hbridged hle hthree 0).and
    (writeArmed_done hg hbridged hle hthree 0)).seq ?_
  rintro disarmed m₁ ⟨hfollows₁, hdone⟩
  have halike := hfollows₁.world.process_alike
  have hfirst : Evolves (Leaves c fun k => k = .install ∧ (m.answers m.clock).fault ≠ none) m m₁ :=
    hfollows₁.mono fun _ hb => hb.mono fun _ => False.elim
  cases disarmed with
  | true =>
    exact .pure ⟨hfirst, .inl ⟨rfl, fun k => hfollows₁.world.sites k id⟩⟩
  | false =>
    have hfault : (m.answers m.clock).fault ≠ none := fun hnone => nomatch hdone hnone
    have hrestore := restoreSite_spec (m := m₁) (k := .install) (hg.alike halike)
      (horiginal.trans (halike.original .install).symm)
    rw [halike.pid, halike.original] at hrestore
    refine hrestore.seq ?_
    intro restored m₂ hwritten
    have hall := follows_leaves_trans hfirst
      (hwritten.follows.mono fun _ hb => hb.mono fun _ hk => ⟨hk, hfault⟩)
    cases restored with
    | true => exact .pure ⟨hall, .inr (.inl ⟨rfl, hwritten.done rfl⟩)⟩
    | false => exact .pure ⟨hall, .inr (.inr rfl)⟩

theorem endInstallTitleDir_elsewhere (hpid : m.world.pid ≠ g.remote.pid) :
    Satisfies (endInstallTitleDir c g) m fun g' m' => Silent m m' ∧ g'.remote = g.remote := by
  refine (remoteProcessWrite_elsewhere hpid .other _ _).seq ?_
  rintro disarmed m₁ ⟨rfl, hsilent₁⟩
  have hpid₁ : m₁.world.pid ≠ g.remote.pid := by rwa [hsilent₁.world]
  refine .bind ((remoteProcessWrite_elsewhere hpid₁ .other _ _).seq ?_)
  rintro restored m₂ ⟨rfl, hsilent₂⟩
  exact .pure (.pure ⟨hsilent₁.trans hsilent₂, rfl⟩)

end ShadowMount.ShellcoreHooks
