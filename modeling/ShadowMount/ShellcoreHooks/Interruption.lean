import ShadowMount.ShellcoreHooks.Recovery
import ShadowMount.ShellcoreHooks.Rollback

/-!
# Installations that are cut short

The program may be killed at any moment of {lit}`install_hooks_for_pid`, and started anew any
number of times.  In every such moment the process is one of which a recovery gets the original
bytes back.  What is needed for it is that the encoder of the jumps and the parser agree, and
that the bridge is complete before the first site is patched.

Main results:

- Theorem {lit}`interrupted_install_recovered`: what is built is parsed, and a recovery after any
  number of installations that were cut short restores the bytes before the first of them.
-/

namespace ShadowMount.ShellcoreHooks

open Foundation

variable {c : Console} {m m' : HookMachine} {g : Hooks} {p w w' : Process} {k : Hook}
variable {I : Process → Prop} {source destination : Nat}

/-- A failing write reaches all bytes of a site or none.  The bytes of a site lie in one page,
and within a page a write is a single copy. -/
def Sitewise (answers : Nat → Answer Fault) : Prop :=
  ∀ purpose n e, (answers n).fault = some e → ∃ b, ∀ i < maxHookPrologueSize, e.torn purpose i = b

theorem Sitewise.whole (h : Sitewise m.answers) (purpose : Purpose) :
    Whole maxHookPrologueSize purpose m :=
  h purpose

theorem Keeps.ofSilent {α : Type} {A : (Nat → Answer Fault) → Prop} {program : Prog α}
    (h : ∀ m, Satisfies program m fun _ m' => Silent m m') : Keeps A I program :=
  fun m _ hI => (h m).mono fun _ _ hsilent => hsilent.after (.refl hI)

theorem keeps_remoteProcessWrite {purpose : Purpose} {bytes : List UInt8} (hk : k ∈ hooksOf c)
    (hlength : bytes.length = siteSize c k)
    (hbytes : bytes = p.site c k ∨ p.patch c k = some bytes) :
    Keeps Sitewise (Underway c p)
      (remoteProcessWrite purpose p.pid (p.siteAddress c k) bytes) := by
  intro m hm hu
  rw [← hu.image.pid, ← hu.image.siteAddress]
  refine (remoteProcessWrite_spec m purpose _ _ bytes).mono fun _ _ hwritten => ?_
  exact hu.written hk (hm.whole purpose) hwritten hlength hbytes

theorem keeps_remoteProcessRead (pid address size : Nat) :
    Keeps Sitewise I (remoteProcessRead pid address size) :=
  Keeps.ofSilent fun m => (remoteProcessRead_spec m pid address size).mono fun _ _ h => h.1

theorem keeps_verifyRemoteBytes (pid address : Nat) (expected : List UInt8) :
    Keeps Sitewise I (verifyRemoteBytes pid address expected) :=
  Keeps.ofSilent fun m => verifyRemoteBytes_silent m pid address expected

theorem keeps_patchSite (hg : Records c p g) (hk : k ∈ hooksOf c)
    (horiginal : (g.original k).length = siteSize c k) :
    Keeps Sitewise (Underway c p) (patchSite c p.pid g k) := by
  obtain ⟨patch, hpatch, hlength⟩ := exists_patch c p k
  have hbuilt : patchBytes c g.remote g.bridgeAddress k (g.original k).length = some patch := by
    rw [horiginal, hg.remote, hg.bridge]
    exact hpatch
  unfold patchSite
  rw [hbuilt, hg.site]
  apply Keeps.bind (keeps_remoteProcessWrite hk hlength (Or.inr hpatch))
  intro written
  apply Keeps.ite
  · intro _
    exact Keeps.bind (keeps_remoteProcessRead _ _ _) fun _ => Keeps.pure _
  · intro _
    exact Keeps.pure _

theorem keeps_patchHooks (hg : Records c p g) (hooks : List Hook)
    (hhooks : ∀ k ∈ hooks, k ∈ hooksOf c ∧ (g.original k).length = siteSize c k) (n : Nat) :
    Keeps Sitewise (Underway c p) (patchHooks c p.pid g hooks n) := by
  induction hooks generalizing n with
  | nil => exact Keeps.pure _
  | cons h rest ih =>
    obtain ⟨hhook, hlength⟩ := hhooks h List.mem_cons_self
    apply Keeps.bind (keeps_patchSite hg hhook hlength)
    intro patched
    apply Keeps.ite
    · intro _
      exact ih (fun k hk => hhooks k (List.mem_cons_of_mem h hk)) (n + 1)
    · intro _
      exact Keeps.pure _

theorem keeps_cleanupRemoteBridge (hg : Records c p g) (hooks : List Hook)
    (hhooks : ∀ k ∈ hooks, k ∈ hooksOf c ∧ g.original k = p.site c k) :
    Keeps Sitewise (Underway c p) (cleanupRemoteBridge p.pid g hooks) := by
  induction hooks with
  | nil => exact Keeps.pure _
  | cons h rest ih =>
    obtain ⟨hhook, horiginal⟩ := hhooks h List.mem_cons_self
    have hrestore : Keeps Sitewise (Underway c p)
        (restoreRemoteBytes .other p.pid (g.site h) (g.original h)) := by
      rw [hg.site, horiginal]
      apply Keeps.bind (keeps_remoteProcessWrite hhook (length_site c p h) (Or.inl rfl))
      intro written
      apply Keeps.ite
      · intro _
        exact keeps_verifyRemoteBytes _ _ _
      · intro _
        exact Keeps.pure _
    apply Keeps.bind hrestore
    intro restored
    apply Keeps.bind (ih fun k hk => hhooks k (List.mem_cons_of_mem h hk))
    exact fun _ => Keeps.pure _

/-- Nothing changes when the process is stopped or let go. -/
theorem Underway.sameBut (h : Underway c p w) (hsame : SameBut w w') : Underway c p w' := by
  unfold SameBut at hsame
  generalize w'.stopped = stopped at hsame
  subst hsame
  exact ⟨⟨h.image.pid, h.image.imageBase⟩, h.touched,
    ⟨⟨h.planted.bridged.fits, h.planted.bridged.originals, h.planted.bridged.trampolines⟩,
      h.planted.signature, h.planted.returns⟩, h.originals, h.sites⟩

theorem Untouched.sameBut (h : Untouched c p w) (hsame : SameBut w w') : Untouched c p w' := by
  unfold SameBut at hsame
  generalize w'.stopped = stopped at hsame
  subst hsame
  exact ⟨⟨h.image.pid, h.image.imageBase⟩, h.noted, h.sites⟩

theorem Interrupted.sameBut (h : Interrupted c p w) (hsame : SameBut w w') : Interrupted c p w' :=
  h.imp (fun hu => hu.sameBut hsame) fun hu => hu.sameBut hsame

theorem keeps_remoteProcessAttach (pid : Nat) :
    Keeps Sitewise (Interrupted c p) (remoteProcessAttach pid) := by
  intro m _ hI
  have hsame : ∀ stopped, SameBut m.world { m.world with stopped := stopped } := fun _ => rfl
  refine satisfies_lossyCall ?_ ?_ ?_
  · intro e _
    split
    · exact .record (hI.sameBut (hsame true))
    · exact .record hI
  · exact fun _ => .record hI
  · intro world hact
    split at hact
    · cases hact
      exact .record (hI.sameBut (hsame true))
    · cases hact

theorem keeps_remoteProcessDetach (hI : ∀ w w', I w → SameBut w w' → I w') (pid : Nat) :
    Keeps Sitewise I (remoteProcessDetach pid) := by
  intro m _ hworld
  refine (remoteProcessDetach_spec m pid).mono ?_
  rintro result m₁ ⟨hfollows, -⟩
  exact hfollows.mono fun b hb => hI m.world b hworld hb

/-- The release keeps what an interruption finds. -/
theorem keeps_releaseInstall_underway (hg : Records c p g)
    (horiginal : ∀ k ∈ hooksOf c, g.original k = p.site c k) {patched : Nat}
    (hle : patched ≤ hookCount c) (ok : Bool) :
    Keeps Sitewise (Underway c p) (releaseInstall c p.pid ok patched g) := by
  have hclean : ∀ needed n, n ≤ hookCount c →
      Keeps Sitewise (Underway c p) (cleanupWhen needed p.pid g (hookOrder.take n)) := by
    intro needed n hn
    apply Keeps.ite
    · intro _
      apply keeps_cleanupRemoteBridge hg
      intro k hk
      have hhook := mem_hooksOf hn hk
      exact ⟨hhook, horiginal k hhook⟩
    · intro _
      exact Keeps.pure _
  have hdetach : Keeps Sitewise (Underway c p) (remoteProcessDetach p.pid) :=
    keeps_remoteProcessDetach (fun _ _ hu hsame => hu.sameBut hsame) p.pid
  apply Keeps.bind (hclean _ patched hle)
  intro cleaned
  apply Keeps.ite
  · intro _
    apply Keeps.bind hdetach
    intro detached
    apply Keeps.ite
    · intro _
      exact Keeps.pure _
    · intro _
      apply Keeps.bind (hclean ok (hookCount c) le_rfl)
      intro cleaned
      apply Keeps.ite
      · intro _
        exact Keeps.bind hdetach fun _ => Keeps.pure _
      · intro _
        exact Keeps.pure _
  · intro _
    exact Keeps.pure _

theorem keeps_releaseInstall_idle :
    Keeps Sitewise (Interrupted c p) (releaseInstall c p.pid false 0 g) := by
  have hdetach : Keeps Sitewise (Interrupted c p) (remoteProcessDetach p.pid) :=
    keeps_remoteProcessDetach (fun _ _ hI hsame => hI.sameBut hsame) p.pid
  apply Keeps.bind (Keeps.pure true)
  intro cleaned
  apply Keeps.ite
  · intro _
    apply Keeps.bind hdetach
    intro detached
    apply Keeps.ite
    · intro _
      exact Keeps.pure _
    · intro _
      apply Keeps.bind (Keeps.pure true)
      intro cleaned
      apply Keeps.ite
      · intro _
        exact Keeps.bind hdetach fun _ => Keeps.pure _
      · intro _
        exact Keeps.pure _
  · intro _
    exact Keeps.pure _

theorem Interrupted.originals (h : Interrupted c p w) (htouched : w.touched = true) (k : Hook) :
    w.original c k = p.site c k := by
  rcases h with hu | hu
  · exact hu.noted htouched k
  · exact hu.originals k

/-- Where a recovery can be interrupted. -/
theorem recoverStaleBridge_interrupted (hfresh : ∀ k, some (p.site c k) ≠ p.patch c k)
    (h : Interrupted c p m.world) (hm : Sitewise m.answers) :
    Satisfies (recoverStaleBridge c m.world.pid (m.world.remote c) (hooksOf c)
        (m.world.bridge c) (blobSize c)) m fun result m' =>
      Evolves (fun _ w => Interrupted c p w) m m' ∧ m.world.Alike m'.world ∧
        (result = true → ∀ k, m'.world.site c k = p.site c k) := by
  have hrestores := recoverStaleBridge_restores hfresh h
  rw [← h.image.pid, ← h.image.remote, ← h.image.bridge] at hrestores
  rcases h with hu | hu
  · have hunpatched : ∀ k ∈ hooksOf c, m.world.patch c k ≠ some (m.world.site c k) := by
      intro k _
      rw [hu.sites k, hu.image.patch]
      exact (hfresh k).symm
    refine .mono
      ((recoverStaleBridge_unpatched hunpatched (blobSize c)).and hrestores) ?_
    rintro result m₁ ⟨⟨hsilent, -⟩, htrue, -⟩
    refine ⟨hsilent.after (.refl (.inl hu)), ?_, htrue⟩
    rw [hsilent.world]
    exact Process.Alike.refl _
  · refine .mono (((recoverStaleBridge_underway hu).and
      (recoverStaleBridge_spec (.inl hu.planted.bridged) (blobSize c))).and hrestores) ?_
    rintro result m₁ ⟨⟨⟨hmoments, -⟩, hrecovered⟩, htrue, -⟩
    refine ⟨(hmoments (hm.whole .recovery)).mono fun _ hb => .inr hb, ?_, htrue⟩
    exact hrecovered.follows.world.process_alike

/-- What is known of an attempt that has patched sites, or tried to. -/
structure Tried (c : Console) (p : Process) (result : Bool × Nat × Hooks) (w : Process) : Prop where
  underway : Underway c p w
  records : Records c p result.2.2
  originals : ∀ k ∈ hooksOf c, result.2.2.original k = p.site c k
  patched_le : result.2.1 ≤ hookCount c

/-- Where an installation can be interrupted, and what is there then. -/
theorem attemptInstall_interrupted (hfresh : ∀ k, some (p.site c k) ≠ p.patch c k)
    (h : Interrupted c p m.world) (htouched : m.world.touched = true) (hm : Sitewise m.answers) :
    Satisfies (attemptInstall c m.world.pid) m fun result m' =>
      Evolves (fun _ w => Interrupted c p w) m m' ∧
        (Tried c p result m'.world ∨ (result.1 = false ∧ result.2.1 = 0)) := by
  have hquiet : ∀ m₁ : HookMachine, Silent m m₁ → Evolves (fun _ w => Interrupted c p w) m m₁ :=
    fun _ hsilent => hsilent.after (.refl h)
  refine (shellcoreRemoteResolve_spec m).seq ?_
  rintro result m₁ ⟨hsilent₁, hresolved, -⟩
  cases result with
  | none => exact .pure ⟨hquiet m₁ hsilent₁, .inr ⟨rfl, rfl⟩⟩
  | some r =>
    obtain ⟨rfl, -⟩ := hresolved r rfl
    dsimp only
    split
    next hfitsImage =>
      have hfits : blobSize c ≤ c.offsets.bridgeCaveSize := by
        simp only [imageFits, Bool.and_eq_true, decide_eq_true_eq] at hfitsImage
        exact hfitsImage.2
      refine (retainHookPages_silent m₁ _).seq ?_
      intro retained m₂ hsilent₂
      have hsilent := hsilent₁.trans hsilent₂
      have hworld := hsilent.world
      cases retained with
      | false => exact .pure ⟨hquiet m₂ hsilent, .inr ⟨rfl, rfl⟩⟩
      | true =>
        have hrecover := recoverStaleBridge_interrupted hfresh (m := m₂) (hworld ▸ h)
          (hsilent.answers ▸ hm)
        rw [hworld] at hrecover
        refine hrecover.seq ?_
        rintro recovered m₃ ⟨hmoments₃, halike₃, hsites₃⟩
        have hall₃ := hsilent.andThen hmoments₃ h
        cases recovered with
        | false => exact .pure ⟨hall₃, .inr ⟨rfl, rfl⟩⟩
        | true =>
          have htouched₃ : m₃.world.touched = true := halike₃.touched.trans htouched
          have horiginals₃ := hall₃.world.originals htouched₃
          have himage₃ := hall₃.world.image
          have huntouched₃ : Untouched c p m₃.world :=
            ⟨himage₃, fun _ => horiginals₃, hsites₃ rfl⟩
          have hprepare := prepareCave_spec (m := m₃)
            (g := { Hooks.zero with
              remote := m.world.remote c, bridgeAddress := m.world.bridge c })
            ⟨halike₃.remote.symm, halike₃.bridge.symm⟩ rfl hfits
            fun k _ => (hsites₃ rfl k).trans (horiginals₃ k).symm
          rw [halike₃.pid] at hprepare
          refine hprepare.seq ?_
          rintro ⟨ready, g⟩ m₄ ⟨hcave, hrecords, -, -, -, -, hready⟩
          have hall₄ : Evolves (fun _ w => Interrupted c p w) m m₄ :=
            hall₃.trans hcave (fun _ hb => hb) fun b hb =>
              .inl (huntouched₃.changed hb.process_alike hb.sites)
          have halike₄ := hcave.world.process_alike
          cases ready with
          | false => exact .pure ⟨hall₄, .inr ⟨rfl, rfl⟩⟩
          | true =>
            obtain ⟨-, hrecorded, hplanted⟩ := hready rfl
            have hunderway : Underway c p m₄.world := by
              refine ⟨himage₃.alike halike₄, halike₄.touched.trans htouched₃, hplanted,
                fun k => ?_, fun k => .inl ?_⟩
              · exact (halike₄.original k).trans (horiginals₃ k)
              · exact (hcave.world.sites k).trans (hsites₃ rfl k)
            have hrecords' : Records c p g :=
              ⟨hrecords.remote.trans himage₃.remote, hrecords.bridge.trans himage₃.bridge⟩
            have horiginals : ∀ k ∈ hooksOf c, g.original k = p.site c k := fun k hk =>
              (hrecorded k hk).trans (horiginals₃ k)
            have hanswers : m₄.answers = m.answers := hall₄.answers
            have hkeeps := keeps_patchHooks hrecords' (hooksOf c) (fun k hk => ⟨hk, by
              rw [horiginals k hk, length_site]⟩) 0 m₄ (hanswers ▸ hm) hunderway
            have hcount := patchHooks_spec (hooksOf c) m₄ 0 (hooksOf_nodup c)
              ⟨hrecords'.remote.trans hunderway.image.remote.symm,
                hrecords'.bridge.trans hunderway.image.bridge.symm⟩ fun k hk => by
                rw [horiginals k hk, hunderway.originals]
            rw [← h.image.pid] at hkeeps
            rw [halike₄.pid, halike₃.pid] at hcount
            refine (hkeeps.and hcount).seq ?_
            rintro ⟨ok, patched⟩ m₅ ⟨hmoments₅, j, hj, hle, -⟩
            dsimp only at hj
            rw [Nat.zero_add] at hj
            subst hj
            rw [length_hooksOf] at hle
            refine .pure ⟨hall₄.trans hmoments₅ (fun _ hb => hb)
              fun _ hb => .inr hb, .inl ⟨hmoments₅.world, ?_, ?_, hle⟩⟩
            · dsimp only
              split
              · exact ⟨hrecords'.remote, hrecords'.bridge⟩
              · exact hrecords'
            · intro k hk
              dsimp only
              split <;> exact horiginals k hk
    next => exact .pure ⟨hquiet m₁ hsilent₁, .inr ⟨rfl, rfl⟩⟩

theorem Interrupted.noted (h : Interrupted c p m.world) :
    Satisfies noteInstallation m fun _ m' =>
      m'.answers = m.answers ∧ m'.log = m.log ∧ Interrupted c p m'.world ∧
        m'.world.touched = true ∧ m'.world.pid = m.world.pid := by
  refine ⟨rfl, rfl, ?_⟩
  unfold noteInstallation
  dsimp only
  split
  next htouched => exact ⟨h, htouched, rfl⟩
  next htouched =>
    rcases h with hu | hu
    · refine ⟨.inl ⟨⟨hu.image.pid, hu.image.imageBase⟩, fun _ k => ?_, hu.sites⟩, rfl, rfl⟩
      exact hu.sites k
    · exact absurd hu.touched htouched

/-- Every moment of an installation is one of which a recovery gets the original bytes back. -/
theorem installHooksForPid_interrupted (hfresh : ∀ k, some (p.site c k) ≠ p.patch c k)
    (h : Interrupted c p m.world) (hm : Sitewise m.answers) (old : Hooks) :
    Satisfies (installHooksForPid c p.pid old) m fun _ m' =>
      Evolves (fun _ w => Interrupted c p w) m m' := by
  unfold installHooksForPid
  split
  next => exact .pure (.refl h)
  next =>
    refine (keeps_remoteProcessAttach p.pid m hm h).seq ?_
    intro attached m₁ hall₁
    cases attached with
    | false => exact .pure hall₁
    | true =>
      refine hall₁.world.noted.seq ?_
      rintro - m₂ ⟨hanswers, hlog, hworld₂, htouched₂, -⟩
      have hall₂ : Evolves (fun _ w => Interrupted c p w) m m₂ :=
        ⟨hanswers.trans hall₁.answers, hworld₂, fun e he => hall₁.log e (hlog ▸ he)⟩
      have hattempt := attemptInstall_interrupted hfresh hworld₂ htouched₂
        (hall₂.answers ▸ hm)
      rw [hworld₂.image.pid] at hattempt
      refine hattempt.seq ?_
      rintro ⟨ok, patched, g⟩ m₃ ⟨hmoments₃, htried⟩
      have hall₃ : Evolves (fun _ w => Interrupted c p w) m m₃ :=
        hall₂.trans hmoments₃ (fun _ hb => hb) fun _ hd => hd
      have hm₃ : Sitewise m₃.answers := hall₃.answers ▸ hm
      have hrelease : Satisfies (releaseInstall c p.pid ok patched g) m₃ fun _ m' =>
          Evolves (fun _ w => Interrupted c p w) m₃ m' := by
        rcases htried with htried | ⟨rfl, rfl⟩
        · refine .mono (keeps_releaseInstall_underway htried.records htried.originals
            htried.patched_le ok m₃ hm₃ htried.underway) ?_
          exact fun _ _ hfollows => hfollows.mono fun _ hb => .inr hb
        · exact keeps_releaseInstall_idle m₃ hm₃ hall₃.world
      refine hrelease.seq ?_
      rintro ⟨stands, pending, detached⟩ m₄ hmoments₄
      have hall₄ : Evolves (fun _ w => Interrupted c p w) m m₄ :=
        hall₃.trans hmoments₄ (fun _ hb => hb) fun _ hd => hd
      dsimp only
      split
      · exact .pure hall₄
      · split
        · exact .pure hall₄
        · exact .pure hall₄

/-- The processes that installations leave behind when each of them was cut short, at any
moment and with any failing calls.  The system lets go of the process, or has to. -/
inductive Left (c : Console) (p : Process) : Process → Prop where
  | start : Left c p p
  | cut {w v : Process} (earlier : Left c p w) (old : Hooks) (m : HookMachine)
      (world : m.world = w) (log : m.log = []) (sitewise : Sitewise m.answers)
      (moment : v = (installHooksForPid c p.pid old m).2.world ∨
        ∃ e ∈ (installHooksForPid c p.pid old m).2.log, v = e.world)
      (stopped : Bool) : Left c p { v with stopped := stopped }

theorem Left.interrupted (hfresh : p.Fresh c) (h : Left c p w) : Interrupted c p w := by
  obtain ⟨htouched, -, -, hsites⟩ := hfresh
  induction h with
  | start =>
    refine .inl ⟨⟨rfl, rfl⟩, fun hnoted => ?_, fun _ => rfl⟩
    rw [htouched] at hnoted
    cases hnoted
  | cut earlier old m world log sitewise moment stopped ih =>
    have hall := installHooksForPid_interrupted hsites (world ▸ ih) sitewise old
    refine Interrupted.sameBut ?_ rfl
    rcases moment with rfl | ⟨e, he, rfl⟩
    · exact hall.world
    · refine (hall.log e he).resolve_left ?_
      rw [log]
      exact List.not_mem_nil

/-- The displacement of a relative jump or call that fits in 32 bits. -/
def Displacement (source destination : Nat) (displacement : Int) : Prop :=
  (-2 ^ 31 ≤ displacement ∧ displacement < 2 ^ 31) ∧
    (((source + relativeJumpSize : Nat) : Int) + displacement) % 2 ^ 64 = destination

theorem exists_displacement (h : destination < 2 ^ 64) :
    (∃ d, Displacement source destination d) ↔
      -2 ^ 31 ≤ wideDisplacement source destination ∧
        wideDisplacement source destination < 2 ^ 31 := by
  constructor
  · rintro ⟨d, hfits, hleads⟩
    have hwide := (wideDisplacement_eq_iff h).mpr ⟨by omega, hleads⟩
    rwa [hwide]
  · intro hfits
    exact ⟨_, hfits, ((wideDisplacement_eq_iff h).mp rfl).2⟩

theorem exists_buildRelativeJump (h : destination < 2 ^ 64) :
    (∃ jump, buildRelativeJump source destination = some jump) ↔
      ∃ d, Displacement source destination d := by
  rw [exists_displacement h]
  constructor
  · rintro ⟨jump, hjump⟩
    exact (buildRelativeJump_eq_some.mp hjump).1
  · intro hfits
    exact ⟨_, buildRelativeJump_eq_some.mpr ⟨hfits, rfl⟩⟩

theorem exists_buildRelativeCall (h : destination < 2 ^ 64) :
    (∃ call, buildRelativeCall source destination = some call) ↔
      ∃ d, Displacement source destination d := by
  rw [← exists_buildRelativeJump h]
  constructor
  · rintro ⟨call, hcall⟩
    obtain ⟨jump, hjump, -⟩ := Option.map_eq_some_iff.mp hcall
    exact ⟨jump, hjump⟩
  · rintro ⟨jump, hjump⟩
    exact ⟨_, Option.map_eq_some_iff.mpr ⟨jump, hjump, rfl⟩⟩

/-- Encoder and parser agree on all addresses; and whatever installations were cut short in a
process, and wherever, a recovery that succeeds gives each site the bytes that it held before
the first of them.  When no call fails all sites hold these bytes afterwards, and the recovery
succeeds if and only if they are what the program takes for original ones. -/
theorem interrupted_install_recovered :
    (∀ source destination, destination < 2 ^ 64 →
      ((∃ jump, buildRelativeJump source destination = some jump) ↔
        ∃ d, Displacement source destination d) ∧
      ((∃ call, buildRelativeCall source destination = some call) ↔
        ∃ d, Displacement source destination d) ∧
      (∀ jump, buildRelativeJump source destination = some jump →
        parseRelativeJump jump source = some destination) ∧
      (∀ call, buildRelativeCall source destination = some call →
        parseRelativeCall call source = some destination) ∧
      ∀ size, ((∃ patch, buildHookPatch destination size = some patch) ↔
          absoluteJumpSize ≤ size ∧ size ≤ maxHookPrologueSize) ∧
        ∀ patch, buildHookPatch destination size = some patch →
          parseAbsoluteJump patch = some destination) ∧
    ∀ c : Console, c.blob.Signed → ∀ p w : Process, p.Fresh c → Left c p w →
      ∀ m : HookMachine, m.world = w →
        Satisfies (recoverStaleBridge c p.pid (p.remote c) (hooksOf c) (p.bridge c) (blobSize c)) m
          fun result m' =>
            (result = true → ∀ k, m'.world.site c k = p.site c k) ∧
            (m.Faultless → (∀ k, m'.world.site c k = p.site c k) ∧
              (result = true ↔
                ∀ k ∈ hooksOf c, isOriginal (p.remote c) k (p.site c k) = true)) := by
  constructor
  · intro source destination hlt
    refine ⟨exists_buildRelativeJump hlt, exists_buildRelativeCall hlt, ?_, ?_, ?_⟩
    · intro jump hjump
      have hparse := parseRelativeJump_build hjump hlt []
      rwa [List.append_nil] at hparse
    · intro call hcall
      exact parseRelativeCall_build hcall hlt
    · intro size
      refine ⟨?_, fun patch hpatch => parseAbsoluteJump_build hpatch hlt⟩
      unfold buildHookPatch
      constructor
      · rintro ⟨patch, hpatch⟩
        split at hpatch
        · cases hpatch
        · omega
      · intro hsize
        exact ⟨_, if_neg (by omega)⟩
  · rintro c hsigned p w hfresh hleft m rfl
    have hrestores := recoverStaleBridge_restores hfresh.2.2.2 (hleft.interrupted hfresh)
    exact hrestores.mono fun _ _ h => ⟨h.1, h.2 hsigned⟩

/-- An installation in the sample process, in which no call fails. -/
def sampleInstall : HookMachine :=
  (installHooksForPid sampleConsole sampleState.process.pid Hooks.zero
    (sampleState.machine fun _ => none)).2

/-- The moment of the sample installation between its two patches. -/
def cutProcess : Process :=
  match sampleInstall.log.drop 3 with
  | e :: _ => { e.world with stopped := false }
  | [] => sampleState.process

theorem cutProcess_left : Left sampleConsole sampleState.process cutProcess := by
  have hcut : ∀ e ∈ sampleInstall.log,
      Left sampleConsole sampleState.process { e.world with stopped := false } := by
    have hsitewise : Sitewise (sampleState.machine fun _ => none).answers := by
      intro _ _ _ hfault
      cases hfault
    have hstart : Left sampleConsole sampleState.process sampleState.process := .start
    unfold sampleInstall
    generalize hinstall : installHooksForPid sampleConsole sampleState.process.pid Hooks.zero
      (sampleState.machine fun _ => none) = install
    intro e he
    refine hstart.cut (v := e.world) Hooks.zero (sampleState.machine fun _ => none) rfl rfl
      hsitewise ?_ false
    rw [hinstall]
    exact .inr ⟨e, he, rfl⟩
  unfold cutProcess
  split
  next e rest hdrop =>
    apply hcut e
    apply List.mem_of_mem_drop
    rw [hdrop]
    exact List.mem_cons_self
  next => exact .start

/-- The recovery of an installation that was killed between its two patches, without any
failing call. -/
theorem interrupted_install_recovered_cut :
    let recovery := recoverStaleBridge sampleConsole sampleState.process.pid
      (sampleState.process.remote sampleConsole) (hooksOf sampleConsole)
      (sampleState.process.bridge sampleConsole) (blobSize sampleConsole)
      ⟨fun _ => ⟨none, 0⟩, 0, cutProcess, []⟩
    cutProcess.site sampleConsole .launch ≠ sampleState.process.site sampleConsole .launch ∧
      recovery.1 = true ∧
      ∀ k, recovery.2.world.site sampleConsole k = sampleState.process.site sampleConsole k := by
  have hrecovered (w : Process) (hleft : Left sampleConsole sampleState.process w) :=
    interrupted_install_recovered.2 sampleConsole ⟨by decide +kernel, by decide +kernel⟩
      sampleState.process w sampleState_fresh hleft ⟨fun _ => ⟨none, 0⟩, 0, w, []⟩ rfl
  obtain ⟨hsites, hresult⟩ := (hrecovered cutProcess cutProcess_left).2 fun _ => rfl
  exact ⟨by decide +kernel, hresult.mpr (by decide +kernel), hsites⟩

end ShadowMount.ShellcoreHooks
