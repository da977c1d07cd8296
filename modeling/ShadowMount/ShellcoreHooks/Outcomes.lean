import ShadowMount.ShellcoreHooks.Ownership

/-!
# What an operation leaves behind

Every operation on the hooks keeps the invariant, leaves foreign sites alone at every moment,
and accounts for the sites that it has changed: they hold their original bytes, or the record
is about them.
-/

namespace ShadowMount.ShellcoreHooks

open Foundation

variable {c : Console} {m m' : HookMachine} {g : Hooks} {p q r : Process}
variable {g' : Hooks} {m'' : HookMachine} {ok : Bool} {patched : Nat} {result : Bool × Bool × Bool}

/-- Foreign sites are as they were. -/
def Spared (c : Console) (p q : Process) : Prop :=
  ∀ k, p.foreign k = true → q.site c k = p.site c k

theorem Spares.spared (h : Spares c p q) : Spared c p q := h.sites

/-- What an operation leaves behind. -/
structure Outcome (c : Console) (g : Hooks) (m : HookMachine) (g' : Hooks) (m' : HookMachine) :
    Prop where
  sound : Sound c m'.world g'
  owned : ∀ k ∈ hooksOf c, m'.world.site c k = m.world.site c k ∨
    m'.world.site c k = m'.world.original c k ∨ (Here m'.world g' ∧ k ∈ g'.recorded)
  restored : Here m.world g → g'.status = .empty →
    ∀ k ∈ hooksOf c, m'.world.site c k = m'.world.original c k
  spared : Evolves (Spared c) m m'

theorem Outcome.unchanged (hfollows : Evolves (Changes c fun _ => False) m m')
    (hsound : Sound c m'.world g') (hkept : Here m.world g → g'.status ≠ .empty) :
    Outcome c g m g' m' where
  sound := hsound
  owned k _ := .inl (hfollows.world.sites k id)
  restored hhere hempty := absurd hempty (hkept hhere)
  spared := hfollows.mono fun _ hb k _ => hb.sites k id

/-- An operation that only looks at the process. -/
theorem Outcome.ofSilent (hsilent : Silent m m') (hsound : Sound c m.world g')
    (hkept : Here m.world g → g'.status ≠ .empty) : Outcome c g m g' m' :=
  Outcome.unchanged hsilent.changes (hsilent.world.symm ▸ hsound) hkept

/-- Looking at the process before an operation. -/
theorem Outcome.afterSilent {m₁ : HookMachine} (h : Outcome c g m₁ g' m') (hsilent : Silent m m₁) :
    Outcome c g m g' m' := by
  have hworld := hsilent.world
  obtain ⟨hsound, howned, hrestored, hspared⟩ := h
  rw [hworld] at howned hrestored
  exact ⟨hsound, howned, hrestored, hsilent.andThen hspared fun _ _ => rfl⟩

/-- Writes beside the trampolines after an operation. -/
theorem Outcome.leaves (h : Outcome c g m g' m')
    (hleaves : Evolves (Leaves c fun _ => False) m' m'') : Outcome c g m g' m'' := by
  have hsites : ∀ k, m''.world.site c k = m'.world.site c k :=
    fun k => hleaves.world.sites k id
  have halike := hleaves.world.process_alike
  refine ⟨h.sound.unchanged hleaves.world.changes hleaves.world.stopped, fun k hk => ?_,
    fun hhere hempty k hk => ?_, h.spared.trans hleaves (fun _ hb => hb) fun d hd k hk => ?_⟩
  · rw [hsites k, halike.original]
    exact (h.owned k hk).imp_right (.imp_right fun hp => ⟨hp.1.alike halike, hp.2⟩)
  · rw [hsites k, halike.original]
    exact h.restored hhere hempty k hk
  · rw [hd.sites k id]
    exact h.spared.world k hk

/-- What the beginning of an installation notes. -/
structure Noted (c : Console) (p q : Process) : Prop where
  pid : q.pid = p.pid
  stopped : q.stopped = p.stopped
  touched : q.touched = true
  site : ∀ k, q.site c k = p.site c k
  patch : ∀ k, q.patch c k = p.patch c k
  foreign : ∀ k, p.foreign k = true → q.foreign k = true
  grounded : Grounded c q
  expected : (p.touched = true → ∀ k ∈ hooksOf c,
      isOriginal (p.remote c) k (p.site c k) = true → p.site c k = p.original c k) →
    ∀ k ∈ hooksOf c, isOriginal (q.remote c) k (q.site c k) = true →
      q.site c k = q.original c k

theorem noteInstallation_spec (hgrounded : Grounded c m.world) :
    Satisfies noteInstallation m fun _ m' =>
      m'.answers = m.answers ∧ m'.log = m.log ∧ Noted c m.world m'.world := by
  refine ⟨rfl, rfl, ?_⟩
  unfold noteInstallation
  dsimp only
  split
  · rename_i htouched
    exact ⟨rfl, rfl, htouched, fun _ => rfl, fun _ => rfl, fun _ h => h, hgrounded,
      fun h => h htouched⟩
  · rename_i htouched
    obtain ⟨hforeign, hsites⟩ := hgrounded.untouched (by simpa using htouched)
    refine ⟨rfl, rfl, rfl, fun _ => rfl, fun _ => rfl, fun k hk => ?_, ?_, fun _ _ _ _ => rfl⟩
    · rw [hforeign k] at hk
      cases hk
    · refine ⟨fun h => ?_, fun _ => hsites, fun k h => ?_, .inr fun k _ => hsites k⟩
      · cases h
      · cases h

/-- What is known of an installation that has come to its end. -/
structure Installed (c : Console) (m : HookMachine) (patched : Nat) (m' : HookMachine) :
    Prop where
  spares : Evolves (Spares c) m m'
  grounded : Grounded c m'.world
  sites : ∀ k ∈ hooksOf c, m'.world.site c k = m.world.site c k ∨
    m'.world.site c k = m'.world.original c k ∨ k ∈ hookOrder.take patched

/-- What an attempt leaves behind its release. -/
theorem Attempted.released (h : Attempted c m (ok, patched, g) m')
    (hreleased : Released c ok patched m' result m'') (hgrounded : Grounded c m.world)
    (htouched : m.world.touched = true) (hrecovery : Untorn .recovery m ∨
      ∀ k ∈ hooksOf c, some (m.world.site c k) ≠ m.world.patch c k) :
    Installed c m patched m'' := by
  have hactive := h.active
  have hidle := h.idle
  dsimp only at hactive hidle
  have hchanges := hreleased.follows.world
  have halike := h.spares.world.alike
  have hspares : Evolves (Spares c) m m'' := by
    refine follows_spares_trans h.spares (hreleased.follows.mono fun _ hb => hb.spares ?_)
    intro k hk
    have hne : patched ≠ 0 := by
      rintro rfl
      simp at hk
    rw [halike.foreign]
    exact (hactive hne).own k (mem_hooksOf (hactive hne).patched_le hk)
  refine ⟨hspares, hgrounded.spares hspares.world htouched ?_, fun k hk => ?_⟩
  · by_cases hzero : patched = 0
    · refine h.bridged.imp (fun hb => hb.changes hchanges) fun hnone k hk => ?_
      rw [hchanges.sites k (by simp [hzero])]
      exact hnone k hk
    · exact .inl ((hactive hzero).bridged.changes hchanges)
  · by_cases htried : k ∈ hookOrder.take patched
    · exact .inr (.inr htried)
    · rw [hchanges.sites k htried, hspares.world.alike.original]
      by_cases hzero : patched = 0
      · exact ((hidle hzero).2 hrecovery k).symm.imp_right .inl
      · exact .inr (.inl ((hactive hzero).untried k hk htried))

theorem Attempted.owns_ready (h : Attempted c m (true, patched, g) m')
    (hreleased : Released c true patched m' result m'') (hstands : result.1 = true)
    (htouched : m.world.touched = true) :
    Here m''.world g ∧ Owns c m''.world g ∧ g.hookCount = hookCount c := by
  obtain ⟨hpatched, hcount, hstatus, hpatches⟩ := h.installed rfl
  obtain ⟨-, hdetached, hsame⟩ := hreleased.stands hstands
  have hattached := h.attached
  dsimp only at hpatched hcount hstatus hattached
  have hengaged := h.active (by dsimp only; rw [hpatched]; exact hookCount_pos c)
  dsimp only at hengaged
  have halike := h.spares.world.alike.trans hreleased.follows.world.alike
  have hrecords := hengaged.records.alike halike
  have hrecorded : g.recorded = hooksOf c := by
    unfold Hooks.recorded hooksOf
    rw [hcount]
  refine ⟨⟨by rw [hstatus]; decide, hrecords.pid⟩, ⟨halike.touched.trans htouched, ?_, ?_,
    fun _ => ⟨hrecords, ?_⟩, fun _ => hengaged.bridged.changes hreleased.follows.world,
    Nat.le_of_eq hcount, fun k hk => ?_, fun _ => ⟨hcount, fun k hk _ => .inr ?_⟩⟩, hcount⟩
  · rw [hreleased.stopped, hdetached, hattached]
    rfl
  · intro hzero
    exact absurd (hcount.symm.trans hzero) (hookCount_pos c)
  · rw [halike.imageBase]
    exact hengaged.base
  · rw [hrecorded] at hk
    rw [hengaged.originals k hk, halike.original]
  · rw [hsame k, halike.patch]
    exact hpatches k hk

/-- The record of an installation that is to be rolled back. -/
theorem Attempted.owns_pending (h : Attempted c m (ok, patched, g) m')
    (hreleased : Released c ok patched m' result m'') (htouched : m.world.touched = true)
    (size : Nat) :
    Owns c m''.world { g with
      attached := !result.2.2
      remote := { g.remote with pid := m.world.pid }
      bridgeSize := size
      hookCount := patched
      status := .rollbackPending } := by
  have hactive := h.active
  dsimp only at hactive
  have halike := h.spares.world.alike.trans hreleased.follows.world.alike
  refine ⟨halike.touched.trans htouched, hreleased.stopped, fun _ => rfl, fun hne => ?_,
    fun hne => (hactive hne).bridged.changes hreleased.follows.world, ?_, fun k hk => ?_,
    fun h => absurd rfl h⟩
  · have hrecords := (hactive hne).records
    refine ⟨Records.alike ⟨?_, hrecords.bridge⟩ halike, ?_⟩
    · dsimp only
      rw [hrecords.remote]
      rfl
    · rw [halike.imageBase]
      exact (hactive hne).base
  · by_cases hzero : patched = 0
    · exact hzero ▸ Nat.zero_le _
    · exact (hactive hzero).patched_le
  · have hne : patched ≠ 0 := by
      rintro rfl
      simp [Hooks.recorded] at hk
    rw [halike.original]
    exact (hactive hne).originals k (mem_hooksOf (hactive hne).patched_le hk)

/-- What an installation needs: sites that look like the original ones are, and a write that
takes away a previous patch reaches all of its bytes or none. -/
def Installable (c : Console) (m : HookMachine) : Prop :=
  (m.world.touched = true → ∀ k ∈ hooksOf c,
    isOriginal (m.world.remote c) k (m.world.site c k) = true →
      m.world.site c k = m.world.original c k) ∧
  (Untorn .recovery m ∨ ∀ k ∈ hooksOf c, some (m.world.site c k) ≠ m.world.patch c k)

theorem Installable.silent (h : Installable c m) (hsilent : Silent m m') : Installable c m' := by
  unfold Installable at h ⊢
  rw [hsilent.world]
  exact ⟨h.1, h.2.imp_left fun hu => hu.follows hsilent⟩

/-- The installation, when the record before it is not about the process. -/
theorem installHooksForPid_outcome (old : Hooks) (hgrounded : Grounded c m.world)
    (hrunning : m.world.stopped = false) (haway : ¬ Here m.world g) (hold : ¬ Here m.world old)
    (hm : Unstuck m) (hinstallable : Installable c m) :
    Satisfies (installHooksForPid c m.world.pid old) m fun result m' =>
      Outcome c g m result.2 m' ∧
        (result.1 = true → Here m'.world result.2 ∧ result.2.status = .ready ∧
          result.2.hookCount = hookCount c) := by
  have hsound : Sound c m.world old :=
    ⟨hgrounded, fun _ => hrunning, fun hhere => absurd hhere hold⟩
  unfold installHooksForPid
  split
  · exact .pure ⟨Outcome.ofSilent (.refl m) hsound fun h => absurd h haway, nofun⟩
  · refine (remoteProcessAttach_spec m m.world.pid hm).seq ?_
    rintro attached m₁ ⟨hfollows₁, hworld₁, -, -⟩
    cases attached with
    | false =>
      have hsame : Changes c (fun _ => False) m.world m₁.world := hfollows₁.world.changes
      refine .pure ⟨Outcome.unchanged (hfollows₁.mono fun _ hb => hb.changes)
        (hsound.unchanged hsame ?_) fun h => absurd h haway, nofun⟩
      rw [hworld₁]
      rfl
    | true =>
      have hgrounded₁ : Grounded c m₁.world := hgrounded.unchanged hfollows₁.world.changes
      refine (noteInstallation_spec hgrounded₁).seq ?_
      rintro - m₂ ⟨hanswers, hlog, hnoted⟩
      have hpid₂ : m₂.world.pid = m.world.pid := by rw [hnoted.pid, hworld₁]
      have hsite₂ : ∀ k, m₂.world.site c k = m.world.site c k := by
        intro k
        rw [hnoted.site k, hworld₁]
        rfl
      have hpatch₂ : ∀ k, m₂.world.patch c k = m.world.patch c k := by
        intro k
        rw [hnoted.patch k, hworld₁]
        rfl
      have hflags : ∀ k, m.world.foreign k = true → m₂.world.foreign k = true := by
        intro k hk
        refine hnoted.foreign k ?_
        rw [hworld₁]
        exact hk
      have hspared₂ : Evolves (Spared c) m m₂ := by
        refine ⟨hanswers.trans hfollows₁.answers, fun k _ => hsite₂ k, fun e he => ?_⟩
        rw [hlog] at he
        refine (hfollows₁.log e he).imp_right fun hb k _ => ?_
        have hchanges : Changes c (fun _ => False) m.world e.world := hb.changes
        exact hchanges.sites k id
      have hrecovery₂ : Untorn .recovery m₂ ∨
          ∀ k ∈ hooksOf c, some (m₂.world.site c k) ≠ m₂.world.patch c k := by
        refine hinstallable.2.imp (fun hu => hu.follows hspared₂) fun hnone k hk => ?_
        rw [hsite₂ k, hpatch₂ k]
        exact hnone k hk
      have hexpected₂ := hnoted.expected (by rw [hworld₁]; exact hinstallable.1)
      have hattempt := attemptInstall_spec hnoted.grounded.bridged hnoted.grounded.foreign
        hexpected₂
      rw [hpid₂] at hattempt
      refine hattempt.seq ?_
      rintro ⟨ok, patched, g'⟩ m₃ hattempted
      have halike₃ := hattempted.spares.world.alike
      have hactive := hattempted.active
      have hinstalled := hattempted.installed
      dsimp only at hactive hinstalled
      have hrelease := releaseInstall_spec (c := c) (m := m₃) (g := g') ok patched
        (by rw [hattempted.stopped, hnoted.stopped, hworld₁]; rfl)
        (fun hok => (hinstalled hok).1) (fun hne => (hactive hne).records.alike halike₃)
        fun k hk => by
          have hne : patched ≠ 0 := by
            rintro rfl
            simp at hk
          rw [halike₃.original]
          exact (hactive hne).originals k (mem_hooksOf (hactive hne).patched_le hk)
      rw [halike₃.pid, hpid₂] at hrelease
      refine hrelease.seq ?_
      rintro ⟨stands, pending, detached⟩ m₄ hreleased
      have hdone := hattempted.released hreleased hnoted.grounded hnoted.touched hrecovery₂
      have hpid₄ : m₄.world.pid = m.world.pid := hdone.spares.world.alike.pid.trans hpid₂
      have hspared : Evolves (Spared c) m m₄ := by
        refine hspared₂.trans hdone.spares (fun _ hb => hb) fun d hd k hk => ?_
        rw [hd.sites k (hflags k hk), hsite₂ k]
      have howned := hdone.sites
      simp only [hsite₂] at howned
      dsimp only
      split
      · rename_i hstands
        have hok : ok = true := (hreleased.stands hstands).1
        subst hok
        obtain ⟨hhere, howns, hcount⟩ :=
          hattempted.owns_ready hreleased hstands hnoted.touched
        refine .pure ⟨⟨⟨hdone.grounded, fun h => absurd hhere h, fun _ => howns⟩,
          fun k hk => .inr (.inr ⟨hhere, ?_⟩), fun h => absurd h haway, hspared⟩,
          fun _ => ⟨hhere, (hinstalled rfl).2.2.1, hcount⟩⟩
        unfold Hooks.recorded
        rw [hcount]
        exact hk
      · rename_i hstands
        split
        · have howns := hattempted.owns_pending hreleased hnoted.touched (blobSize c)
          rw [hpid₂] at howns
          refine .pure ⟨⟨⟨hdone.grounded, fun h => absurd ⟨nofun, hpid₄.symm⟩ h,
            fun _ => howns⟩, fun k hk => ?_, fun h => absurd h haway, hspared⟩, nofun⟩
          refine (howned k hk).imp_right (.imp_right fun htried => ?_)
          exact ⟨⟨nofun, hpid₄.symm⟩, htried⟩
        · rename_i hsettled
          simp only [Bool.or_eq_true, not_or, Bool.not_eq_true, Bool.not_eq_false'] at hsettled
          have hstopped₄ : m₄.world.stopped = false := by
            rw [hreleased.stopped]
            exact congrArg (!·) hsettled.2
          have hold₄ : ¬ Here m₄.world old := fun h => hold ⟨h.1, h.2.trans hpid₄⟩
          refine .pure ⟨⟨⟨hdone.grounded, fun _ => hstopped₄,
            fun h => absurd h hold₄⟩, fun k hk => ?_, fun h => absurd h haway, hspared⟩, nofun⟩
          rcases howned k hk with hsame | horiginal | htried
          · exact .inl hsame
          · exact .inr (.inl horiginal)
          · refine .inr (.inl ?_)
            rw [hreleased.follows.world.alike.original]
            exact hreleased.settled (by simpa using hstands) hsettled.1 k htried

/-- What a repair leaves behind. -/
theorem Repaired.outcome {attempted : List Hook} {m₁ m₂ : HookMachine} {result : Bool × Hooks}
    {g₀ : Hooks} (hgrounded : Grounded c m.world) (hhere : Here m.world g)
    (howns : Owns c m.world g) (hstatus : g.status ≠ .rollbackPending)
    (hrunning : m.world.stopped = false) (hsame : Evolves SameBut m m₁)
    (hleaves : Evolves (Leaves c (· ∈ attempted)) m₁ m₂) (htried : ∀ k ∈ attempted, k ∈ g.recorded ∧
      (m.world.patch c k = some (m.world.site c k) ∨ m.world.site c k = m.world.original c k))
    (hinstalled : ok = true → ∀ k ∈ g.recorded, m.world.patch c k = some (m₂.world.site c k))
    (h : Repaired c g ok attempted m₂ result m') :
    Outcome c g₀ m result.2 m' ∧
      (result.1 = true → Here m'.world result.2 ∧ result.2.status = .ready ∧
        result.2.hookCount = hookCount c) := by
  have hchanges : Evolves (Changes c (· ∈ attempted)) m m' :=
    follows_changes_trans (hsame.mono fun _ hb => hb.changes)
      (follows_changes_trans (hleaves.mono fun _ hb => hb.changes) h.follows)
  have hspares : Evolves (Spares c) m m' :=
    hchanges.mono fun _ hb => hb.spares fun k hk => hgrounded.own (htried k hk).2
  have halike := hchanges.world.alike
  have hcount := (howns.complete hstatus).1
  have hpos : g.hookCount ≠ 0 := hcount ▸ hookCount_pos c
  have hrecorded := howns.recorded hstatus
  have hbridged : Bridged c m'.world := (howns.bridged hpos).changes hchanges.world
  have hnonempty : result.2.status ≠ .empty := by
    rcases h.ending with ⟨hpending, -⟩ | ⟨-, -, ⟨-, hready, -⟩ | ⟨-, hkept, -⟩⟩
    · rw [hpending]
      decide
    · rw [hready]
      decide
    · rw [hkept]
      exact hhere.1
  have hremote : result.2.remote = g.remote := by rw [h.record]
  have hcount' : result.2.hookCount = g.hookCount := by rw [h.record]
  have hrecorded' : result.2.recorded = g.recorded := by
    unfold Hooks.recorded
    rw [hcount']
  have hhere' : Here m'.world result.2 := ⟨hnonempty, by rw [hremote, halike.pid]; exact hhere.2⟩
  have hattached : g.attached = false := howns.attached.symm.trans hrunning
  have hstopped : m'.world.stopped = result.2.attached := by
    rcases h.ending with ⟨-, hstopped⟩ | ⟨hstopped, hkept, -⟩
    · exact hstopped
    · rw [hstopped, hkept, hattached]
  -- Unless a rollback is pending, a site was not tried, was put back or holds the patch.
  have hcomplete : result.2.status ≠ .rollbackPending → ∀ k ∈ hooksOf c,
      m'.world.foreign k = false → m'.world.site c k = m'.world.original c k ∨
        m'.world.patch c k = some (m'.world.site c k) := by
    intro hsettled k hk hflag
    rw [halike.original, halike.patch]
    have hmiddle := hleaves.world.process_alike.trans h.follows.world.alike
    rcases h.ending with ⟨hpending, -⟩ | ⟨-, -, ⟨hok, -, hstands⟩ | ⟨-, -, hback⟩⟩
    · exact absurd hpending hsettled
    · rw [hstands k]
      exact .inr (hinstalled hok k (hrecorded ▸ hk))
    · by_cases hkt : k ∈ attempted
      · refine .inl ((hback k hkt).trans ?_)
        rw [← h.follows.world.alike.original, halike.original]
      · rw [hchanges.world.sites k hkt]
        rw [halike.foreign] at hflag
        exact (howns.complete hstatus).2 k hk hflag
  have howns' : Owns c m'.world result.2 := by
    refine ⟨halike.touched.trans howns.touched, hstopped, fun hzero => ?_, fun _ => ?_,
      fun _ => hbridged, ?_, fun k hk => ?_, fun hsettled => ⟨hcount'.trans hcount,
        hcomplete hsettled⟩⟩
    · exact absurd (hcount'.symm.trans hzero) hpos
    · obtain ⟨hrecords, hbase⟩ := howns.records hpos
      refine ⟨Records.alike ⟨hremote.trans hrecords.remote, ?_⟩ halike, ?_⟩
      · rw [h.record]
        exact hrecords.bridge
      · rw [halike.imageBase]
        exact hbase
    · rw [hcount']
      exact howns.count_le
    · rw [hrecorded'] at hk
      rw [h.record, halike.original]
      exact howns.originals k hk
  refine ⟨⟨⟨hgrounded.spares hspares.world howns.touched (.inl hbridged),
      fun hnot => absurd hhere' hnot, fun _ => howns'⟩,
    fun k hk => .inr (.inr ⟨hhere', by rw [hrecorded', hrecorded]; exact hk⟩),
    fun _ hempty => absurd hempty hnonempty, hspares.mono fun _ hb => hb.spared⟩,
    fun hr => ⟨hhere', h.success hr, hcount'.trans hcount⟩⟩

/-- Does a refresh install the hooks anew? -/
def Reinstalls (stopping : Bool) (p : Process) (g : Hooks) : Prop :=
  g.enabled = true ∧ (g.status = .ready ∨ g.status = .stale) ∧ stopping = false ∧
    g.remote.pid ≠ p.pid

/-- The repair. -/
theorem refreshHooksLocked_outcome {stopping : Bool} (hsound : Sound c m.world g)
    (hm : Unstuck m) (hinstallable : Reinstalls stopping m.world g → Installable c m) :
    Satisfies (refreshHooksLocked c stopping g) m fun result m' =>
      Outcome c g m result.2 m' ∧
        (result.1 = true → Here m'.world result.2 ∧ result.2.status = .ready ∧
          result.2.hookCount = hookCount c) := by
  unfold refreshHooksLocked
  split
  · exact .pure ⟨Outcome.ofSilent (.refl m) hsound fun h => h.1, nofun⟩
  · rename_i hactive
    simp only [Bool.or_eq_true, Bool.not_eq_true', Bool.and_eq_true, decide_eq_true_eq,
      not_or, not_and, not_not, Bool.not_eq_false, Bool.not_eq_true] at hactive
    obtain ⟨⟨henabled, hstatus⟩, hstopping⟩ := hactive
    have hstatus : g.status = .ready ∨ g.status = .stale := by
      by_cases hready : g.status = .ready
      · exact .inl hready
      · exact .inr (hstatus hready)
    have hnonempty : g.status ≠ .empty := by rcases hstatus with h | h <;> rw [h] <;> decide
    have hsettled : g.status ≠ .rollbackPending := by
      rcases hstatus with h | h <;> rw [h] <;> decide
    refine (findShellcorePid_spec m).seq ?_
    rintro found m₁ ⟨hsilent₁, hfound, -⟩
    have hworld₁ := hsilent₁.world
    rcases hfound with rfl | rfl
    · exact .pure ⟨Outcome.ofSilent hsilent₁ hsound fun h => h.1, nofun⟩
    dsimp only
    split
    · rename_i hpid
      have haway : ¬ Here m.world g := fun h => hpid h.2.symm
      have hneeds := hinstallable ⟨henabled, hstatus, hstopping, fun h => hpid h.symm⟩
      have hold : ¬ Here m₁.world { g with status := .stale } := by
        rw [hworld₁]
        exact fun h => hpid h.2.symm
      have hinstall := installHooksForPid_outcome { g with status := .stale }
        (hworld₁ ▸ hsound.grounded) (hworld₁ ▸ hsound.running haway) (hworld₁ ▸ haway) hold
        (hm.follows hsilent₁) (hneeds.silent hsilent₁)
      rw [hworld₁] at hinstall
      refine hinstall.mono ?_
      rintro result m₂ ⟨houtcome, hok⟩
      exact ⟨houtcome.afterSilent hsilent₁, hok⟩
    · rename_i hpid
      have hhere : Here m.world g := ⟨hnonempty, (not_not.mp hpid).symm⟩
      have howns := hsound.owns hhere
      have hpos : g.hookCount ≠ 0 := (howns.complete hsettled).1 ▸ hookCount_pos c
      have hrecords := (howns.records hpos).1
      have hintact := allInstalled_silent g.recorded m₁ (hworld₁ ▸ hrecords)
        (hworld₁ ▸ howns.originals)
      rw [hworld₁] at hintact
      refine hintact.seq ?_
      intro intact m₂ hsilent₂
      have hsilent := hsilent₁.trans hsilent₂
      have hworld := hsilent.world
      split
      · rename_i hready
        simp only [Bool.and_eq_true, decide_eq_true_eq] at hready
        refine .pure ⟨Outcome.ofSilent hsilent hsound fun h => h.1, fun _ => ?_⟩
        exact ⟨hworld ▸ hhere, hready.1, (howns.complete hsettled).1⟩
      · have hstale : Sound c m.world { g with status := .stale } :=
          ⟨hsound.grounded, fun h => absurd ⟨nofun, hhere.2⟩ h, fun _ => howns.stale hsettled⟩
        refine (remoteProcessAttach_spec m₂ m.world.pid (hm.follows hsilent)).seq ?_
        rintro attached m₃ ⟨hfollows₃, hworld₃, hattach, -⟩
        have hsame : Evolves SameBut m m₃ := hsilent.andThen hfollows₃ rfl
        rw [hworld] at hworld₃ hattach
        cases attached with
        | false =>
          have hchanges : Evolves (Changes c fun _ => False) m m₃ :=
            hsame.mono fun _ hb => hb.changes
          refine .pure ⟨Outcome.unchanged hchanges
            (hstale.unchanged hchanges.world ?_) fun _ => nofun, nofun⟩
          rw [hworld₃]
          rfl
        | true =>
          have hrunning := (hattach rfl).2
          have hrecords₃ : Records c m₃.world { g with status := .stale } := by
            rw [hworld₃]
            exact ⟨hrecords.remote, hrecords.bridge⟩
          have hrepair := attemptRepair_spec (c := c) (m := m₃)
            (g := { g with status := .stale }) hrecords₃ (by rw [hworld₃]; exact howns.originals)
          rw [hworld₃] at hrepair
          refine hrepair.seq ?_
          rintro ⟨ok, attempted⟩ m₄ ⟨hleaves, htried, hinstalled⟩
          have halike₄ := hleaves.world.process_alike
          have hrelease := releaseRepair_spec (c := c) (m := m₄)
            (g := { g with status := .stale }) ok attempted
            (by rw [hleaves.world.stopped, hworld₃]; rfl) (hrecords₃.alike halike₄)
            fun k hk => by
              rw [halike₄.original, hworld₃]
              exact howns.originals k (htried k hk).1
          rw [halike₄.pid, hworld₃] at hrelease
          refine hrelease.mono fun result m₅ hrepaired => ?_
          exact Repaired.outcome (g := { g with status := .stale }) hsound.grounded
            ⟨nofun, hhere.2⟩ (howns.stale hsettled) nofun hrunning hsame hleaves htried
            hinstalled hrepaired

/-- What a removal needs: it cannot tell foreign bytes from its own after a failed rollback,
and it does not look at sites that are not recorded. -/
def Stoppable (c : Console) (p : Process) (g : Hooks) : Prop :=
  (g.status = .rollbackPending → ∀ k ∈ g.recorded, p.foreign k = false) ∧
    ∀ k ∈ hooksOf c, k ∉ g.recorded → p.site c k = p.original c k

/-- A removal from the process that the record is about. -/
theorem Unhooked.outcome (hsound : Sound c m.world g) (hhere : Here m.world g)
    (hstoppable : Stoppable c m.world g) (h : Unhooked c g m g' m') : Outcome c g m g' m' := by
  have howns := hsound.owns hhere
  have hgrounded := hsound.grounded
  have hchanges := h.follows.world
  have halike := hchanges.alike
  have hown : ∀ k, Claimed c m.world g k → m.world.foreign k = false := by
    rintro k ⟨hk, hpending | hpatch⟩
    · exact hstoppable.1 hpending k hk
    · exact hgrounded.own (.inl hpatch)
  have hspares : Evolves (Spares c) m m' := h.follows.mono fun _ hb => hb.spares hown
  have hunrecorded : ∀ k, k ∉ g.recorded → m'.world.site c k = m.world.site c k :=
    fun k hk => hchanges.sites k fun hclaimed => hk hclaimed.1
  have hground : Grounded c m'.world := by
    refine hgrounded.spares hspares.world howns.touched ?_
    by_cases hzero : g.hookCount = 0
    · refine hgrounded.bridged.imp (fun hb => hb.changes hchanges) fun hnone k hk => ?_
      rw [hunrecorded k (by simp [Hooks.recorded, hzero])]
      exact hnone k hk
    · exact .inl ((howns.bridged hzero).changes hchanges)
  -- A record that is kept differs only in its status.
  have hkeeps : g'.status ≠ .empty → Here m'.world g' ∧ g'.recorded = g.recorded := by
    intro hnonempty
    rw [h.record hnonempty]
    refine ⟨⟨hnonempty, ?_⟩, rfl⟩
    rw [halike.pid]
    exact hhere.2
  refine ⟨⟨hground, fun haway => ?_, fun hhere' => ?_⟩, fun k hk => ?_, fun _ hempty k hk => ?_,
    hspares.mono fun _ hb => hb.spared⟩
  · have hempty : g'.status = .empty := by
      by_contra hnonempty
      exact haway (hkeeps hnonempty).1
    exact (h.emptied hempty).1
  · have hrecord := h.record hhere'.1
    have hcount : g'.hookCount = g.hookCount := by rw [hrecord]
    refine ⟨halike.touched.trans howns.touched, h.stopped hhere'.1, fun hzero => ?_,
      fun hne => ?_, fun hne => (howns.bridged (hcount ▸ hne)).changes hchanges,
      hcount ▸ howns.count_le, fun k hk => ?_, fun hsettled => ?_⟩
    · by_contra hsettled
      have hkept := (h.kept hhere'.1 hsettled).1
      exact hsettled (hkept.trans (howns.idle (hcount ▸ hzero)))
    · obtain ⟨hrecords, hbase⟩ := howns.records (hcount ▸ hne)
      rw [hrecord, halike.imageBase]
      exact ⟨Records.alike ⟨hrecords.remote, hrecords.bridge⟩ halike, hbase⟩
    · rw [(hkeeps hhere'.1).2] at hk
      rw [hrecord, halike.original]
      exact howns.originals k hk
    · obtain ⟨hsame, hsites⟩ := h.kept hhere'.1 hsettled
      have hstatus : g.status ≠ .rollbackPending := hsame ▸ hsettled
      obtain ⟨hfull, hcomplete⟩ := howns.complete hstatus
      refine ⟨hcount.trans hfull, fun k hk hflag => ?_⟩
      rw [halike.original, halike.patch]
      rw [halike.foreign] at hflag
      rcases hsites k (by rw [howns.recorded hstatus]; exact hk) with horiginal | hkept
      · exact .inl horiginal
      · rw [hkept]
        exact hcomplete k hk hflag
  · by_cases hrecorded : k ∈ g.recorded
    · refine .inr ?_
      by_cases hempty : g'.status = .empty
      · refine .inl ?_
        rw [halike.original]
        exact (h.emptied hempty).2 k hrecorded
      · obtain ⟨hhere', hsame⟩ := hkeeps hempty
        exact .inr ⟨hhere', hsame ▸ hrecorded⟩
    · exact .inl (hunrecorded k hrecorded)
  · rw [halike.original]
    by_cases hrecorded : k ∈ g.recorded
    · exact (h.emptied hempty).2 k hrecorded
    · rw [hunrecorded k hrecorded]
      exact hstoppable.2 k hk hrecorded

/-- The removal. -/
theorem stopBridgeLocked_outcome (hsound : Sound c m.world g) (hm : Unstuck m)
    (hstoppable : Here m.world g → Stoppable c m.world g) :
    Satisfies (stopBridgeLocked c g) m (Outcome c g m) := by
  by_cases hhere : Here m.world g
  · have howns := hsound.owns hhere
    refine .mono (stopBridgeLocked_spec hm hhere howns.attached howns.idle howns.records
      howns.originals) fun g' m₁ hunhooked => ?_
    exact hunhooked.outcome hsound hhere (hstoppable hhere)
  · refine (stopBridgeLocked_elsewhere hhere).mono ?_
    rintro g' m₁ ⟨hsilent, haway⟩
    exact Outcome.ofSilent hsilent (hsound.elsewhere hhere haway) fun h => absurd h hhere

/-- The first half of a dispatched installation. -/
theorem beginInstallTitleDir_outcome {stopping : Bool} (title dir : List UInt8)
    (hsound : Sound c m.world g) (hm : Unstuck m)
    (hinstallable : Reinstalls stopping m.world g → Installable c m) :
    Satisfies (beginInstallTitleDir c title dir stopping g) m fun result m' =>
      Outcome c g m result.2 m' ∧
        (result.1 = true → result.2.status = .ready ∧ result.2.hookCount = 3) := by
  refine (refreshHooksLocked_outcome hsound hm hinstallable).seq ?_
  rintro ⟨ok, g'⟩ m₁ ⟨houtcome, hready⟩
  dsimp only at houtcome hready ⊢
  split
  · exact .pure ⟨houtcome, nofun⟩
  · rename_i hthree
    simp only [Bool.or_eq_true, Bool.not_eq_true', decide_eq_true_eq, not_or, Bool.not_eq_false,
      not_lt] at hthree
    obtain ⟨hhere, hstatus, hcount⟩ := hready hthree.1
    have hcount3 : g'.hookCount = 3 := by
      have := hookCount_le c
      omega
    have howns := houtcome.sound.owns hhere
    have hpos : g'.hookCount ≠ 0 := by omega
    have hrecords := (howns.records hpos).1
    have harm := armTitleDir_spec hrecords (howns.bridged hpos) howns.count_le hcount3 title dir
    rw [← hhere.2] at harm
    refine harm.seq ?_
    intro armed m₂ hfollows₂
    have halike := hfollows₂.world.process_alike
    cases armed with
    | true => exact .pure ⟨houtcome.leaves hfollows₂, fun _ => ⟨hstatus, hcount3⟩⟩
    | false =>
      have hdisarm := writeArmed_spec (hrecords.alike halike)
        ((howns.bridged hpos).leaves hfollows₂.world) howns.count_le hcount3 0
      rw [halike.pid, ← hhere.2] at hdisarm
      refine hdisarm.seq fun _ m₃ hfollows₃ => ?_
      exact .pure
        ⟨houtcome.leaves (follows_leaves_trans hfollows₂ hfollows₃), nofun⟩

/-- The second half of a dispatched installation: the site of a bridge that cannot be disarmed
must not be another payload's. -/
theorem endInstallTitleDir_outcome (hsound : Sound c m.world g) (hstatus : g.status = .ready)
    (hthree : g.hookCount = 3)
    (hown : Here m.world g → (m.answers m.clock).fault ≠ none → m.world.foreign .install = false) :
    Satisfies (endInstallTitleDir c g) m (Outcome c g m) := by
  have hnonempty : g.status ≠ .empty := by rw [hstatus]; decide
  have hsettled : g.status ≠ .rollbackPending := by rw [hstatus]; decide
  by_cases hhere : Here m.world g
  · have howns := hsound.owns hhere
    have hpos : g.hookCount ≠ 0 := by omega
    obtain ⟨hrecords, hbase⟩ := howns.records hpos
    have hinstall : .install ∈ g.recorded := by
      unfold Hooks.recorded
      rw [hthree]
      decide
    refine .mono (endInstallTitleDir_spec hrecords (howns.bridged hpos) howns.count_le
      hthree (howns.originals .install hinstall)) ?_
    rintro g' m₁ ⟨hfollows, hcases⟩
    have hchanges := hfollows.world.changes
    have halike := hchanges.alike
    have hbridged := (howns.bridged hpos).changes hchanges
    have hspares : Evolves (Spares c) m m₁ :=
      hfollows.mono fun _ hb => hb.spares fun k hk => hk.1 ▸ hown hhere hk.2
    have hstopped : m₁.world.stopped = m.world.stopped := hfollows.world.stopped
    have hground := hsound.grounded.spares hspares.world howns.touched (.inl hbridged)
    -- Whatever the new status is, the rest of the record still describes the process.
    have houtcome : ∀ status, status ≠ .empty →
        (status ≠ .rollbackPending → ∀ k ∈ hooksOf c, m₁.world.foreign k = false →
          m₁.world.site c k = m₁.world.original c k ∨
            m₁.world.patch c k = some (m₁.world.site c k)) →
        Outcome c g m { g with status := status } m₁ := by
      intro status hne hcomplete
      have hhere' : Here m₁.world { g with status := status } :=
        ⟨hne, hhere.2.trans halike.pid.symm⟩
      have howns' : Owns c m₁.world { g with status := status } := by
        refine ⟨halike.touched.trans howns.touched, hstopped.trans howns.attached,
          fun hzero => absurd hzero hpos,
          fun _ => ⟨Records.alike ⟨hrecords.remote, hrecords.bridge⟩ halike, ?_⟩,
          fun _ => hbridged, howns.count_le, fun k hk => ?_,
          fun hs => ⟨(howns.complete hsettled).1, hcomplete hs⟩⟩
        · rw [halike.imageBase]
          exact hbase
        · rw [halike.original]
          exact howns.originals k hk
      refine ⟨⟨hground, fun h => absurd hhere' h, fun _ => howns'⟩,
        fun k hk => .inr (.inr ⟨hhere', ?_⟩), fun _ hempty => absurd hempty hne,
        hspares.mono fun _ hb => hb.spared⟩
      change k ∈ g.recorded
      rw [howns.recorded hsettled]
      exact hk
    have hothers : ∀ k ∈ hooksOf c, m₁.world.foreign k = false →
        m₁.world.site c k = m.world.site c k →
          m₁.world.site c k = m₁.world.original c k ∨
            m₁.world.patch c k = some (m₁.world.site c k) := by
      intro k hk hflag hsame
      rw [halike.foreign] at hflag
      rw [hsame, halike.original, halike.patch]
      exact (howns.complete hsettled).2 k hk hflag
    rcases hcases with ⟨rfl, hsame⟩ | ⟨rfl, hrestored⟩ | rfl
    · exact houtcome g'.status hnonempty fun _ k hk hflag => hothers k hk hflag (hsame k)
    · refine houtcome .stale nofun fun _ k hk hflag => ?_
      by_cases hki : k = .install
      · subst hki
        rw [halike.original]
        exact .inl hrestored
      · exact hothers k hk hflag (hfollows.world.sites k fun hk => hki hk.1)
    · exact houtcome .rollbackPending nofun fun h => absurd rfl h
  · have hpid : m.world.pid ≠ g.remote.pid := fun h => hhere ⟨hnonempty, h.symm⟩
    refine (endInstallTitleDir_elsewhere hpid).mono ?_
    rintro g' m₁ ⟨hsilent, hremote⟩
    refine Outcome.ofSilent hsilent (hsound.elsewhere hhere fun h => hpid ?_)
      fun h => absurd h hhere
    rw [← h.2, hremote]

end ShadowMount.ShellcoreHooks
