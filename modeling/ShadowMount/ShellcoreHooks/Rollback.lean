import ShadowMount.ShellcoreHooks.Outcomes

/-!
# Rolling the hooks back

Every run of the operations on the hooks, with any pattern of failing calls, crashes, lost
and foreign patches and replaced processes between them.  The program keeps account of what
it has patched: it forgets a process only when the original bytes are back, and a removal can
always be tried again.

This fails at some places.  The recovery of a previous bridge writes original bytes without
a record: when such a write is torn, the site holds neither what it held nor the original
bytes, the process runs on, and nothing is recorded.  A function is taken for the original
one by its first four bytes, so another payload that keeps them is patched over.  When a
rollback is pending, and when a bridge cannot be disarmed, a site is restored without looking
at it.

Main results:

- Theorem {lit}`hooks_roll_back`: in every run that keeps clear of these places, each
  operation accounts for the sites that it changes, and a removal can be tried again.
- Theorem {lit}`torn_recovery_forgotten`: a recovery whose write is torn is forgotten.
-/

namespace ShadowMount.ShellcoreHooks

open Foundation

variable {c : Console} {s t : State} {op : Op} {faults : Nat → Option Fault}

/-- What an operation promises: when the record of a process becomes empty, every site holds
its original bytes; a site that the operation has changed holds its original bytes or is
recorded; and the bytes of another payload are left alone at every moment. -/
structure RollsBack (c : Console) (s : State) (op : Op) (faults : Nat → Option Fault) : Prop where
  restored : Here s.process s.hooks → (s.operate c op faults).hooks.status = .empty →
    ∀ k ∈ hooksOf c,
      (s.operate c op faults).process.site c k = (s.operate c op faults).process.original c k
  owned : ∀ k ∈ hooksOf c,
    (s.operate c op faults).process.site c k = s.process.site c k ∨
      (s.operate c op faults).process.site c k =
        (s.operate c op faults).process.original c k ∨
      (Here (s.operate c op faults).process (s.operate c op faults).hooks ∧
        k ∈ (s.operate c op faults).hooks.recorded)
  spared : ∀ e ∈ (s.perform c op faults).2.log, Spared c s.process e.world

/-- A removal can be tried again: when no call fails it puts the original bytes back, unless
another payload has patched a recorded site. -/
def Removable (c : Console) (s : State) : Prop :=
  Here s.process s.hooks → (∀ k ∈ s.hooks.recorded, s.process.foreign k = false) →
    (s.operate c .stop fun _ => none).hooks.status = .empty ∧
      ∀ k ∈ s.hooks.recorded,
        (s.operate c .stop fun _ => none).process.site c k = s.process.original c k

/-- The steps that keep clear of the places where the promise fails. -/
def Admissible (c : Console) (s : State) : Step → Prop
  | .operate op faults =>
    Unstuck (s.machine faults) ∧
      match op with
      | .start => s.hooks.status = .empty → Installable c (s.machine faults)
      | .refresh stopping =>
        Reinstalls stopping s.process s.hooks → Installable c (s.machine faults)
      | .stop => Here s.process s.hooks → Stoppable c s.process s.hooks
      | .beginTitleDir _ _ stopping =>
        Reinstalls stopping s.process s.hooks → Installable c (s.machine faults)
      | .endTitleDir =>
        Here s.process s.hooks → faults 0 ≠ none → s.process.foreign .install = false
  | _ => True

/-- The invariant, with what holds while the installer runs. -/
structure Holds (c : Console) (s : State) : Prop where
  sound : Sound c s.process s.hooks
  dispatch : s.dispatching = true → s.hooks.status = .ready ∧ s.hooks.hookCount = 3

/-- What a start leaves behind. -/
theorem shellcoreHooksStart_outcome {m : HookMachine} {g : Hooks} (hsound : Sound c m.world g)
    (hm : Unstuck m) (hinstallable : g.status = .empty → Installable c m) :
    Satisfies (shellcoreHooksStart c g) m fun result m' => Outcome c g m result.2 m' := by
  unfold shellcoreHooksStart
  split
  · exact .pure (Outcome.ofSilent (.refl m) hsound fun h => h.1)
  · rename_i hempty
    have hempty : g.status = .empty := not_not.mp hempty
    have haway : ¬ Here m.world g := fun h => h.1 hempty
    refine (findShellcorePid_spec m).seq ?_
    rintro found m₁ ⟨hsilent, hfound, -⟩
    have hworld := hsilent.world
    rcases hfound with rfl | rfl
    · exact .pure (Outcome.ofSilent hsilent
        (hsound.elsewhere haway (not_here_zero _)) fun h => absurd h haway)
    · have hinstall := installHooksForPid_outcome Hooks.zero (hworld ▸ hsound.grounded)
        (hworld ▸ hsound.running haway) (hworld ▸ haway) (not_here_zero _) (hm.follows hsilent)
        ((hinstallable hempty).silent hsilent)
      rw [hworld] at hinstall
      refine hinstall.mono ?_
      rintro result m₂ ⟨houtcome, -⟩
      exact houtcome.afterSilent hsilent

theorem shellcoreHooksRefresh_outcome {m : HookMachine} {g : Hooks} {stopping : Bool}
    (hsound : Sound c m.world g) (hm : Unstuck m)
    (hinstallable : Reinstalls stopping m.world g → Installable c m) :
    Satisfies (shellcoreHooksRefresh c stopping g) m fun result m' =>
      Outcome c g m result.2 m' := by
  unfold shellcoreHooksRefresh
  split
  · exact .pure (Outcome.ofSilent (.refl m) hsound fun h => h.1)
  · exact .mono (refreshHooksLocked_outcome hsound hm hinstallable)
      fun _ _ houtcome => houtcome.1

/-- What every operation leaves behind. -/
theorem Op.outcome (hs : Holds c s) (hop : op = .endTitleDir ↔ s.dispatching = true)
    (hadmissible : Admissible c s (.operate op faults)) :
    Satisfies (op.program c s.hooks) (s.machine faults) fun result m' =>
      Outcome c s.hooks (s.machine faults) result.2 m' ∧
        (result.1 = true → result.2.status = .ready ∧ result.2.hookCount = 3) := by
  obtain ⟨hm, hneeds⟩ := hadmissible
  have hsound : Sound c (s.machine faults).world s.hooks := hs.sound
  cases op with
  | start =>
    refine (shellcoreHooksStart_outcome hsound hm hneeds).seq ?_
    exact fun _ _ houtcome => .pure ⟨houtcome, nofun⟩
  | refresh stopping =>
    refine (shellcoreHooksRefresh_outcome hsound hm hneeds).seq ?_
    exact fun _ _ houtcome => .pure ⟨houtcome, nofun⟩
  | stop =>
    refine (stopBridgeLocked_outcome hsound hm hneeds).seq ?_
    exact fun _ _ houtcome => .pure ⟨houtcome, nofun⟩
  | beginTitleDir title dir stopping =>
    exact beginInstallTitleDir_outcome title dir hsound hm hneeds
  | endTitleDir =>
    obtain ⟨hready, hthree⟩ := hs.dispatch (hop.mp rfl)
    refine (endInstallTitleDir_outcome hsound hready hthree hneeds).seq ?_
    exact fun _ _ houtcome => .pure ⟨houtcome, nofun⟩

theorem Holds.step {i : Step} (hs : Holds c s) (hstep : (system c).step s i t)
    (hadmissible : Admissible c s i) : Holds c t := by
  cases i with
  | operate op faults =>
    obtain ⟨hop, rfl⟩ := hstep
    obtain ⟨houtcome, hready⟩ := Op.outcome hs hop hadmissible
    exact ⟨houtcome.sound, hready⟩
  | crash =>
    obtain rfl : t = s.crash := hstep
    exact ⟨hs.sound.crash, nofun⟩
  | lose h =>
    obtain ⟨htouched, rfl⟩ := hstep
    exact ⟨hs.sound.lose htouched h, hs.dispatch⟩
  | overwrite h bytes =>
    obtain ⟨hlength, hpatch, horiginal, rfl⟩ := hstep
    exact ⟨hs.sound.overwrite hlength hpatch horiginal, hs.dispatch⟩
  | replace p =>
    obtain ⟨hfresh, -, hpid, rfl⟩ := hstep
    exact ⟨.replace hfresh fun hhere => hpid hhere.2.symm, hs.dispatch⟩

theorem Holds.reachable (hs : Reachable ((system c).restrict (Admissible c)) s) : Holds c s := by
  have hinit : ∀ s, ((system c).restrict (Admissible c)).init s → Holds c s := by
    rintro s ⟨hfresh, hzero, hdispatching⟩
    refine ⟨.replace hfresh ?_, fun h => by simp [hdispatching] at h⟩
    rw [hzero]
    exact not_here_zero _
  have hstep : ∀ s i t, Holds c s → ((system c).restrict (Admissible c)).step s i t →
      Holds c t :=
    fun s i t h hi => h.step hi.1 hi.2
  exact hs.invariant hinit hstep

theorem Holds.rollsBack (hs : Holds c s) (hop : op = .endTitleDir ↔ s.dispatching = true)
    (hadmissible : Admissible c s (.operate op faults)) : RollsBack c s op faults := by
  obtain ⟨houtcome, -⟩ := Op.outcome hs hop hadmissible
  refine ⟨houtcome.restored, houtcome.owned, fun e he => ?_⟩
  exact (houtcome.spared.log e he).resolve_left nofun

theorem Holds.removable (hs : Holds c s) : Removable c s := by
  intro hhere hown
  have howns := hs.sound.owns hhere
  have hunhooked : Satisfies (stopBridgeLocked c s.hooks) (s.machine fun _ => none)
      (Unhooked c s.hooks (s.machine fun _ => none)) :=
    stopBridgeLocked_spec (nofun) hhere howns.attached howns.idle
      howns.records howns.originals
  have hempty := hunhooked.success (fun _ => rfl) fun k hk => by
    by_cases hpending : s.hooks.status = .rollbackPending
    · exact .inl hpending
    · refine .inr ((howns.complete hpending).2 k ?_ (hown k hk))
      rw [← howns.recorded hpending]
      exact hk
  exact ⟨hempty, (hunhooked.emptied hempty).2⟩

/-- In every run whose steps are admissible, each operation accounts for the sites that it
changes, and a removal can always be tried again. -/
theorem hooks_roll_back (c : Console) {s : State}
    (hs : Reachable ((system c).restrict (Admissible c)) s) :
    (∀ op faults, (op = .endTitleDir ↔ s.dispatching = true) →
      Admissible c s (.operate op faults) → RollsBack c s op faults) ∧ Removable c s := by
  have hholds := Holds.reachable hs
  exact ⟨fun op faults hop hadmissible => hholds.rollsBack hop hadmissible, hholds.removable⟩

/-- Where the hooks of the bridge begin. -/
def sampleHook : Hook → Nat
  | .launch => 2
  | .sandbox => 10
  | .install => 170

/-- A bridge of 240 bytes. -/
def sampleBlob : Blob where
  code := List.replicate 240 0x90
  baseSize := 160
  hook := sampleHook
  launchTrampoline := 64
  installTrampoline := 200
  sandboxOriginal := 88
  installTitleDir := 172
  installArmed := 171
  imports := [96, 104, 112, 120, 128, 136]
  titleSlots := [180, 188]
  dirSlots := [222, 230]
  size_le := by decide +kernel
  base_le := by decide +kernel
  hook_lt := by intro h; cases h <;> decide +kernel
  sandboxHook_lt := by decide
  trampolinesApart := by decide
  slotsApart := by decide
  armedApart := by decide
  launchInside := by decide
  installInside := by decide +kernel
  slotsInside := by decide +kernel
  armedInside := by decide +kernel

/-- A console with firmware 1.00. -/
def sampleConsole : Console where
  rawFirmware := 0x01000000
  offsets := ⟨0x0100, 0x1127640, 0x9c0, 0x1121e10,
    ⟨0x3465a0, 12⟩, ⟨0x378fbc, 5⟩, ⟨0x1adc50, 12⟩, ⟨0xa05c40, 14⟩⟩
  supported := by decide +kernel
  blob := sampleBlob

/-- The image: the function that launches an application, and the call to the sandbox. -/
def sampleMemory : Memory UInt8 :=
  Memory.write
    (Memory.write (fun _ => 0) (0x400000 + 0x3465a0)
      (expectedFunctionPrologue ++ [1, 2, 3, 4, 5, 6, 7, 8]))
    (0x400000 + 0x378fbc)
    ((buildRelativeCall (0x400000 + 0x378fbc) (0x400000 + 0x1121e10)).getD [])

/-- The process and the program before anything is installed. -/
def sampleState : State where
  process :=
    { pid := 100
      imageBase := 0x400000
      base_lt := by decide
      memory := sampleMemory
      stopped := false
      symbols := fun i => 1000 + i
      before := sampleMemory
      touched := false
      foreign := fun _ => false }
  hooks := Hooks.zero
  dispatching := false

/-- The hooks are installed, and no call fails. -/
def hookedState : State := sampleState.operate sampleConsole .start fun _ => none

theorem sampleState_fresh : sampleState.process.Fresh sampleConsole := by
  refine ⟨rfl, rfl, fun _ => rfl, fun h => ?_⟩
  cases h <;> decide +kernel

theorem start_admissible :
    Admissible sampleConsole sampleState (.operate .start fun _ => none) := by
  refine ⟨?_, fun _ => ⟨nofun, .inl ?_⟩⟩
  · intro _ _ he
    cases he
  · intro _ _ he
    cases he

theorem hookedState_recorded :
    hookedState.hooks.status = .ready ∧
      hookedState.hooks.remote.pid = hookedState.process.pid ∧
      ∀ k ∈ hookedState.hooks.recorded, hookedState.process.foreign k = false := by
  decide +kernel

/-- The first start is an admissible run; from there the hooks can be removed. -/
theorem hooks_roll_back_hooked :
    hookedState.hooks.status = .ready ∧
      (hookedState.operate sampleConsole .stop fun _ => none).hooks.status = .empty ∧
      ∀ k ∈ hookedState.hooks.recorded,
        (hookedState.operate sampleConsole .stop fun _ => none).process.site sampleConsole k =
          hookedState.process.original sampleConsole k := by
  have hinit : Reachable ((system sampleConsole).restrict (Admissible sampleConsole))
      sampleState := .start ⟨sampleState_fresh, rfl, rfl⟩
  have hhooked : Reachable ((system sampleConsole).restrict (Admissible sampleConsole))
      hookedState :=
    hinit.step (i := .operate .start fun _ => none) ⟨⟨by decide, rfl⟩, start_admissible⟩
  obtain ⟨hready, hpid, hforeign⟩ := hookedState_recorded
  have hremovable := (hooks_roll_back sampleConsole hhooked).2
  refine ⟨hready, hremovable ⟨?_, hpid⟩ hforeign⟩
  rw [hready]
  decide

/-- The eighth call, which writes the original bytes back, reaches only their first one. -/
def tornRecovery (n : Nat) : Option Fault :=
  if n = 7 then some ⟨fun _ i => i = 0, false⟩ else none

/-- The start after a crash whose recovery is torn. -/
def tornState : State := hookedState.crash.operate sampleConsole .start tornRecovery

theorem tornState_site :
    tornState.hooks.status = .empty ∧ tornState.process.stopped = false ∧
      tornState.process.site sampleConsole .launch ≠
        hookedState.crash.process.site sampleConsole .launch ∧
      tornState.process.site sampleConsole .launch ≠
        tornState.process.original sampleConsole .launch := by
  decide +kernel

/-- The program was killed with its hooks installed, and the recovery at the next start is
torn: the process runs on with bytes that are neither the original ones nor the patch, and
nothing is recorded. -/
theorem torn_recovery_forgotten :
    Reachable (system sampleConsole) hookedState.crash ∧
      (hookedState.crash.operate sampleConsole .start tornRecovery).hooks.status = .empty ∧
      (hookedState.crash.operate sampleConsole .start tornRecovery).process.stopped = false ∧
      ¬ RollsBack sampleConsole hookedState.crash .start tornRecovery := by
  have hinit : Reachable (system sampleConsole) sampleState :=
    .start ⟨sampleState_fresh, rfl, rfl⟩
  have hhooked : Reachable (system sampleConsole) hookedState :=
    hinit.step (i := .operate .start fun _ => none) ⟨by decide, rfl⟩
  obtain ⟨hempty, hstopped, hchanged, hlost⟩ := tornState_site
  refine ⟨hhooked.step (i := .crash) rfl, hempty, hstopped, fun hrolls => ?_⟩
  rcases hrolls.owned .launch (by decide) with h | h | h
  · exact hchanged h
  · exact hlost h
  · exact h.1.1 hempty

end ShadowMount.ShellcoreHooks
