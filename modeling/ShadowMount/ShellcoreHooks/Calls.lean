import ShadowMount.ShellcoreHooks.Model

/-!
# What the remote calls do to the process

Specifications of the helpers of {lit}`sm_shellcore_hooks.c`.  A helper that only reads
leaves the process as it is; one that writes changes nothing outside its range, not even when
it fails.  Each specification also tells what happens when no call fails, which is what a
removal that is tried again relies on.
-/

namespace ShadowMount.ShellcoreHooks

open Foundation

variable {R : Process → Process → Prop} {pid size a : Nat} {purpose : Purpose}

/-- A machine on the process. -/
abbrev HookMachine := Machine Process Call Fault

variable {m m' : HookMachine}

/-- The process was only looked at. -/
def Silent (m m' : HookMachine) : Prop := Evolves (fun p q => q = p) m m'

theorem Silent.refl (m : HookMachine) : Silent m m := Evolves.refl rfl

theorem Silent.world (h : Silent m m') : m'.world = m.world :=
  Evolves.world (R := fun p q => q = p) h

variable {m'' : HookMachine}

theorem Silent.trans (h : Silent m m') (h' : Silent m' m'') : Silent m m'' :=
  Evolves.trans h h' (fun _ hb => hb) fun _ hd => hd.trans h.world

theorem Silent.andThen (h : Silent m m') (h' : Evolves R m' m'') (hrefl : R m.world m.world) :
    Evolves R m m'' := by
  refine .trans (R := fun p q => q = p) h h' ?_ ?_
  · rintro b rfl
    exact hrefl
  · intro d hd
    rwa [h.world] at hd

theorem Silent.after (h' : Silent m' m'') (h : Evolves R m m') : Evolves R m m'' := by
  refine .trans (T := fun p q => q = p) h h' (fun _ hb => hb) ?_
  rintro d rfl
  exact h.world

theorem remoteProcessRead_spec (m : HookMachine) (pid address size : Nat) :
    Satisfies (remoteProcessRead pid address size) m fun result m' =>
      Silent m m' ∧
        (∀ bytes, result = some bytes → bytes = m.world.memory.read address size) ∧
        (m.Faultless → accessible m.world pid address size = true →
          result = some (m.world.memory.read address size)) := by
  refine satisfies_query ?_ ?_
  · intro e he
    refine ⟨.record rfl, nofun, fun hm => ?_⟩
    rw [hm] at he
    cases he
  · refine ⟨.record rfl, ?_, ?_⟩
    · intro bytes hbytes
      split at hbytes
      · exact (Option.some.inj hbytes).symm
      · cases hbytes
    · intro _ hacc
      rw [if_pos hacc]

/-- A part of accessible bytes is accessible. -/
theorem accessible_part {p : Process} {address k n : Nat} (h : accessible p pid address size = true)
    (hn : n ≠ 0) (hkn : k + n ≤ size) : accessible p pid (address + k) n = true := by
  simp only [accessible, Bool.and_eq_true, decide_eq_true_eq] at h ⊢
  exact ⟨⟨h.1.1, hn⟩, by omega⟩

/-- The chunks are compared without a change. -/
theorem verifyChunks_spec (pid fuel : Nat) :
    ∀ (m : HookMachine) (address : Nat) (expected : List UInt8), expected.length ≤ fuel →
      Satisfies (verifyChunks pid fuel address expected) m fun result m' =>
        Silent m m' ∧
          (result = true → m.world.memory.read address expected.length = expected) ∧
          (m.Faultless → (expected ≠ [] → accessible m.world pid address expected.length = true) →
            m.world.memory.read address expected.length = expected → result = true) := by
  induction fuel with
  | zero =>
    intro m address expected hfuel
    have hnil : expected = [] := List.length_eq_zero_iff.mp (by omega)
    subst hnil
    exact ⟨.refl m, fun _ => rfl, fun _ _ _ => rfl⟩
  | succ fuel ih =>
    intro m address expected hfuel
    unfold verifyChunks
    split
    · rename_i hnil
      subst hnil
      exact ⟨.refl m, fun _ => rfl, fun _ _ _ => rfl⟩
    · rename_i hne
      have hlength : expected.length =
          (expected.take 256).length + (expected.drop 256).length := by
        rw [← List.length_append, List.take_append_drop]
      have hpos : (expected.take 256).length ≠ 0 := by
        have := List.length_pos_iff.mpr hne
        simp only [List.length_take]
        omega
      -- The first chunk is read, and the rest is left to the next turn.
      have hsplit : m.world.memory.read address expected.length = expected ↔
          m.world.memory.read address (expected.take 256).length = expected.take 256 ∧
            m.world.memory.read (address + (expected.take 256).length)
              (expected.drop 256).length = expected.drop 256 := by
        rw [hlength, Memory.read_add]
        constructor
        · intro heq
          exact List.append_inj (heq.trans (List.take_append_drop 256 expected).symm) (by simp)
        · rintro ⟨hfirst, hrest⟩
          rw [hfirst, hrest, List.take_append_drop]
      refine (remoteProcessRead_spec m pid address _).seq ?_
      rintro result m₁ ⟨hsilent, hread, hsuccess⟩
      cases result with
      | none =>
        refine ⟨hsilent, nofun, fun hm hacc _ => ?_⟩
        have := hsuccess hm (by
          have h0 := accessible_part (hacc hne) hpos (k := 0) (by omega)
          simpa using h0)
        cases this
      | some buffer =>
        have hbuffer := hread buffer rfl
        dsimp only
        split
        · rename_i hchunk
          have hrest : (expected.drop 256).length ≤ fuel := by omega
          refine (ih m₁ _ (expected.drop 256) hrest).mono ?_
          rintro result m₂ ⟨hsilent', htrue, hdone⟩
          rw [hsilent.world] at htrue hdone
          refine ⟨hsilent.trans hsilent', fun hr => ?_, fun hm hacc heq => ?_⟩
          · exact hsplit.mpr ⟨hbuffer.symm.trans hchunk, htrue hr⟩
          · refine hdone (hsilent.faultless hm) (fun hne' => ?_) (hsplit.mp heq).2
            exact accessible_part (hacc hne) (by rwa [ne_eq, List.length_eq_zero_iff]) (by omega)
        · rename_i hchunk
          refine ⟨hsilent, nofun, fun _ _ heq => ?_⟩
          exact absurd (hbuffer.trans (hsplit.mp heq).1) hchunk

/-- Bytes that are verified are there. -/
theorem verifyRemoteBytes_spec (m : HookMachine) (pid address : Nat) (expected : List UInt8) :
    Satisfies (verifyRemoteBytes pid address expected) m fun result m' =>
      Silent m m' ∧
        (result = true → m.world.memory.read address expected.length = expected) ∧
        (m.Faultless → (expected ≠ [] → accessible m.world pid address expected.length = true) →
          m.world.memory.read address expected.length = expected → result = true) :=
  verifyChunks_spec pid _ m address expected le_rfl

/-- A comparison changes nothing. -/
theorem verifyRemoteBytes_silent (m : HookMachine) (pid address : Nat) (expected : List UInt8) :
    Satisfies (verifyRemoteBytes pid address expected) m fun _ m' => Silent m m' :=
  (verifyRemoteBytes_spec m pid address expected).mono fun _ _ h => h.1

/-- Only a range of the memory differs. -/
structure Within (a n : Nat) (p q : Process) : Prop where
  alike : q = { p with memory := q.memory }
  outside : ∀ x, x < a ∨ a + n ≤ x → q.memory x = p.memory x

theorem Within.refl (a n : Nat) (p : Process) : Within a n p p :=
  ⟨rfl, fun _ _ => rfl⟩

/-- Bytes apart from a write read as before. -/
theorem Within.read_apart {n b k : Nat} {p q : Process} (h : Within a n p q)
    (hapart : Apart b k a n) : q.memory.read b k = p.memory.read b k := by
  refine Memory.read_congr fun i hi => h.outside (b + i) ?_
  unfold Apart at hapart
  omega

/-- Writes for a purpose reach all of their bytes or none when they fail. -/
def Untorn (purpose : Purpose) (m : HookMachine) : Prop :=
  ∀ n e, (m.answers n).fault = some e → ∃ b, ∀ i, e.torn purpose i = b

/-- Writes for a purpose reach all of their first bytes or none when they fail. -/
def Whole (size : Nat) (purpose : Purpose) (m : HookMachine) : Prop :=
  ∀ n e, (m.answers n).fault = some e → ∃ b, ∀ i < size, e.torn purpose i = b

theorem Untorn.whole (h : Untorn purpose m) (size : Nat) : Whole size purpose m := by
  intro n e he
  obtain ⟨b, hb⟩ := h n e he
  exact ⟨b, fun i _ => hb i⟩

theorem Whole.mono {size' : Nat} (h : Whole size purpose m) (hle : size' ≤ size) :
    Whole size' purpose m := by
  intro n e he
  obtain ⟨b, hb⟩ := h n e he
  exact ⟨b, fun i hi => hb i (by omega)⟩

theorem Whole.follows (hm : Whole size purpose m) (h : Evolves R m m') : Whole size purpose m' := by
  intro n e he
  rw [h.answers] at he
  exact hm n e he

/-- A range holds some bytes, or what it held before. -/
def Written.Either (a : Nat) (bytes : List UInt8) (p q : Process) : Prop :=
  q.memory.read a bytes.length = bytes ∨
    q.memory.read a bytes.length = p.memory.read a bytes.length

/-- What a part of a program that writes some bytes does. -/
structure Written (purpose : Purpose) (pid a : Nat) (bytes : List UInt8) (m : HookMachine)
    (result : Bool) (m' : HookMachine) : Prop where
  follows : Evolves (Within a bytes.length) m m'
  done : result = true → m'.world.memory.read a bytes.length = bytes
  moments : Whole bytes.length purpose m → Evolves (Written.Either a bytes) m m'
  success : m.Faultless → accessible m.world pid a bytes.length = true → result = true

/-- An untorn write is made whole or not at all. -/
theorem Written.untorn {bytes : List UInt8} {result : Bool}
    (h : Written purpose pid a bytes m result m') (hm : Untorn purpose m) :
    Written.Either a bytes m.world m'.world :=
  (h.moments (hm.whole _)).world

theorem Untorn.follows (hm : Untorn purpose m) (h : Evolves R m m') : Untorn purpose m' := by
  intro n e he
  rw [h.answers] at he
  exact hm n e he

/-- What a write to the process does. -/
theorem remoteProcessWrite_spec (m : HookMachine) (purpose : Purpose) (pid a : Nat)
    (bytes : List UInt8) :
    Satisfies (remoteProcessWrite purpose pid a bytes) m (Written purpose pid a bytes m) := by
  refine satisfies_lossyCall ?_ ?_ ?_
  · intro e he
    have hfaulty : m.Faultless → False := fun hm => by simp [hm m.clock] at he
    by_cases hacc : accessible m.world pid a bytes.length = true
    · rw [if_pos hacc]
      refine ⟨.record ⟨rfl, fun x hx => ?_⟩, nofun, fun hm => .record ?_,
        fun hm => (hfaulty hm).elim⟩
      · show Memory.tear _ _ _ _ x = _
        unfold Memory.tear
        split
        · exact Memory.write_outside hx
        · rfl
      · obtain ⟨b, hb⟩ := hm _ e he
        have hwhole := Memory.read_tear_whole (m := m.world.memory) a bytes hb
        cases b with
        | true => exact .inl hwhole
        | false => exact .inr hwhole
    · rw [if_neg hacc]
      exact ⟨.record (Within.refl _ _ _), nofun, fun _ => .record (.inr rfl),
        fun hm => (hfaulty hm).elim⟩
  · intro hrefused
    refine ⟨.record (Within.refl _ _ _), nofun, fun _ => .record (.inr rfl),
      fun _ hacc => ?_⟩
    rw [if_pos hacc] at hrefused
    cases hrefused
  · intro world hact
    split at hact
    · cases hact
      refine ⟨.record ⟨rfl, fun x hx => Memory.write_outside hx⟩,
        fun _ => Memory.read_write_self a bytes,
        fun _ => .record (.inl (Memory.read_write_self a bytes)), fun _ _ => rfl⟩
    · cases hact

theorem Written.thenSilent {bytes : List UInt8} {result result' : Bool}
    (h : Written purpose pid a bytes m result m') (hresult : result = true) (h' : Silent m' m'')
    (hsuccess : m'.Faultless → accessible m'.world pid a bytes.length = true →
      m'.world.memory.read a bytes.length = bytes → result' = true) :
    Written purpose pid a bytes m result' m'' where
  follows := h'.after h.follows
  done _ := by rw [h'.world]; exact h.done hresult
  moments hm := h'.after (h.moments hm)
  success hm hacc := by
    refine hsuccess (h.follows.faultless hm) ?_ (h.done hresult)
    rw [h.follows.world.alike]
    exact hacc

/-- Bytes that are restored are there, and nothing else has changed. -/
theorem restoreRemoteBytes_spec (m : HookMachine) (purpose : Purpose) (pid a : Nat)
    (bytes : List UInt8) :
    Satisfies (restoreRemoteBytes purpose pid a bytes) m (Written purpose pid a bytes m) := by
  refine (remoteProcessWrite_spec m purpose pid a bytes).seq ?_
  intro result m₁ hwritten
  cases result with
  | false => exact hwritten
  | true =>
    refine (verifyRemoteBytes_spec m₁ pid a bytes).mono ?_
    rintro result m₂ ⟨hsilent, -, hverified⟩
    exact hwritten.thenSilent rfl hsilent fun hm hacc hread => hverified hm (fun _ => hacc) hread

/-- No failed attach leaves the process stopped. -/
def Unstuck (m : HookMachine) : Prop :=
  ∀ n e, (m.answers n).fault = some e → e.stuck = false

theorem Unstuck.follows (hm : Unstuck m) (h : Evolves R m m') : Unstuck m' := by
  intro n e he
  rw [h.answers] at he
  exact hm n e he

/-- Nothing but the stop of the process differs. -/
def SameBut (p q : Process) : Prop := q = { p with stopped := q.stopped }

/-- What attaching does. -/
theorem remoteProcessAttach_spec (m : HookMachine) (pid : Nat) (hm : Unstuck m) :
    Satisfies (remoteProcessAttach pid) m fun result m' =>
      Evolves SameBut m m' ∧
        m'.world = { m.world with stopped := result || m.world.stopped } ∧
        (result = true → m.world.pid = pid ∧ m.world.stopped = false) ∧
        (m.Faultless → m.world.pid = pid → m.world.stopped = false → result = true) := by
  refine satisfies_lossyCall ?_ ?_ ?_
  · intro e he
    have hstuck : ¬ (m.world.pid = pid ∧ e.stuck = true) := by simp [hm _ e he]
    rw [if_neg hstuck]
    refine ⟨.record rfl, rfl, nofun, fun hm => ?_⟩
    rw [hm] at he
    cases he
  · intro hrefused
    refine ⟨.record rfl, rfl, nofun, fun _ hpid hstopped => ?_⟩
    simp [hpid, hstopped] at hrefused
  · intro world hact
    split at hact
    · rename_i hcond
      cases hact
      exact ⟨.record rfl, rfl, fun _ => ⟨hcond.1, by simpa using hcond.2⟩,
        fun _ _ _ => rfl⟩
    · cases hact

/-- A detached process runs again, unless the call failed. -/
theorem remoteProcessDetach_spec (m : HookMachine) (pid : Nat) :
    Satisfies (remoteProcessDetach pid) m fun result m' =>
      Evolves SameBut m m' ∧
        m'.world = { m.world with stopped := !result && m.world.stopped } ∧
        (m.Faultless → m.world.pid = pid → m.world.stopped = true → result = true) := by
  refine satisfies_lossyCall ?_ ?_ ?_
  · intro e he
    refine ⟨.record rfl, rfl, fun hm => ?_⟩
    rw [hm] at he
    cases he
  · intro hrefused
    refine ⟨.record rfl, rfl, fun _ hpid hstopped => ?_⟩
    simp [hpid, hstopped] at hrefused
  · intro world hact
    split at hact
    · cases hact
      exact ⟨.record rfl, rfl, fun _ _ _ => rfl⟩
    · cases hact

end ShadowMount.ShellcoreHooks
