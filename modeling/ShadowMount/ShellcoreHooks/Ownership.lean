import ShadowMount.ShellcoreHooks.Removal

/-!
# What the record says about the process

The invariant of the hooks.  Part of it is about the process alone: another payload's bytes
are neither the original ones nor the program's patch, and where a site holds the patch, the
bridge still holds the bytes that a recovery needs.  The rest ties the record to the process:
a process is stopped exactly when the record says so, the recorded bytes are the original
ones, and unless a rollback is pending every site that no other payload has patched holds
its original bytes or the patch.
-/

namespace ShadowMount.ShellcoreHooks

open Foundation

variable {c : Console} {m m' : HookMachine} {g : Hooks} {p q r : Process}
variable {may may' : Hook → Prop}
variable {k : Hook}

/-- The part of the invariant that is about the process alone. -/
structure Grounded (c : Console) (p : Process) : Prop where
  untouched : p.touched = false →
    (∀ k, p.foreign k = false) ∧ ∀ k, some (p.site c k) ≠ p.patch c k
  unpatched : p.touched = true → ∀ k, some (p.original c k) ≠ p.patch c k
  foreign : ∀ k, p.foreign k = true →
    p.site c k ≠ p.original c k ∧ some (p.site c k) ≠ p.patch c k
  bridged : Bridged c p ∨ ∀ k ∈ hooksOf c, some (p.site c k) ≠ p.patch c k

theorem Grounded.own (h : Grounded c p)
    (hk : p.patch c k = some (p.site c k) ∨ p.site c k = p.original c k) : p.foreign k = false := by
  by_contra hflag
  obtain ⟨horiginal, hpatch⟩ := h.foreign k (by simpa using hflag)
  rcases hk with hk | hk
  · exact hpatch hk.symm
  · exact horiginal hk

/-- A program that leaves foreign sites alone and keeps the bridge. -/
theorem Grounded.spares (h : Grounded c p) (hspares : Spares c p q) (htouched : p.touched = true)
    (hbridged : Bridged c q ∨ ∀ k ∈ hooksOf c, some (q.site c k) ≠ p.patch c k) :
    Grounded c q where
  untouched hq := by
    rw [hspares.alike.touched, htouched] at hq
    cases hq
  unpatched _ k := by
    rw [hspares.alike.original, hspares.alike.patch]
    exact h.unpatched htouched k
  foreign k hk := by
    rw [hspares.alike.foreign] at hk
    rw [hspares.alike.original, hspares.alike.patch, hspares.sites k hk]
    exact h.foreign k hk
  bridged := by
    simp only [hspares.alike.patch]
    exact hbridged

/-- A process that is not changed stays grounded. -/
theorem Grounded.unchanged (h : Grounded c p) (hpq : Changes c (fun _ => False) p q) :
    Grounded c q where
  untouched hq := by
    rw [hpq.alike.touched] at hq
    obtain ⟨hforeign, hsites⟩ := h.untouched hq
    refine ⟨fun k => ?_, fun k => ?_⟩
    · rw [hpq.alike.foreign]
      exact hforeign k
    · rw [hpq.sites k id, hpq.alike.patch]
      exact hsites k
  unpatched hq k := by
    rw [hpq.alike.original, hpq.alike.patch]
    exact h.unpatched (hpq.alike.touched.symm.trans hq) k
  foreign k hk := by
    rw [hpq.alike.foreign] at hk
    rw [hpq.alike.original, hpq.alike.patch, hpq.sites k id]
    exact h.foreign k hk
  bridged := by
    refine h.bridged.imp (fun hb => hb.changes hpq) fun hnone k hk => ?_
    rw [hpq.sites k id, hpq.alike.patch]
    exact hnone k hk

/-- What the record of a process says about it. -/
structure Owns (c : Console) (p : Process) (g : Hooks) : Prop where
  touched : p.touched = true
  attached : p.stopped = g.attached
  idle : g.hookCount = 0 → g.status = .rollbackPending
  records : g.hookCount ≠ 0 → Records c p g ∧ p.imageBase ≠ 0
  bridged : g.hookCount ≠ 0 → Bridged c p
  count_le : g.hookCount ≤ hookCount c
  originals : ∀ k ∈ g.recorded, g.original k = p.original c k
  complete : g.status ≠ .rollbackPending → g.hookCount = hookCount c ∧
    ∀ k ∈ hooksOf c, p.foreign k = false →
      p.site c k = p.original c k ∨ p.patch c k = some (p.site c k)

/-- The invariant. -/
structure Sound (c : Console) (p : Process) (g : Hooks) : Prop where
  grounded : Grounded c p
  running : ¬ Here p g → p.stopped = false
  owns : Here p g → Owns c p g

theorem Owns.recorded (h : Owns c p g) (hstatus : g.status ≠ .rollbackPending) :
    g.recorded = hooksOf c := by
  unfold Hooks.recorded hooksOf
  rw [(h.complete hstatus).1]

theorem mem_hooksOf {n : Nat} (hle : n ≤ hookCount c) (hk : k ∈ hookOrder.take n) : k ∈ hooksOf c :=
  List.take_subset_take_left hookOrder hle hk

/-- A record that is about another process says nothing about this one. -/
theorem Sound.elsewhere {g' : Hooks} (h : Sound c p g) (hg : ¬ Here p g) (hg' : ¬ Here p g') :
    Sound c p g' :=
  ⟨h.grounded, fun _ => h.running hg, fun hhere => absurd hhere hg'⟩

/-- The hooks are found lost. -/
theorem Owns.stale (h : Owns c p g) (hstatus : g.status ≠ .rollbackPending) :
    Owns c p { g with status := .stale } where
  touched := h.touched
  attached := h.attached
  idle hzero := absurd (h.idle hzero) hstatus
  records hcount := ⟨⟨(h.records hcount).1.remote, (h.records hcount).1.bridge⟩,
    (h.records hcount).2⟩
  bridged := h.bridged
  count_le := h.count_le
  originals := h.originals
  complete _ := h.complete hstatus

/-- What is owned stays owned. -/
theorem Owns.unchanged (h : Owns c p g) (hpq : Changes c (fun _ => False) p q)
    (hstopped : q.stopped = p.stopped) : Owns c q g where
  touched := hpq.alike.touched.trans h.touched
  attached := hstopped.trans h.attached
  idle := h.idle
  records hcount := ⟨(h.records hcount).1.alike hpq.alike, by
    rw [hpq.alike.imageBase]
    exact (h.records hcount).2⟩
  bridged hcount := (h.bridged hcount).changes hpq
  count_le := h.count_le
  originals k hk := (h.originals k hk).trans (hpq.alike.original k).symm
  complete hstatus := by
    refine ⟨(h.complete hstatus).1, fun k hk hflag => ?_⟩
    rw [hpq.sites k id, hpq.alike.original, hpq.alike.patch]
    exact (h.complete hstatus).2 k hk (by rw [← hpq.alike.foreign]; exact hflag)

theorem Sound.unchanged (h : Sound c p g) (hpq : Changes c (fun _ => False) p q)
    (hstopped : q.stopped = p.stopped) : Sound c q g where
  grounded := h.grounded.unchanged hpq
  running hg := by
    rw [hstopped]
    exact h.running fun hhere => hg (hhere.alike hpq.alike)
  owns hhere := by
    have hp : Here p g := ⟨hhere.1, hhere.2.trans hpq.alike.pid⟩
    exact (h.owns hp).unchanged hpq hstopped

/-- Something outside the program writes a site. -/
structure Rewritten (c : Console) (h : Hook) (bytes : List UInt8) (flag : Bool)
    (p q : Process) : Prop where
  process : q = { p with memory := q.memory, foreign := Function.update p.foreign h flag }
  leaves : Leaves c (· = h) p { p with memory := q.memory }
  site : q.site c h = bytes

/-- A write over one site. -/
theorem rewritten_write {h : Hook} {bytes : List UInt8} (hlength : bytes.length = siteSize c h)
    (flag : Bool) :
    Rewritten c h bytes flag p { p with
      memory := p.memory.write (p.siteAddress c h) bytes
      foreign := Function.update p.foreign h flag } where
  process := rfl
  leaves := by
    refine Within.leaves_site ⟨rfl, fun x hx => Memory.write_outside ?_⟩
    rw [hlength]
    exact hx
  site := by
    unfold Process.site
    have hread := Memory.read_write_self (m := p.memory) (p.siteAddress c h) bytes
    rw [hlength] at hread
    exact hread

namespace Rewritten

variable {h : Hook} {bytes : List UInt8} {flag : Bool}

theorem other (hpq : Rewritten c h bytes flag p q) (hk : k ≠ h) : q.site c k = p.site c k := by
  have hsite := hpq.leaves.sites k hk
  rw [hpq.process]
  exact hsite

theorem bridged (hpq : Rewritten c h bytes flag p q) (hb : Bridged c p) : Bridged c q := by
  have hbridged := hb.leaves hpq.leaves
  rw [hpq.process]
  exact ⟨hbridged.fits, hbridged.originals, hbridged.trampolines⟩

theorem foreign_other (hpq : Rewritten c h bytes flag p q) (hk : k ≠ h) :
    q.foreign k = p.foreign k := by
  rw [hpq.process]
  exact Function.update_of_ne hk _ _

theorem foreign_self (hpq : Rewritten c h bytes flag p q) : q.foreign h = flag := by
  rw [hpq.process]
  exact Function.update_self _ _ _

theorem original (hpq : Rewritten c h bytes flag p q) (k : Hook) :
    q.original c k = p.original c k := by
  rw [hpq.process]
  rfl

theorem patch (hpq : Rewritten c h bytes flag p q) (k : Hook) : q.patch c k = p.patch c k := by
  rw [hpq.process]
  rfl

theorem touched (hpq : Rewritten c h bytes flag p q) : q.touched = p.touched := by
  rw [hpq.process]

end Rewritten

/-- A rewritten site keeps the invariant when the bytes are not the program's patch, and are
flagged as foreign exactly when they are not the original ones. -/
theorem Sound.rewritten {h : Hook} {bytes : List UInt8} {flag : Bool} (hs : Sound c p g)
    (hpq : Rewritten c h bytes flag p q) (hpatch : some bytes ≠ p.patch c h)
    (hflag : flag = true → p.touched = true ∧ bytes ≠ p.original c h)
    (hclear : p.touched = true → flag = false → bytes = p.original c h) : Sound c q g := by
  have hhere : Here q g ↔ Here p g := by
    rw [hpq.process]
    exact Iff.rfl
  have hsite : ∀ k, k ≠ h ∨ k = h ∧ q.site c k = bytes := by
    intro k
    by_cases hk : k = h
    · subst hk
      exact Or.inr ⟨rfl, hpq.site⟩
    · exact Or.inl hk
  refine ⟨⟨fun hq => ⟨fun k => ?_, fun k => ?_⟩, fun hq k => ?_, fun k hk => ?_, ?_⟩,
    fun hg => ?_, fun hg => ?_⟩
  · rw [hpq.touched] at hq
    by_cases hk : k = h
    · subst hk
      rw [hpq.foreign_self]
      by_contra hflagged
      have htouched := (hflag (by simpa using hflagged)).1
      simp [hq] at htouched
    · rw [hpq.foreign_other hk]
      exact (hs.grounded.untouched hq).1 k
  · rw [hpq.touched] at hq
    rw [hpq.patch]
    rcases hsite k with hk | ⟨rfl, hk⟩
    · rw [hpq.other hk]
      exact (hs.grounded.untouched hq).2 k
    · rw [hk]
      exact hpatch
  · rw [hpq.original, hpq.patch]
    exact hs.grounded.unpatched (hpq.touched.symm.trans hq) k
  · rw [hpq.original, hpq.patch]
    rcases hsite k with hne | ⟨rfl, heq⟩
    · rw [hpq.foreign_other hne] at hk
      rw [hpq.other hne]
      exact hs.grounded.foreign k hk
    · rw [hpq.foreign_self] at hk
      rw [heq]
      exact ⟨(hflag hk).2, hpatch⟩
  · refine hs.grounded.bridged.imp hpq.bridged fun hnone k hk => ?_
    rw [hpq.patch]
    rcases hsite k with hne | ⟨rfl, heq⟩
    · rw [hpq.other hne]
      exact hnone k hk
    · rw [heq]
      exact hpatch
  · rw [hpq.process]
    exact hs.running fun hp => hg (hhere.mpr hp)
  · have howns := hs.owns (hhere.mp hg)
    refine ⟨hpq.touched.trans howns.touched, ?_, howns.idle, fun hcount => ?_,
      fun hcount => hpq.bridged (howns.bridged hcount), howns.count_le, fun k hk => ?_,
      fun hstatus => ⟨(howns.complete hstatus).1, fun k hk hkflag => ?_⟩⟩
    · rw [hpq.process]
      exact howns.attached
    · rw [hpq.process]
      exact ⟨⟨(howns.records hcount).1.remote, (howns.records hcount).1.bridge⟩,
        (howns.records hcount).2⟩
    · rw [hpq.original]
      exact howns.originals k hk
    · rw [hpq.original, hpq.patch]
      rcases hsite k with hne | ⟨rfl, heq⟩
      · rw [hpq.foreign_other hne] at hkflag
        rw [hpq.other hne]
        exact (howns.complete hstatus).2 k hk hkflag
      · rw [hpq.foreign_self] at hkflag
        rw [heq]
        exact Or.inl (hclear howns.touched hkflag)

theorem Sound.lose (hs : Sound c p g) (htouched : p.touched = true) (h : Hook) :
    Sound c (p.lose c h) g :=
  hs.rewritten (rewritten_write (length_original c p h) false) (hs.grounded.unpatched htouched h)
    nofun fun _ _ => rfl

theorem Sound.overwrite (hs : Sound c p g) {h : Hook} {bytes : List UInt8}
    (hlength : bytes.length = siteSize c h) (hpatch : some bytes ≠ p.patch c h)
    (horiginal : p.touched = true → bytes ≠ p.original c h) :
    Sound c (p.overwrite c h bytes) g := by
  refine hs.rewritten (rewritten_write hlength p.touched) hpatch
    (fun ht => ⟨ht, horiginal ht⟩) fun ht hf => ?_
  rw [ht] at hf
  cases hf

/-- A process in which nothing has been installed. -/
theorem Grounded.fresh (h : p.Fresh c) : Grounded c p where
  untouched _ := ⟨h.2.2.1, h.2.2.2⟩
  unpatched ht := by
    rw [h.1] at ht
    cases ht
  foreign k hk := by
    rw [h.2.2.1 k] at hk
    cases hk
  bridged := Or.inr fun k _ => h.2.2.2 k

theorem Sound.replace (hp : p.Fresh c) (hg : ¬ Here p g) : Sound c p g :=
  ⟨Grounded.fresh hp, fun _ => hp.2.1, fun hhere => absurd hhere hg⟩

theorem Sound.crash (hs : Sound c p g) : Sound c { p with stopped := false } Hooks.zero := by
  have hsame : SameBut p { p with stopped := false } := rfl
  exact ⟨hs.grounded.unchanged hsame.changes, fun _ => rfl,
    fun hhere => absurd hhere (not_here_zero _)⟩

end ShadowMount.ShellcoreHooks
