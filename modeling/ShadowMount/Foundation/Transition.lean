import Mathlib.Data.List.Basic
import Mathlib.Logic.Relation

/-!
# Foundation - Labelled transition systems and their histories

The stateful components of the program are all studied the same way: a state
type, a type of steps, and a relation saying which step leads where.  This file
fixes that vocabulary once.  An execution is recorded together with its history,
the list of steps taken, each with the state it was taken in, the latest first;
temporal statements about earlier steps then become statements about a list.
-/

namespace ShadowMount.Foundation

variable {σ ι : Type*}

/-- A labelled transition system: its initial states and its steps. -/
structure System (σ ι : Type*) where
  init : σ → Prop
  step : σ → ι → σ → Prop

/-- A system with one initial state whose steps are computed by a function. -/
def System.ofFunction (start : σ) (next : σ → ι → σ) : System σ ι where
  init s := s = start
  step s i t := t = next s i

/-- The part of a system whose steps all meet a condition on the state before
the step and on its label. -/
def System.restrict (M : System σ ι) (guard : σ → ι → Prop) : System σ ι where
  init := M.init
  step s i t := M.step s i t ∧ guard s i

/-- One past step: its label and the state it was taken in. -/
abbrev History (σ ι : Type*) := List (σ × ι)

/-- The executions of a system that end in a given state, with their history,
latest step first. -/
inductive Trace (M : System σ ι) : History σ ι → σ → Prop where
  | start {s : σ} : M.init s → Trace M [] s
  | step {h : History σ ι} {s t : σ} {i : ι} :
      Trace M h s → M.step s i t → Trace M ((s, i) :: h) t

/-- The states some execution reaches. -/
def Reachable (M : System σ ι) (s : σ) : Prop :=
  ∃ h, Trace M h s

/-- A part of an execution, from one state to a later one, with its steps in order. -/
inductive Path (M : System σ ι) : σ → List ι → σ → Prop where
  | refl (s : σ) : Path M s [] s
  | step {s t u : σ} {i : ι} {steps : List ι} :
      M.step s i t → Path M t steps u → Path M s (i :: steps) u

variable {M : System σ ι}

theorem Reachable.start {s : σ} (hs : M.init s) : Reachable M s :=
  ⟨[], .start hs⟩

theorem Reachable.step {s t : σ} {i : ι} (hs : Reachable M s)
    (hstep : M.step s i t) : Reachable M t := by
  obtain ⟨h, htrace⟩ := hs
  exact ⟨(s, i) :: h, .step htrace hstep⟩

/-- A list of steps leads to a reachable state. -/
theorem Reachable.foldl {start : σ} {next : σ → ι → σ} (steps : List ι) :
    Reachable (System.ofFunction start next) (steps.foldl next start) := by
  have hfrom : ∀ s, Reachable (System.ofFunction start next) s →
      Reachable (System.ofFunction start next) (steps.foldl next s) := by
    induction steps with
    | nil => exact fun s hs => hs
    | cons i steps ih => exact fun s hs => ih (next s i) (hs.step rfl)
  exact hfrom start (.start rfl)

/-- So does a list of steps that may fail, when it does not. -/
theorem Reachable.foldlM {next : σ → ι → Option σ}
    (hnext : ∀ s i t, next s i = some t → M.step s i t) {steps : List ι} {s t : σ}
    (hs : Reachable M s) (h : steps.foldlM next s = some t) : Reachable M t := by
  induction steps generalizing s with
  | nil =>
    cases h
    exact hs
  | cons i steps ih =>
    rw [List.foldlM_cons] at h
    obtain ⟨s', hs', hrest⟩ := Option.bind_eq_some_iff.1 h
    exact ih (hs.step (hnext s i s' hs')) hrest

/-- Induction over an execution for a predicate that may look at the history. -/
theorem Trace.historyInvariant {inv : History σ ι → σ → Prop}
    (hinit : ∀ s, M.init s → inv [] s)
    (hstep : ∀ h s i t, Trace M h s → inv h s → M.step s i t → inv ((s, i) :: h) t)
    {h : History σ ι} {s : σ} (htrace : Trace M h s) : inv h s := by
  induction htrace with
  | start hs => exact hinit _ hs
  | step hprev hs ih => exact hstep _ _ _ _ hprev ih hs

/-- A predicate kept by every step holds in every state a trace reaches. -/
theorem Trace.invariant {inv : σ → Prop} (hinit : ∀ s, M.init s → inv s)
    (hstep : ∀ s i t, inv s → M.step s i t → inv t)
    {h : History σ ι} {s : σ} (htrace : Trace M h s) : inv s :=
  Trace.historyInvariant (fun s hs => hinit s hs)
    (fun _ s i t _ hs hst => hstep s i t hs hst) htrace

theorem Reachable.invariant {inv : σ → Prop} (hinit : ∀ s, M.init s → inv s)
    (hstep : ∀ s i t, inv s → M.step s i t → inv t)
    {s : σ} (hs : Reachable M s) : inv s := by
  obtain ⟨h, htrace⟩ := hs
  exact htrace.invariant hinit hstep

/-- A part of an execution that starts in a reachable state ends in one. -/
theorem Path.reachable {s t : σ} {steps : List ι} (hpath : Path M s steps t)
    (hs : Reachable M s) : Reachable M t := by
  induction hpath with
  | refl => exact hs
  | step hstep _ ih => exact ih (hs.step hstep)

theorem Path.foldl {start : σ} {next : σ → ι → σ} (steps : List ι) (s : σ) :
    Path (System.ofFunction start next) s steps (steps.foldl next s) := by
  induction steps generalizing s with
  | nil => exact Path.refl s
  | cons i steps ih => exact Path.step rfl (ih (next s i))

/-- Do all steps of a list meet the condition in the states they are taken in? -/
def Admits (guard : σ → ι → Prop) (next : σ → ι → σ) : σ → List ι → Prop
  | _, [] => True
  | s, i :: steps => guard s i ∧ Admits guard next (next s i) steps

instance Admits.decidable (guard : σ → ι → Prop) [∀ s i, Decidable (guard s i)]
    (next : σ → ι → σ) : ∀ s steps, Decidable (Admits guard next s steps)
  | _, [] => isTrue trivial
  | s, i :: steps =>
    have := Admits.decidable guard next (next s i) steps
    inferInstanceAs (Decidable (guard s i ∧ Admits guard next (next s i) steps))

theorem Path.of_admits {guard : σ → ι → Prop} {start : σ} {next : σ → ι → σ}
    {steps : List ι} {s : σ} (h : Admits guard next s steps) :
    Path ((System.ofFunction start next).restrict guard) s steps (steps.foldl next s) := by
  induction steps generalizing s with
  | nil => exact Path.refl s
  | cons i steps ih => exact Path.step ⟨rfl, h.1⟩ (ih h.2)

/-- Steps that all meet a condition under which they are steps of the system lead from
a reachable state to one. -/
theorem Reachable.of_admits {guard : σ → ι → Prop} {next : σ → ι → σ}
    (hstep : ∀ s i, guard s i → M.step s i (next s i)) {steps : List ι} {s : σ}
    (hs : Reachable M s) (h : Admits guard next s steps) :
    Reachable M (steps.foldl next s) := by
  induction steps generalizing s with
  | nil => exact hs
  | cons i steps ih => exact ih (hs.step (hstep s i h.1)) h.2

theorem Trace.of_restrict {guard : σ → ι → Prop} {h : History σ ι} {s : σ}
    (htrace : Trace (M.restrict guard) h s) : Trace M h s := by
  induction htrace with
  | start hs => exact .start hs
  | step _ hs ih => exact .step ih hs.1

theorem Reachable.restrict_mono {guard guard' : σ → ι → Prop}
    (hguard : ∀ s i, guard s i → guard' s i) {s : σ} (h : Reachable (M.restrict guard) s) :
    Reachable (M.restrict guard') s := by
  rcases h with ⟨history, htrace⟩
  induction htrace with
  | start hs => exact .start hs
  | step _ hs ih => exact ih.step ⟨hs.1, hguard _ _ hs.2⟩

end ShadowMount.Foundation
