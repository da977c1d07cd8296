import Mathlib.Logic.Relation
import Mathlib.Order.WellFounded

/-!
# Foundation - Simulations that keep results and termination

A machine that computes its next state, or ends, is compared with a system of several threads that
does the same work in some other order.  Every move of the threads is matched by steps of the
machine, or by none if there is a way down that ends; then the threads reach nothing that the
machine does not reach, and they stop when the machine does.
-/

namespace ShadowMount.Foundation

variable {σ τ : Type}

/-- Some steps of a machine that ends where it has no next state. -/
def Runs (next : τ → Option τ) : τ → τ → Prop :=
  Relation.ReflTransGen fun q q' => next q = some q'

/-- The machine ends in a state. -/
def EndsIn (next : τ → Option τ) (q r : τ) : Prop := Runs next q r ∧ next r = none

variable {next : τ → Option τ} {q q' r r' : τ}

theorem Runs.refl (q : τ) : Runs next q q := Relation.ReflTransGen.refl

theorem Runs.trans (h : Runs next q q') (h' : Runs next q' r) : Runs next q r :=
  Relation.ReflTransGen.trans h h'

theorem Runs.head (h : next q = some q') (h' : Runs next q' r) : Runs next q r :=
  Relation.ReflTransGen.head h h'

/-- A run to an end passes through everything that is reached. -/
theorem EndsIn.of_runs (h : EndsIn next q r) (hruns : Runs next q q') : EndsIn next q' r := by
  induction hruns using Relation.ReflTransGen.head_induction_on with
  | refl => exact h
  | head hstep _ ih =>
    refine ih ⟨?_, h.2⟩
    rcases Relation.ReflTransGen.cases_head h.1 with rfl | ⟨middle, hmiddle, hrest⟩
    · rw [h.2] at hstep
      cases hstep
    · rw [hstep] at hmiddle
      cases hmiddle
      exact hrest

theorem EndsIn.acc (h : EndsIn next q r) : Acc (fun b a => next a = some b) q := by
  obtain ⟨hruns, hend⟩ := h
  induction hruns using Relation.ReflTransGen.head_induction_on with
  | refl =>
    refine Acc.intro _ fun b hb => ?_
    rw [hend] at hb
    cases hb
  | head hstep _ ih =>
    refine Acc.intro _ fun b hb => ?_
    rw [hstep] at hb
    cases hb
    exact ih

theorem wellFounded_heights (height : σ → Nat × Nat) :
    WellFounded fun s' s => Prod.Lex (· < ·) (· < ·) (height s') (height s) :=
  InvImage.wf height (WellFounded.prod_lex Nat.lt_wfRel.wf Nat.lt_wfRel.wf)

/-- Every move is matched by a step of the machine and perhaps more, or it only goes down. -/
structure Simulates (move : σ → σ → Prop) (next : τ → Option τ) (R : σ → τ → Prop)
    (down : σ → σ → Prop) : Prop where
  step : ∀ {s s' : σ} {q : τ}, R s q → move s s' →
    (R s' q ∧ down s s') ∨ ∃ q₁ q', next q = some q₁ ∧ Runs next q₁ q' ∧ R s' q'

variable {move : σ → σ → Prop} {R : σ → τ → Prop} {down : σ → σ → Prop} {s s' : σ}

/-- Whatever the threads reach is matched by what the machine reaches. -/
theorem Simulates.reaches (h : Simulates move next R down) (hs : R s q)
    (hmoves : Relation.ReflTransGen move s s') : ∃ q', Runs next q q' ∧ R s' q' := by
  induction hmoves with
  | refl => exact ⟨q, Runs.refl q, hs⟩
  | tail _ hmove ih =>
    obtain ⟨q', hruns, hrel⟩ := ih
    rcases h.step hrel hmove with ⟨hsame, -⟩ | ⟨q₁, q₂, hfirst, hmore, hrel'⟩
    · exact ⟨q', hruns, hsame⟩
    · exact ⟨q₂, hruns.trans (Runs.head hfirst hmore), hrel'⟩

/-- A simulating system ends where the simulated one does. -/
theorem Simulates.acc (h : Simulates move next R down)
    (hdown : WellFounded fun b a => down a b) (hend : EndsIn next q r) :
    ∀ s, R s q → Acc (fun b a => move a b) s := by
  induction hend.acc.transGen with
  | intro q hq ih =>
    intro s
    -- The machine is further, or the threads are further down.
    induction s using hdown.induction with
    | h s ihs =>
      intro hs
      refine Acc.intro _ fun s' hmove => ?_
      rcases h.step hs hmove with ⟨hsame, hless⟩ | ⟨q₁, q', hfirst, hmore, hrel⟩
      · exact ihs s' hless hsame
      · have hruns : Runs next q q' := Runs.head hfirst hmore
        have hpast : Relation.TransGen (fun a b => next a = some b) q q' :=
          Relation.TransGen.head' hfirst hmore
        exact ih q' (Relation.transGen_swap.mpr hpast) (hend.of_runs hruns) s' hrel

/-- If the machine ends, and the way down does, the threads do not go on forever. -/
theorem Simulates.no_infinite_run (h : Simulates move next R down)
    (hdown : WellFounded fun b a => down a b) (hs : R s q) (hend : EndsIn next q r) :
    ¬ ∃ run : Nat → σ, run 0 = s ∧ ∀ n, move (run n) (run (n + 1)) := by
  have hacc := h.acc hdown hend s hs
  clear hs
  induction hacc with
  | intro s _ ih =>
    rintro ⟨run, rfl, hrun⟩
    exact ih (run 1) (hrun 0) ⟨fun n => run (n + 1), rfl, fun n => hrun (n + 1)⟩

end ShadowMount.Foundation
