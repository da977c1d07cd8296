import ShadowMount.Foundation.Faults

/-!
# Programs that may be stopped after any call

A program leads from one machine to another by a sequence of calls.  When each single
call does what a relation allows, so does each call of a program that was stopped on the
way, and what is kept by every allowed call is kept by a whole run and by a stopped one.
-/

namespace ShadowMount.Foundation

variable {ω κ ε α β : Type}

/-- A machine is reached from another one by calls that are all as a relation allows in
the world before them. -/
inductive Calls (R : ω → Event ω κ ε → Prop) (m : Machine ω κ ε) : Machine ω κ ε → Prop where
  | refl : Calls R m m
  | record {m' : Machine ω κ ε} {c : κ} {error : Option ε} {world : ω} :
      Calls R m m' → R m'.world ⟨c, error, world⟩ → Calls R m (m'.record c error world)

namespace Calls

variable {R S : ω → Event ω κ ε → Prop} {m m' m'' : Machine ω κ ε}

theorem single {c : κ} {error : Option ε} {world : ω} (h : R m.world ⟨c, error, world⟩) :
    Calls R m (m.record c error world) :=
  record refl h

theorem trans (h : Calls R m m') (h' : Calls R m' m'') : Calls R m m'' := by
  induction h' with
  | refl => exact h
  | record _ hcall ih => exact record ih hcall

theorem mono (h : Calls R m m') (hRS : ∀ w e, R w e → S w e) : Calls S m m' := by
  induction h with
  | refl => exact refl
  | record _ hcall ih => exact record ih (hRS _ _ hcall)

/-- The invariant rule.  The invariant may look at the calls made so far. -/
theorem invariant (inv : List (Event ω κ ε) → ω → Prop) (h : Calls R m m')
    (hstart : inv m.log m.world)
    (hcall : ∀ log w e, inv log w → R w e → inv (e :: log) e.world) : inv m'.log m'.world := by
  induction h with
  | refl => exact hstart
  | record _ hR ih => exact hcall _ _ _ ih hR

theorem frame {γ : Type} {f : ω → γ} (h : Calls R m m') (hf : ∀ w e, R w e → f e.world = f w) :
    f m'.world = f m.world :=
  invariant (fun _ w => f w = f m.world) h rfl
    fun _ w e hw hR => (hf w e hR).trans hw

theorem mem_log (h : Calls R m m') {e : Event ω κ ε} (he : e ∈ m.log) : e ∈ m'.log :=
  invariant (fun log _ => e ∈ log) h he fun _ _ _ hmem _ => List.mem_cons_of_mem _ hmem

theorem bind {program : Exec ω κ ε α} {next : α → Exec ω κ ε β}
    (h : Satisfies program m fun _ => Calls R m)
    (hnext : ∀ a m', Calls R m m' → Satisfies (next a) m' fun _ => Calls R m') :
    Satisfies (program >>= next) m fun _ => Calls R m :=
  Satisfies.andThen _ h fun a _ hcalls => (hnext a _ hcalls).mono fun _ _ h' => hcalls.trans h'

end Calls

/-- The world and the log of a run that was stopped after some number of calls. -/
def stopped (w : ω) (log : List (Event ω κ ε)) (n : Nat) : ω × List (Event ω κ ε) :=
  match log.drop (log.length - n) with
  | [] => (w, [])
  | e :: older => (e.world, e :: older)

theorem stopped_cons (w : ω) (e : Event ω κ ε) (log : List (Event ω κ ε)) (n : Nat) :
    stopped w (e :: log) n = (e.world, e :: log) ∨ stopped w (e :: log) n = stopped w log n := by
  by_cases hn : log.length < n
  · left
    have hdrop : (e :: log).length - n = 0 := by
      rw [List.length_cons]
      omega
    simp only [stopped, hdrop, List.drop_zero]
  · right
    have hdrop : (e :: log).length - n = (log.length - n) + 1 := by
      rw [List.length_cons]
      omega
    simp only [stopped, hdrop, List.drop_succ_cons]

/-- A run that was stopped is a shorter run. -/
theorem Calls.stopped {R : ω → Event ω κ ε → Prop} {m m' : Machine ω κ ε} (h : Calls R m m')
    (hlog : m.log = []) (n : Nat) :
    ∃ s, Calls R m s ∧ Foundation.stopped m.world m'.log n = (s.world, s.log) := by
  induction h with
  | refl => exact ⟨m, refl, by simp [Foundation.stopped, hlog]⟩
  | @record m' c error world h hR ih =>
    rcases stopped_cons m.world ⟨c, error, world⟩ m'.log n with hlast | hbefore
    · exact ⟨m'.record c error world, h.record hR, hlast⟩
    · obtain ⟨s, hs, heq⟩ := ih
      exact ⟨s, hs, hbefore.trans heq⟩

end ShadowMount.Foundation
