import Mathlib.Logic.Function.Basic

/-!
# Foundation - Programs of calls, and what they hold

A thread is a program that makes calls on shared state.  Between two calls any other
thread may run, so nothing is known about the answer to a call but what every state
allows.  What a thread may rely on is what it holds: a value of a type {lit}`H` that
its calls change, and that says which calls it may make.

A program that follows a protocol in this sense can be checked on its own; what
holding something means for the shared state is a matter of the system that runs the
programs.
-/

namespace ShadowMount.Foundation

variable {Op : Type} {Response : Op → Type} {α β : Type}

/-- A program that makes calls. -/
inductive Prog (Response : Op → Type) (α : Type) where
  | done (a : α)
  | call (op : Op) (next : Response op → Prog Response α)

def Prog.bind : Prog Response α → (α → Prog Response β) → Prog Response β
  | .done a, f => f a
  | .call op next, f => .call op fun r => (next r).bind f

instance : Monad (Prog Response) where
  pure := Prog.done
  bind := Prog.bind

/-- Make one call. -/
def perform (op : Op) : Prog Response (Response op) :=
  .call op Prog.done

/-- Which calls may be made with what in hand, what is in hand afterwards, and which
answers can be given at all. -/
structure Protocol (Response : Op → Type) (H : Type) where
  allowed : H → Op → Prop
  after : H → (op : Op) → Response op → H
  possible : (op : Op) → Response op → Prop

variable {H : Type} {P : Protocol Response H}

/-- The program makes only calls that the protocol allows, and ends as described. -/
def Follows (P : Protocol Response H) :
    H → Prog Response α → (H → α → Prop) → Prop
  | h, .done a, post => post h a
  | h, .call op next, post =>
    P.allowed h op ∧ ∀ r, P.possible op r → Follows P (P.after h op r) (next r) post

theorem Follows.pure {h : H} {a : α} {post : H → α → Prop} (hpost : post h a) :
    Follows P h (Pure.pure a : Prog Response α) post := hpost

variable {program : Prog Response α}

/-- A program in two parts follows a protocol if each part does. -/
theorem Follows.bind {next : α → Prog Response β} {post : H → β → Prop} : ∀ {h : H},
    Follows P h program (fun h' a => Follows P h' (next a) post) →
    Follows P h (program >>= next) post := by
  induction program with
  | done a =>
    intro h hfollows
    exact hfollows
  | call op rest ih =>
    intro h hfollows
    refine ⟨hfollows.1, ?_⟩
    intro r hr
    exact ih r (hfollows.2 r hr)

/-- A weaker description of the end. -/
theorem Follows.mono {post post' : H → α → Prop} (hpost : ∀ h a, post h a → post' h a) :
    ∀ {h : H}, Follows P h program post →
    Follows P h program post' := by
  induction program with
  | done a =>
    intro h hfollows
    exact hpost h a hfollows
  | call op rest ih =>
    intro h hfollows
    refine ⟨hfollows.1, ?_⟩
    intro r hr
    exact ih r (hfollows.2 r hr)

/-- Sequential composition. -/
theorem Follows.andThen {next : α → Prog Response β} {h : H} {post : H → β → Prop}
    (mid : H → α → Prop) (hprogram : Follows P h program mid)
    (hnext : ∀ h' a, mid h' a → Follows P h' (next a) post) : Follows P h (program >>= next) post :=
  .bind (hprogram.mono hnext)

/-- The rule of a call. -/
theorem Follows.perform {h : H} {op : Op} {post : H → Response op → Prop}
    (hallowed : P.allowed h op) (hpost : ∀ r, P.possible op r → post (P.after h op r) r) :
    Follows P h (Foundation.perform op) post :=
  ⟨hallowed, hpost⟩

end ShadowMount.Foundation
