import ShadowMount.Foundation.Interleaving

/-!
# Foundation - Programs of calls at every moment

A program of calls is run by an environment, which answers each call and leads from one state to
another.  There may be several answers, so that calls may fail.  What is shown here of a program
holds for all answers, and at every moment of its runs: also when it is stopped on the way.
-/

namespace ShadowMount.Foundation

variable {Op : Type} {Response : Op → Type} {α β σ : Type}
variable {s : σ} {program : Prog Response α} {post : σ → α → Prop}

/-- Which answers a call can get in a state, and where they lead. -/
abbrev Answering (Response : Op → Type) (σ : Type) := σ → (op : Op) → Response op → σ → Prop

/-- The statement holds at every moment of the program, and the program ends as described. -/
def Ensures (E : Answering Response σ) (I : σ → Prop) :
    σ → Prog Response α → (σ → α → Prop) → Prop
  | s, .done a, post => I s ∧ post s a
  | s, .call op next, post => I s ∧ ∀ r s', E s op r s' → Ensures E I s' (next r) post

variable {E E' : Answering Response σ} {I : σ → Prop}

theorem Ensures.now (h : Ensures E I s program post) : I s := by
  cases program with
  | done a => exact h.1
  | call op next => exact h.1

theorem Ensures.pure {a : α} (hI : I s) (hpost : post s a) :
    Ensures E I s (Pure.pure a : Prog Response α) post :=
  ⟨hI, hpost⟩

/-- The rule of sequential composition. -/
theorem Ensures.bind {next : α → Prog Response β} {post : σ → β → Prop} : ∀ {s : σ},
    Ensures E I s program (fun s' a => Ensures E I s' (next a) post) →
    Ensures E I s (program >>= next) post := by
  induction program with
  | done a =>
    intro s h
    exact h.2
  | call op rest ih =>
    intro s h
    refine ⟨h.1, ?_⟩
    intro r s' hstep
    exact ih r (h.2 r s' hstep)

/-- A weaker result. -/
theorem Ensures.mono {post' : σ → α → Prop} (hpost : ∀ s a, post s a → post' s a) : ∀ {s : σ},
    Ensures E I s program post → Ensures E I s program post' := by
  induction program with
  | done a =>
    intro s h
    exact ⟨h.1, hpost s a h.2⟩
  | call op rest ih =>
    intro s h
    refine ⟨h.1, ?_⟩
    intro r s' hstep
    exact ih r (h.2 r s' hstep)

/-- The statement holds at the end, too. -/
theorem Ensures.atEnd : ∀ {s : σ},
    Ensures E I s program post → Ensures E I s program fun s' a => I s' ∧ post s' a := by
  induction program with
  | done a =>
    intro s h
    exact ⟨h.1, h⟩
  | call op rest ih =>
    intro s h
    refine ⟨h.1, ?_⟩
    intro r s' hstep
    exact ih r (h.2 r s' hstep)

/-- Sequential composition. -/
theorem Ensures.andThen {next : α → Prog Response β} {post : σ → β → Prop} (mid : σ → α → Prop)
    (hprogram : Ensures E I s program mid)
    (hnext : ∀ s' a, I s' → mid s' a → Ensures E I s' (next a) post) :
    Ensures E I s (program >>= next) post :=
  .bind (hprogram.atEnd.mono fun s' a hmid => hnext s' a hmid.1 hmid.2)

theorem Ensures.perform {op : Op} {post : σ → Response op → Prop} (hI : I s)
    (hcall : ∀ r s', E s op r s' → I s' ∧ post s' r) : Ensures E I s (Foundation.perform op) post :=
  ⟨hI, hcall⟩

/-- An environment with fewer answers, and a weaker statement. -/
theorem Ensures.strengthen {J : σ → Prop} (hE : ∀ s op r s', E' s op r s' → E s op r s')
    (hIJ : ∀ s, I s → J s) : ∀ {s : σ},
    Ensures E I s program post → Ensures E' J s program post := by
  induction program with
  | done a =>
    intro s h
    exact ⟨hIJ s h.1, h.2⟩
  | call op rest ih =>
    intro s h
    refine ⟨hIJ s h.1, ?_⟩
    intro r s' hstep
    exact ih r (h.2 r s' (hE s op r s' hstep))

/-- The runs of a program to its end. -/
inductive Run (E : Answering Response σ) : σ → Prog Response α → σ → α → Prop where
  | done (s : σ) (a : α) : Run E s (.done a) s a
  | call {s s' t : σ} {op : Op} {next : Response op → Prog Response α} {r : Response op} {a : α} :
      E s op r s' → Run E s' (next r) t a → Run E s (.call op next) t a

/-- What is ensured at the end of a program holds after its runs. -/
theorem Ensures.run {t : σ} {a : α} (h : Ensures E I s program post) (hrun : Run E s program t a) :
    post t a := by
  induction hrun with
  | done => exact h.2
  | call hstep _ ih => exact ih (h.2 _ _ hstep)

/-- Where every call is answered, a program comes to its end. -/
theorem Run.exists (htotal : ∀ s op, ∃ r s', E s op r s') (program : Prog Response α) (s : σ) :
    ∃ t a, Run E s program t a := by
  induction program generalizing s with
  | done a => exact ⟨s, a, Run.done s a⟩
  | call op next ih =>
    obtain ⟨r, s', hstep⟩ := htotal s op
    obtain ⟨t, a, hrun⟩ := ih r s'
    exact ⟨t, a, Run.call hstep hrun⟩

end ShadowMount.Foundation
