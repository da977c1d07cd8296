import Mathlib.Data.List.Basic

/-!
# Programs whose calls may fail

A program works on a world through calls.  Any call may fail by an injected fault,
whatever the state of the world, and the machine keeps a log of all calls with the
world that each of them left behind.  A statement about every fault pattern is then
one about every sequence of answers, and a statement about every moment of a run is
one about every event of its log.
-/

namespace ShadowMount.Foundation

/-- What the environment answers to a call: an injected fault, and a number for the
calls that report one. -/
structure Answer (ε : Type) where
  fault : Option ε
  count : Nat

/-- A call that was made, its error, and the world after it. -/
structure Event (ω κ ε : Type) where
  call : κ
  error : Option ε
  world : ω

/-- A world, the answers still to come, and the calls made so far, the last one
first. -/
structure Machine (ω κ ε : Type) where
  answers : Nat → Answer ε
  clock : Nat
  world : ω
  log : List (Event ω κ ε)

/-- Programs over a machine. -/
abbrev Exec (ω κ ε α : Type) := StateM (Machine ω κ ε) α

variable {ω κ ε α β : Type}

/-- The machine after a call. -/
def Machine.record (m : Machine ω κ ε) (c : κ) (error : Option ε) (world : ω) : Machine ω κ ε where
  answers := m.answers
  clock := m.clock + 1
  world := world
  log := ⟨c, error, world⟩ :: m.log

/-- Make a call.  It fails by an injected fault, or as the world demands; then the
world stays as it was.  The action is told the number that the environment answers,
and so is the caller. -/
def countedCall (c : κ) (act : Nat → ω → Except ε ω) : Exec ω κ ε (Option ε × Nat) := fun m =>
  let answer := m.answers m.clock
  match answer.fault with
  | some e => ((some e, answer.count), m.record c (some e) m.world)
  | none =>
    match act answer.count m.world with
    | .error e => ((some e, answer.count), m.record c (some e) m.world)
    | .ok world => ((none, answer.count), m.record c none world)

/-- Make a call that reports no number. -/
def call (c : κ) (act : ω → Except ε ω) : Exec ω κ ε (Option ε) := do
  return (← countedCall c fun _ => act).1

/-- Make a call whose failure may leave a trace.  A call that the world refuses leaves
none. -/
def lossyCall (c : κ) (lose : ε → ω → ω) (act : ω → Option ω) : Exec ω κ ε Bool := fun m =>
  match (m.answers m.clock).fault with
  | some e => (false, m.record c (some e) (lose e m.world))
  | none =>
    match act m.world with
    | none => (false, m.record c none m.world)
    | some world => (true, m.record c none world)

/-- Ask the world for something.  The question may fail, and changes nothing. -/
def query (c : κ) (ask : ω → Option α) : Exec ω κ ε (Option α) := fun m =>
  match (m.answers m.clock).fault with
  | some e => (none, m.record c (some e) m.world)
  | none => (ask m.world, m.record c none m.world)

/-- The world as it is. -/
def currentWorld : Exec ω κ ε ω := fun m => (m.world, m)

/-- Run a program on a part of the world.  The rest of the world stays as it is, and the
calls are named as those of the larger program. -/
def zoom {ω' κ' : Type} (get : ω' → ω) (put : ω → ω' → ω') (tag : κ → κ') (program : Exec ω κ ε α) :
    Exec ω' κ' ε α := fun m =>
  let inner := program ⟨m.answers, m.clock, get m.world, []⟩
  (inner.1, {
    answers := m.answers
    clock := inner.2.clock
    world := put inner.2.world m.world
    log := (inner.2.log.map fun e => ⟨tag e.call, e.error, put e.world m.world⟩) ++ m.log })

/-- A program started on a machine ends with a result and a machine as described. -/
def Satisfies (program : Exec ω κ ε α) (m : Machine ω κ ε)
    (post : α → Machine ω κ ε → Prop) : Prop :=
  post (program m).1 (program m).2

variable {m : Machine ω κ ε} {post : α → Machine ω κ ε → Prop}

theorem Satisfies.pure {a : α} (h : post a m) : Satisfies (Pure.pure a) m post := h

variable {program : Exec ω κ ε α}

/-- The rule of sequential composition. -/
theorem Satisfies.bind {next : α → Exec ω κ ε β} {post : β → Machine ω κ ε → Prop}
    (h : Satisfies program m fun a m' => Satisfies (next a) m' post) :
    Satisfies (program >>= next) m post := h

theorem Satisfies.mono {post' : α → Machine ω κ ε → Prop} (h : Satisfies program m post)
    (hpost : ∀ a m', post a m' → post' a m') : Satisfies program m post' :=
  hpost _ _ h

/-- Two descriptions of one run. -/
theorem Satisfies.and {post' : α → Machine ω κ ε → Prop} (h : Satisfies program m post)
    (h' : Satisfies program m post') : Satisfies program m fun a m' => post a m' ∧ post' a m' :=
  ⟨h, h'⟩

/-- Sequential composition through a described intermediate state. -/
theorem Satisfies.andThen {next : α → Exec ω κ ε β} {post : β → Machine ω κ ε → Prop}
    (mid : α → Machine ω κ ε → Prop) (h : Satisfies program m mid)
    (hnext : ∀ a m', mid a m' → Satisfies (next a) m' post) : Satisfies (program >>= next) m post :=
  hnext _ _ h

/-- Sequential composition after a program that is described. -/
theorem Satisfies.seq {next : α → Exec ω κ ε β} {mid : α → Machine ω κ ε → Prop}
    {post : β → Machine ω κ ε → Prop} (h : Satisfies program m mid)
    (hnext : ∀ a m', mid a m' → Satisfies (next a) m' post) : Satisfies (program >>= next) m post :=
  hnext _ _ h

theorem satisfies_currentWorld {post : ω → Machine ω κ ε → Prop} (h : post m.world m) :
    Satisfies currentWorld m post := h

/-- The rule of a call with a count. -/
theorem satisfies_countedCall {c : κ} {act : Nat → ω → Except ε ω} {m : Machine ω κ ε}
    {post : Option ε × Nat → Machine ω κ ε → Prop}
    (hfail : ∀ e count, post (some e, count) (m.record c (some e) m.world))
    (hok : ∀ count world, act count m.world = .ok world →
      post (none, count) (m.record c none world)) :
    Satisfies (countedCall c act) m post := by
  unfold Satisfies countedCall
  simp only
  split
  · exact hfail _ _
  · split
    · exact hfail _ _
    · rename_i world hact
      exact hok _ world hact

/-- The rule of a call that may lose something. -/
theorem satisfies_lossyCall {c : κ} {lose : ε → ω → ω} {act : ω → Option ω}
    {m : Machine ω κ ε} {post : Bool → Machine ω κ ε → Prop}
    (hfault : ∀ e, (m.answers m.clock).fault = some e →
      post false (m.record c (some e) (lose e m.world)))
    (hrefused : act m.world = none → post false (m.record c none m.world))
    (hok : ∀ world, act m.world = some world → post true (m.record c none world)) :
    Satisfies (lossyCall c lose act) m post := by
  unfold Satisfies lossyCall
  split
  · rename_i e he
    exact hfault e he
  · split
    · rename_i hact
      exact hrefused hact
    · rename_i world hact
      exact hok world hact

theorem satisfies_query {c : κ} {ask : ω → Option α} {m : Machine ω κ ε}
    {post : Option α → Machine ω κ ε → Prop}
    (hfault : ∀ e, (m.answers m.clock).fault = some e → post none (m.record c (some e) m.world))
    (hask : post (ask m.world) (m.record c none m.world)) :
    Satisfies (query c ask) m post := by
  unfold Satisfies query
  split
  · rename_i e he
    exact hfault e he
  · exact hask

/-- What one call can do. -/
theorem satisfies_call {c : κ} {act : ω → Except ε ω} {m : Machine ω κ ε}
    {post : Option ε → Machine ω κ ε → Prop}
    (hfail : ∀ e, post (some e) (m.record c (some e) m.world))
    (hok : ∀ world, act m.world = .ok world → post none (m.record c none world)) :
    Satisfies (call c act) m post := by
  refine .bind (satisfies_countedCall ?_ ?_)
  · intro e _
    exact hfail e
  · intro _ world hact
    exact hok world hact

/-- A program that works on a part of the world does there what it does by itself. -/
theorem Satisfies.zoom {ω' κ' : Type} {get : ω' → ω} {put : ω → ω' → ω'} {tag : κ → κ'}
    {m : Machine ω' κ' ε} {inner : α → Machine ω κ ε → Prop} {post : α → Machine ω' κ' ε → Prop}
    (h : Satisfies program ⟨m.answers, m.clock, get m.world, []⟩ inner)
    (hpost : ∀ a n m', inner a n → m'.world = put n.world m.world →
      (∀ e ∈ m'.log, e ∈ m.log ∨ ∃ e' ∈ n.log, e.world = put e'.world m.world) → post a m') :
    Satisfies (Foundation.zoom get put tag program) m post := by
  refine hpost _ _ _ h rfl ?_
  intro e he
  rcases List.mem_append.mp he with he | he
  · obtain ⟨e', he', rfl⟩ := List.mem_map.mp he
    exact .inr ⟨e', he', rfl⟩
  · exact .inl he

/-- A statement about the world now and after every call so far. -/
def Machine.Always (I : ω → Prop) (m : Machine ω κ ε) : Prop :=
  I m.world ∧ ∀ e ∈ m.log, I e.world

theorem Machine.Always.record {I : ω → Prop} {m : Machine ω κ ε} (h : m.Always I) {c : κ}
    {error : Option ε} {world : ω} (hworld : I world) : (m.record c error world).Always I := by
  refine ⟨hworld, ?_⟩
  intro e he
  rcases List.mem_cons.mp he with rfl | he
  · exact hworld
  · exact h.2 e he

theorem Machine.Always.zoom {ω' κ' : Type} {I : ω' → Prop} {put : ω → ω' → ω'}
    {m m' : Machine ω' κ' ε} {n : Machine ω κ ε} (h : m.Always I)
    (hworld : m'.world = put n.world m.world)
    (hlog : ∀ e ∈ m'.log, e ∈ m.log ∨ ∃ e' ∈ n.log, e.world = put e'.world m.world)
    (hput : ∀ w, I (put w m.world)) : m'.Always I := by
  refine ⟨by rw [hworld]; exact hput _, ?_⟩
  intro e he
  rcases hlog e he with he | ⟨e', -, heq⟩
  · exact h.2 e he
  · rw [heq]
    exact hput _

/-- A program led from one machine to another, and the world was related to the first one's
after each of its calls. -/
structure Evolves (R : ω → ω → Prop) (m m' : Machine ω κ ε) : Prop where
  answers : m'.answers = m.answers
  world : R m.world m'.world
  log : ∀ e ∈ m'.log, e ∈ m.log ∨ R m.world e.world

theorem Evolves.refl {R : ω → ω → Prop} {m : Machine ω κ ε} (h : R m.world m.world) :
    Evolves R m m :=
  ⟨rfl, h, fun _ he => .inl he⟩

theorem Evolves.record {R : ω → ω → Prop} {m : Machine ω κ ε} {c : κ} {error : Option ε}
    {world : ω} (h : R m.world world) : Evolves R m (m.record c error world) where
  answers := rfl
  world := h
  log e he := by
    rcases List.mem_cons.mp he with rfl | he
    · exact .inr h
    · exact .inl he

/-- A relation between worlds that holds through two parts of a program holds through both. -/
theorem Evolves.trans {R T S : ω → ω → Prop} {m m' m'' : Machine ω κ ε} (h : Evolves R m m')
    (h' : Evolves T m' m'') (hfirst : ∀ b, R m.world b → S m.world b)
    (hlast : ∀ d, T m'.world d → S m.world d) : Evolves S m m'' where
  answers := h'.answers.trans h.answers
  world := hlast _ h'.world
  log e he := by
    rcases h'.log e he with he | hlate
    · exact (h.log e he).imp_right (hfirst _)
    · exact .inr (hlast _ hlate)

theorem Evolves.mono {R S : ω → ω → Prop} {m m' : Machine ω κ ε} (h : Evolves R m m')
    (hRS : ∀ b, R m.world b → S m.world b) : Evolves S m m' where
  answers := h.answers
  world := hRS _ h.world
  log e he := (h.log e he).imp_right (hRS _)

theorem Evolves.and {R S : ω → ω → Prop} {m m' : Machine ω κ ε} (h : Evolves R m m')
    (h' : Evolves S m m') : Evolves (fun a b => R a b ∧ S a b) m m' where
  answers := h.answers
  world := ⟨h.world, h'.world⟩
  log e he := by
    rcases h.log e he with hearlier | hfirst
    · exact .inl hearlier
    · exact (h'.log e he).imp_right fun hsecond => ⟨hfirst, hsecond⟩

/-- No call fails by a fault. -/
def Machine.Faultless (m : Machine ω κ ε) : Prop := ∀ n, (m.answers n).fault = none

theorem Evolves.faultless {R : ω → ω → Prop} {m m' : Machine ω κ ε} (h : Evolves R m m')
    (hm : m.Faultless) : m'.Faultless := by
  intro n
  rw [h.answers]
  exact hm n

/-- From a world of which the statement holds, it holds after every call of the program, whenever
the answers are of a kind. -/
def Keeps (A : (Nat → Answer ε) → Prop) (I : ω → Prop) (program : Exec ω κ ε α) : Prop :=
  ∀ m : Machine ω κ ε, A m.answers → I m.world →
    Satisfies program m fun _ m' => Evolves (fun _ w => I w) m m'

variable {A : (Nat → Answer ε) → Prop} {I : ω → Prop}

theorem Keeps.pure (a : α) : Keeps A I (Pure.pure a : Exec ω κ ε α) :=
  fun _ _ hI => .refl hI

/-- A statement that two parts of a program keep is kept by both. -/
theorem Keeps.bind {program : Exec ω κ ε α} {next : α → Exec ω κ ε β} (h : Keeps A I program)
    (hnext : ∀ a, Keeps A I (next a)) : Keeps A I (program >>= next) := by
  intro m hA hI
  refine .bind (.mono (h m hA hI) ?_)
  intro a m' hfirst
  refine .mono (hnext a m' (hfirst.answers ▸ hA) hfirst.world) ?_
  intro b m'' hlast
  exact hfirst.trans hlast (fun _ hb => hb) fun _ hd => hd

theorem Keeps.ite {P : Prop} [Decidable P] {program' : Exec ω κ ε α} (h : P → Keeps A I program)
    (h' : ¬ P → Keeps A I program') : Keeps A I (if P then program else program') := by
  split
  next hP => exact h hP
  next hP => exact h' hP

end ShadowMount.Foundation
