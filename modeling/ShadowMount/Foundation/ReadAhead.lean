import Mathlib.Data.Fin.Basic
import Mathlib.Logic.Function.Basic

/-!
# Foundation - Reading ahead into two blocks

A reader fills two blocks in turn and a consumer empties them in the same order.  The blocks that
are filled form a queue: a first block, and how many there are.  What matters to the consumer is
what is in the queue, and that the answers in it are those that the source gives when it is asked
one time after the other.
-/

namespace ShadowMount.Foundation

variable {α : Type}

/-- The block behind the filled ones. -/
def tailBlock (head : Fin 2) (pending : Nat) : Fin 2 := head + Fin.ofNat 2 pending

/-- The filled blocks. -/
def queued (blocks : Fin 2 → α) (head : Fin 2) : Nat → List α
  | 0 => []
  | 1 => [blocks head]
  | _ + 2 => [blocks head, blocks (head + 1)]

variable {blocks : Fin 2 → α} {head : Fin 2} {pending : Nat}

/-- The block behind the queue is not in it. -/
theorem queued_update (h : pending ≤ 1) (a : α) :
    queued (Function.update blocks (tailBlock head pending) a) head pending =
      queued blocks head pending := by
  obtain rfl | rfl : pending = 0 ∨ pending = 1 := by omega
  · rfl
  · have hother : head ≠ tailBlock head 1 := by
      revert head
      decide
    simp only [queued, Function.update_of_ne hother]

/-- The block behind the queue is added to it. -/
theorem queued_push (h : pending ≤ 1) :
    queued blocks head (pending + 1) =
      queued blocks head pending ++ [blocks (tailBlock head pending)] := by
  obtain rfl | rfl : pending = 0 ∨ pending = 1 := by omega
  · have hsame : tailBlock head 0 = head := by
      revert head
      decide
    rw [hsame]
    rfl
  · rfl

/-- The first block is taken away. -/
theorem queued_pop (hpos : 1 ≤ pending) (h : pending ≤ 2) :
    queued blocks head pending = blocks head :: queued blocks (head + 1) (pending - 1) := by
  obtain rfl | rfl : pending = 1 ∨ pending = 2 := by omega
  all_goals rfl

theorem queued_tail (hpos : 1 ≤ pending) (h : pending ≤ 2) :
    (queued blocks head pending).tail = queued blocks (head + 1) (pending - 1) := by
  rw [queued_pop hpos h, List.tail_cons]

/-- A block pushed is the last of the unread ones. -/
theorem queued_push_unread {holds : Prop} [Decidable holds] (hpos : holds → 1 ≤ pending)
    (h : pending ≤ 1) :
    (if holds then (queued blocks head (pending + 1)).tail
      else queued blocks head (pending + 1)) =
      (if holds then (queued blocks head pending).tail else queued blocks head pending) ++
        [blocks (tailBlock head pending)] := by
  rw [queued_push h]
  split
  · rename_i hholds
    have hone : pending = 1 := by
      have hsome := hpos hholds
      omega
    rw [hone]
    rfl
  · rfl

theorem mem_getLast?_of_cons {a b : α} {l : List α} (h : b ∈ (a :: l).getLast?) (hne : b ≠ a) :
    b ∈ l.getLast? := by
  cases l with
  | nil => exact absurd (Option.some.inj h).symm hne
  | cons a' l =>
    rw [List.getLast?_cons_cons] at h
    exact h

theorem tailBlock_pop (hpos : 1 ≤ pending) (h : pending ≤ 2) :
    tailBlock (head + 1) (pending - 1) = tailBlock head pending := by
  obtain rfl | rfl : pending = 1 ∨ pending = 2 := by omega
  all_goals
    revert head
    decide

theorem tailBlock_succ (head : Fin 2) (pending : Nat) :
    tailBlock head pending + 1 = tailBlock head (pending + 1) := by
  unfold tailBlock
  rw [Fin.ext_iff]
  simp only [Fin.val_add, Fin.ofNat]
  omega

theorem head_ne_tailBlock (h : pending = 1) : head ≠ tailBlock head pending := by
  subst h
  revert head
  decide

/-- A source is asked at a position, and may be interrupted; an answer moves the position. -/
structure Source (ω π α : Type) where
  ask : ω → π → ω × Option α
  advance : π → α → π

variable {ω π : Type} (S : Source ω π α)

/-- The answers of a source that is asked until it has given so many, interruptions aside. -/
inductive Answers : ω × π → List α → ω × π → Prop where
  | nil (x : ω × π) : Answers x [] x
  | interrupted {w w' : ω} {p : π} {answers : List α} {y : ω × π} :
      S.ask w p = (w', none) → Answers (w', p) answers y → Answers (w, p) answers y
  | answer {w w' : ω} {p : π} {a : α} {answers : List α} {y : ω × π} :
      S.ask w p = (w', some a) → Answers (w', S.advance p a) answers y →
        Answers (w, p) (a :: answers) y

variable {S} {x : ω × π} {answers : List α} {w w' : ω} {p : π} {a : α}

/-- An interruption at the end. -/
theorem Answers.wait (h : Answers S x answers (w, p)) (hask : S.ask w p = (w', none)) :
    Answers S x answers (w', p) := by
  generalize hy : (w, p) = y at h
  induction h with
  | nil x =>
    subst hy
    exact .interrupted hask (.nil _)
  | interrupted hfirst _ ih => exact .interrupted hfirst (ih hy)
  | answer hfirst _ ih => exact .answer hfirst (ih hy)

/-- Another answer at the end. -/
theorem Answers.snoc (h : Answers S x answers (w, p)) (hask : S.ask w p = (w', some a)) :
    Answers S x (answers ++ [a]) (w', S.advance p a) := by
  generalize hy : (w, p) = y at h
  induction h with
  | nil x =>
    subst hy
    exact .answer hask (.nil _)
  | interrupted hfirst _ ih => exact .interrupted hfirst (ih hy)
  | answer hfirst _ ih => exact .answer hfirst (ih hy)

theorem Answers.position {x y : ω × π} (h : Answers S x answers y) :
    y.2 = answers.foldl S.advance x.2 := by
  induction h with
  | nil x => rfl
  | interrupted _ _ ih => exact ih
  | answer _ _ ih => exact ih

/-- Interruptions do not go on forever. -/
def Patient (S : Source ω π α) (patience : ω → π → Nat) : Prop :=
  ∀ {w w' : ω} {p : π}, S.ask w p = (w', none) → patience w' p < patience w p

end ShadowMount.Foundation
