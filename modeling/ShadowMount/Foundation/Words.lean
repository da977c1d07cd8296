import Mathlib.Data.Int.Basic
import ShadowMount.Foundation.Checked

/-!
# Arithmetic of words

Sums and differences of unsigned words, once as a machine computes them and once with a fault at
every result that does not fit.  A chain of them may leave the range on its way and come back; the
machine then has the right result although a step of it has wrapped.
-/

namespace ShadowMount.Foundation

/-- How sums and differences are computed. -/
inductive Arithmetic where
  /-- A result that does not fit is a fault. -/
  | strict
  /-- Results are taken modulo the size of a word. -/
  | machine
deriving DecidableEq

namespace Arithmetic

def add : Arithmetic → (width a b : Nat) → Checked Nat
  | strict, width, a, b => Foundation.add width a b
  | machine, width, a, b => .ok ((a + b) % 2 ^ width)

def sub : Arithmetic → (width a b : Nat) → Checked Nat
  | strict, _, a, b => Foundation.sub a b
  | machine, width, a, b => .ok (((a : Int) - b) % 2 ^ width).toNat

/-- The sum of two words less a third one, from left to right.  A result that is not the one of
plain numbers is a fault. -/
def addSub (arith : Arithmetic) (width a b c : Nat) : Checked Nat := do
  let sum ← arith.add width a b
  let difference ← arith.sub width sum c
  if (difference : Int) = a + b - c then pure difference else .error .wrap

end Arithmetic

/-- The machine computes a sum followed by a difference exactly if the result fits, whatever the
sum. -/
theorem Safe.addSub {width a b c : Nat} (hc : c ≤ a + b) (hfits : a + b - c < 2 ^ width) :
    Safe (Arithmetic.machine.addSub width a b c) (· = a + b - c) := by
  have hplain : ((a + b - c : Nat) : Int) = (a : Int) + b - c := by omega
  have hmod :
      ((((a + b) % 2 ^ width : Nat) : Int) - c) % 2 ^ width = ((a + b - c : Nat) : Int) := by
    have hcast : ((a + b - c : Nat) : Int) < ((2 ^ width : Nat) : Int) := Int.ofNat_lt.mpr hfits
    push_cast at hcast ⊢
    rw [Int.emod_sub_emod, ← hplain]
    exact Int.emod_eq_of_lt (by omega) (by exact_mod_cast hcast)
  have hresult : (((((a + b) % 2 ^ width : Nat) : Int) - c) % 2 ^ width).toNat = a + b - c := by
    rw [hmod, Int.toNat_natCast]
  show Safe (if ((((((a + b) % 2 ^ width : Nat) : Int) - c) % 2 ^ width).toNat : Int) = a + b - c
    then Pure.pure _ else .error .wrap) _
  rw [hresult, if_pos hplain]
  exact Safe.pure rfl

end ShadowMount.Foundation
