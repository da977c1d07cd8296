import Mathlib.Algebra.Order.Ring.Int

/-!
# Little-endian bytes

Numbers as bytes, the lowest byte first, as machine instructions hold them.
-/

namespace ShadowMount.Foundation

/-- The lowest bytes of a number. -/
def littleEndian (size n : Nat) : List UInt8 :=
  match size with
  | 0 => []
  | size + 1 => UInt8.ofNat n :: littleEndian size (n / 256)

/-- The number that some bytes stand for. -/
def ofLittleEndian (bytes : List UInt8) : Nat :=
  bytes.foldr (fun b n => b.toNat + 256 * n) 0

/-- The form has the given length. -/
@[simp]
theorem length_littleEndian (size n : Nat) : (littleEndian size n).length = size := by
  induction size generalizing n with
  | zero => rfl
  | succ size ih => simp [littleEndian, ih]

/-- The number of so many bytes is below the power of 256. -/
theorem ofLittleEndian_lt (bytes : List UInt8) : ofLittleEndian bytes < 256 ^ bytes.length := by
  induction bytes with
  | nil => decide
  | cons b bytes ih =>
    have hb : b.toNat < 256 := b.toNat_lt
    have hstep : ofLittleEndian (b :: bytes) = b.toNat + 256 * ofLittleEndian bytes := rfl
    rw [hstep, List.length_cons, Nat.pow_succ]
    omega

/-- Reading back the bytes of a number that fits in them. -/
theorem ofLittleEndian_littleEndian {size n : Nat} (h : n < 256 ^ size) :
    ofLittleEndian (littleEndian size n) = n := by
  induction size generalizing n with
  | zero =>
    have hzero : n = 0 := by simpa using h
    rw [hzero]
    rfl
  | succ size ih =>
    have hrest : ofLittleEndian (littleEndian size (n / 256)) = n / 256 :=
      ih (Nat.div_lt_of_lt_mul (by rwa [Nat.pow_succ, Nat.mul_comm] at h))
    have hstep : ofLittleEndian (littleEndian (size + 1) n) =
        (UInt8.ofNat n).toNat + 256 * ofLittleEndian (littleEndian size (n / 256)) := rfl
    have hlow : (UInt8.ofNat n).toNat = n % 256 := UInt8.toNat_ofNat'
    rw [hstep, hrest, hlow]
    exact Nat.mod_add_div n 256

/-- The bytes of the number that some bytes stand for. -/
theorem littleEndian_ofLittleEndian (bytes : List UInt8) :
    littleEndian bytes.length (ofLittleEndian bytes) = bytes := by
  induction bytes with
  | nil => rfl
  | cons b bytes ih =>
    have hb : b.toNat < 256 := b.toNat_lt
    have hstep : ofLittleEndian (b :: bytes) = b.toNat + 256 * ofLittleEndian bytes := rfl
    have hhigh : ofLittleEndian (b :: bytes) / 256 = ofLittleEndian bytes := by omega
    have hlow : UInt8.ofNat (ofLittleEndian (b :: bytes)) = b := by
      refine UInt8.toNat_inj.mp ?_
      have hmod : (UInt8.ofNat (ofLittleEndian (b :: bytes))).toNat =
          ofLittleEndian (b :: bytes) % 256 := UInt8.toNat_ofNat'
      rw [hmod, hstep]
      omega
    rw [List.length_cons, littleEndian, hlow, hhigh, ih]

end ShadowMount.Foundation
