import Mathlib.Algebra.Order.Ring.Int
import Mathlib.Data.List.Induction

/-!
# Positional numerals

Numbers as digits of a base, the highest digit first, with a fixed count of digits.  Horner's
rule reads them, repeated division writes them.
-/

namespace ShadowMount.Foundation

/-- The number that digits of a base stand for. -/
def ofDigits (base : Nat) (digits : List Nat) : Nat :=
  digits.foldl (fun n d => n * base + d) 0

/-- The lowest digits of a number, so many of them. -/
def digitsOf (base : Nat) : Nat → Nat → List Nat
  | 0, _ => []
  | count + 1, n => digitsOf base count (n / base) ++ [n % base]

variable {base : Nat} {digits : List Nat}

@[simp]
theorem ofDigits_concat (base : Nat) (digits : List Nat) (d : Nat) :
    ofDigits base (digits ++ [d]) = ofDigits base digits * base + d := by
  simp [ofDigits]

/-- A number of so many digits is below the power of the base. -/
theorem ofDigits_lt (h : ∀ d ∈ digits, d < base) : ofDigits base digits < base ^ digits.length := by
  induction digits using List.reverseRecOn with
  | nil => simp [ofDigits]
  | append_singleton digits d ih =>
    have hd : d < base := h d (by simp)
    have hrest := ih fun d hd => h d (by simp [hd])
    rw [ofDigits_concat, List.length_append, List.length_singleton, Nat.pow_succ]
    calc
      ofDigits base digits * base + d < (ofDigits base digits + 1) * base := by
        rw [Nat.add_mul, Nat.one_mul]
        omega
      _ ≤ base ^ digits.length * base := Nat.mul_le_mul_right base hrest

/-- Dividing takes the lowest digit off again. -/
theorem digitsOf_ofDigits (h : ∀ d ∈ digits, d < base) :
    digitsOf base digits.length (ofDigits base digits) = digits := by
  induction digits using List.reverseRecOn with
  | nil => rfl
  | append_singleton digits d ih =>
    have hd : d < base := h d (by simp)
    have hbase : 0 < base := Nat.zero_lt_of_lt hd
    obtain ⟨hquot, hrem⟩ := (Nat.div_mod_unique hbase (a := ofDigits base digits * base + d)
      (d := ofDigits base digits) (c := d)).mpr ⟨by rw [Nat.mul_comm, Nat.add_comm], hd⟩
    rw [List.length_append, List.length_singleton, digitsOf, ofDigits_concat, hquot, hrem,
      ih fun d hd => h d (by simp [hd])]

theorem digitsOf_zero (base count : Nat) : digitsOf base count 0 = List.replicate count 0 := by
  induction count with
  | zero => rfl
  | succ count ih => rw [digitsOf, Nat.zero_div, Nat.zero_mod, ih, ← List.replicate_succ']

/-- The digits of a number that has no more than so many, printed with zeros before them. -/
theorem leftpad_toDigits {count n : Nat} (hbase : 1 < base) (hcount : 0 < count)
    (h : n < base ^ count) :
    (Nat.toDigits base n).leftpad count '0' = (digitsOf base count n).map Nat.digitChar := by
  induction count generalizing n with
  | zero => cases hcount
  | succ count ih =>
    rw [digitsOf, List.map_append, List.map_singleton]
    rcases Nat.lt_or_ge n base with hsmall | hlarge
    · rw [Nat.toDigits_of_lt_base hsmall, Nat.div_eq_of_lt hsmall, Nat.mod_eq_of_lt hsmall,
        digitsOf_zero, List.map_replicate]
      simp [List.leftpad]
    · have hquot : n / base < base ^ count :=
        Nat.div_lt_of_lt_mul (by rwa [Nat.mul_comm, ← Nat.pow_succ])
      have hpos : 0 < n / base := Nat.div_pos hlarge (by omega)
      have hcount' : 0 < count := by
        rcases Nat.eq_zero_or_pos count with rfl | hcount'
        · simp at hquot
          omega
        · exact hcount'
      rw [Nat.toDigits_of_base_le hbase hlarge, ← ih hcount' hquot]
      have hlength : (Nat.toDigits base (n / base)).length ≤ count :=
        (Nat.length_toDigits_le_iff hbase hcount').mpr hquot
      simp [List.leftpad, ← List.append_assoc]

end ShadowMount.Foundation
