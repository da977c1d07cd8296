import ShadowMount.Foundation.LittleEndian
import Mathlib.Data.List.Basic

/-!
# Checked steps

Programs over a byte buffer in which a read outside the buffer, a wrapping sum and a write past
the end of a destination are faults.  That a program runs without fault for every input says
that it never does any of them, and then its result is the one it computes with plain numbers.
-/

namespace ShadowMount.Foundation

variable {a start size b : Nat}

abbrev Bytes := List UInt8

/-- What a step can run into. -/
inductive Fault where
  /-- A read outside of the buffer or the file. -/
  | bounds
  /-- A sum or a product that does not fit, or a negative difference. -/
  | wrap
  /-- A text that does not fit its destination with the terminator. -/
  | overrun
deriving DecidableEq

abbrev Checked (α : Type) := Except Fault α

variable {α β : Type}

/-- The bytes of a range, as far as there are any. -/
def slice (data : Bytes) (start size : Nat) : Bytes := (data.drop start).take size

/-- Read a range of a buffer. -/
def readRange (data : Bytes) (start size : Nat) : Checked Bytes :=
  if start + size ≤ data.length then .ok (slice data start size) else .error .bounds

/-- Little-endian numbers. -/
def readU16 (data : Bytes) (start : Nat) : Checked Nat := do
  return ofLittleEndian (← readRange data start 2)

def readU32 (data : Bytes) (start : Nat) : Checked Nat := do
  return ofLittleEndian (← readRange data start 4)

/-- Arithmetic on unsigned numbers of a width. -/
def add (width a b : Nat) : Checked Nat :=
  if a + b < 2 ^ width then .ok (a + b) else .error .wrap

def mul (width a b : Nat) : Checked Nat :=
  if a * b < 2 ^ width then .ok (a * b) else .error .wrap

def sub (a b : Nat) : Checked Nat :=
  if b ≤ a then .ok (a - b) else .error .wrap

/-- Copy bytes to a destination of a size, and terminate them. -/
def copyOut (size : Nat) (bytes : Bytes) : Checked Bytes :=
  if bytes.length < size then .ok bytes else .error .overrun

/-- The program runs without fault, to a result as described. -/
def Safe (m : Checked α) (post : α → Prop) : Prop := ∃ a, m = .ok a ∧ post a

theorem Safe.pure {a : α} {post : α → Prop} (h : post a) : Safe (Pure.pure a) post :=
  ⟨a, rfl, h⟩

/-- The rule of sequential composition. -/
theorem Safe.bind {m : Checked α} {next : α → Checked β} {mid : α → Prop} {post : β → Prop}
    (h : Safe m mid) (hnext : ∀ a, mid a → Safe (next a) post) : Safe (m >>= next) post := by
  obtain ⟨a, rfl, ha⟩ := h
  exact hnext a ha

theorem Safe.mono {m : Checked α} {post post' : α → Prop} (h : Safe m post)
    (hpost : ∀ a, post a → post' a) : Safe m post' := by
  obtain ⟨a, ha, hpost'⟩ := h
  exact ⟨a, ha, hpost a hpost'⟩

variable {data : Bytes}

theorem Safe.readRange (h : start + size ≤ data.length) :
    Safe (readRange data start size) (· = slice data start size) := by
  unfold Foundation.readRange
  rw [if_pos h]
  exact ⟨_, rfl, rfl⟩

theorem Safe.add {width : Nat} (h : a + b < 2 ^ width) : Safe (add width a b) (· = a + b) := by
  unfold Foundation.add
  rw [if_pos h]
  exact ⟨_, rfl, rfl⟩

theorem Safe.mul {width : Nat} (h : a * b < 2 ^ width) : Safe (mul width a b) (· = a * b) := by
  unfold Foundation.mul
  rw [if_pos h]
  exact ⟨_, rfl, rfl⟩

theorem Safe.sub (h : b ≤ a) : Safe (sub a b) (· = a - b) := by
  unfold Foundation.sub
  rw [if_pos h]
  exact ⟨_, rfl, rfl⟩

theorem Safe.copyOut {bytes : Bytes} (h : bytes.length < size) :
    Safe (copyOut size bytes) (· = bytes) := by
  unfold Foundation.copyOut
  rw [if_pos h]
  exact ⟨_, rfl, rfl⟩

/-- The little-endian number in a range. -/
def numberAt (data : Bytes) (start size : Nat) : Nat := ofLittleEndian (slice data start size)

theorem Safe.readU16 (h : start + 2 ≤ data.length) :
    Safe (readU16 data start) (· = numberAt data start 2) := by
  refine .bind (.readRange h) fun bytes hbytes => ?_
  subst hbytes
  exact .pure rfl

/-- To read four bytes is safe when they are there. -/
theorem Safe.readU32 (h : start + 4 ≤ data.length) :
    Safe (readU32 data start) (· = numberAt data start 4) := by
  refine .bind (.readRange h) fun bytes hbytes => ?_
  subst hbytes
  exact .pure rfl

theorem length_slice (h : start + size ≤ data.length) : (slice data start size).length = size := by
  unfold slice
  rw [List.length_take, List.length_drop]
  omega

theorem length_slice_le (data : Bytes) (start size : Nat) :
    (slice data start size).length ≤ size := by
  unfold slice
  exact List.length_take_le size _

/-- A number of so many bytes is below the power of 256. -/
theorem numberAt_lt (data : Bytes) (start size : Nat) :
    numberAt data start size < 256 ^ size :=
  Nat.lt_of_lt_of_le (ofLittleEndian_lt _)
    (Nat.pow_le_pow_right (by decide) (length_slice_le data start size))

theorem numberAt_two_lt (data : Bytes) (start : Nat) : numberAt data start 2 < 65536 :=
  numberAt_lt data start 2

theorem numberAt_four_lt (data : Bytes) (start : Nat) : numberAt data start 4 < 4294967296 :=
  numberAt_lt data start 4

/-- The beginning of a range. -/
theorem take_slice (data : Bytes) (start : Nat) {k : Nat} (h : k ≤ size) :
    (slice data start size).take k = slice data start k := by
  unfold slice
  rw [List.take_take, Nat.min_eq_left h]

end ShadowMount.Foundation
