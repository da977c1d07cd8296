import Mathlib.Data.Int.Basic
import ShadowMount.Foundation.LittleEndian

/-!
# Jumps and calls as bytes

The instructions of {lit}`sm_shellcore_hooks.c`: the absolute jump that is put over the
beginning of a function, the relative call that is put in the place of another, and the
relative jump that leads back from a trampoline, with the functions that read them back.  A
patch that is read back as a jump into the bridge is byte for byte the one the program
writes.
-/

namespace ShadowMount.ShellcoreHooks

open Foundation

variable {destination source : Nat} {patch jump call : List UInt8}

/-- `SM_SHELLCORE_BRIDGE_ABSOLUTE_JUMP_SIZE`. -/
def absoluteJumpSize : Nat := 12

/-- `SM_SHELLCORE_BRIDGE_RELATIVE_JUMP_SIZE`. -/
def relativeJumpSize : Nat := 5

/-- `SM_SHELLCORE_BRIDGE_MAX_PROLOGUE_SIZE`. -/
def maxHookPrologueSize : Nat := 16

/-- `SM_SHELLCORE_BRIDGE_TRAMPOLINE_SIZE`. -/
def trampolineSize : Nat := maxHookPrologueSize + relativeJumpSize

/-- `build_absolute_jump`. -/
def buildAbsoluteJump (destination : Nat) : List UInt8 :=
  [0x48, 0xb8] ++ littleEndian 8 destination ++ [0xff, 0xe0]

/-- The variable `wide_displacement` of `build_relative_jump`: a signed number of 64
bits, whose sum and difference wrap around. -/
def wideDisplacement (source destination : Nat) : Int :=
  Int.bmod (destination - (source + relativeJumpSize)) (2 ^ 64)

/-- `build_relative_jump`: none when the displacement does not fit in 32 bits. -/
def buildRelativeJump (source destination : Nat) : Option (List UInt8) :=
  let displacement := wideDisplacement source destination
  if -2 ^ 31 ≤ displacement ∧ displacement < 2 ^ 31 then
    some (0xe9 :: littleEndian 4 (displacement % 2 ^ 32).toNat)
  else none

/-- `build_relative_call`. -/
def buildRelativeCall (source destination : Nat) : Option (List UInt8) :=
  (buildRelativeJump source destination).map fun call => 0xe8 :: call.tail

/-- `build_hook_patch`. -/
def buildHookPatch (destination patchSize : Nat) : Option (List UInt8) :=
  if patchSize < absoluteJumpSize ∨ maxHookPrologueSize < patchSize then none
  else some (buildAbsoluteJump destination ++
    List.replicate (patchSize - absoluteJumpSize) 0x90)

/-- `parse_absolute_jump`. -/
def parseAbsoluteJump (patch : List UInt8) : Option Nat :=
  if patch.length < absoluteJumpSize ∨ patch.take 2 ≠ [0x48, 0xb8] ∨
      (patch.drop 10).take 2 ≠ [0xff, 0xe0] then none
  else if (patch.drop absoluteJumpSize).all (· = 0x90) then
    some (ofLittleEndian ((patch.drop 2).take 8))
  else none

/-- The displacement that four bytes stand for. -/
def signedDisplacement (bytes : List UInt8) : Int :=
  if ofLittleEndian bytes < 2 ^ 31 then ofLittleEndian bytes
  else (ofLittleEndian bytes : Int) - 2 ^ 32

/-- The common part of `parse_relative_jump` and `parse_relative_call`. -/
def parseRelative (opcode : UInt8) (bytes : List UInt8) (source : Nat) : Option Nat :=
  if bytes.head? ≠ some opcode then none
  else some (((source + relativeJumpSize : Int) +
    signedDisplacement ((bytes.drop 1).take 4)) % 2 ^ 64).toNat

/-- `parse_relative_jump`. -/
def parseRelativeJump := parseRelative 0xe9

/-- `parse_relative_call`. -/
def parseRelativeCall := parseRelative 0xe8

@[simp]
theorem length_buildAbsoluteJump (destination : Nat) :
    (buildAbsoluteJump destination).length = absoluteJumpSize := by
  simp [buildAbsoluteJump, absoluteJumpSize]

theorem length_buildHookPatch {patchSize : Nat}
    (h : buildHookPatch destination patchSize = some patch) : patch.length = patchSize := by
  unfold buildHookPatch at h
  split at h
  · cases h
  · rename_i hsize
    cases h
    simp only [List.length_append, length_buildAbsoluteJump, List.length_replicate]
    omega

/-- A patch that is parsed as a jump is the one that is built for its destination. -/
theorem buildHookPatch_of_parse (hparse : parseAbsoluteJump patch = some destination)
    (hsize : patch.length ≤ maxHookPrologueSize) :
    buildHookPatch destination patch.length = some patch := by
  unfold parseAbsoluteJump at hparse
  split at hparse
  · cases hparse
  · rename_i hshape
    simp only [not_or, Nat.not_lt, ne_eq, not_not] at hshape
    obtain ⟨hlength, hhead, hjump⟩ := hshape
    split at hparse
    · rename_i hnops
      have hdestination : littleEndian 8 destination = (patch.drop 2).take 8 := by
        rw [← Option.some.inj hparse]
        have hlen : ((patch.drop 2).take 8).length = 8 := by
          simp only [List.length_take, List.length_drop, absoluteJumpSize] at hlength ⊢
          omega
        have hround := littleEndian_ofLittleEndian ((patch.drop 2).take 8)
        rwa [hlen] at hround
      have hrest : patch.drop absoluteJumpSize =
          List.replicate (patch.length - absoluteJumpSize) 0x90 := by
        refine List.eq_replicate_iff.mpr ⟨List.length_drop, fun b hb => ?_⟩
        simpa using List.all_eq_true.mp hnops b hb
      have hsplit : patch = patch.take 2 ++ (patch.drop 2).take 8 ++ (patch.drop 10).take 2 ++
          patch.drop absoluteJumpSize := by
        have h12 : patch.drop 12 = (patch.drop 10).drop 2 := by rw [List.drop_drop]
        have h10 : patch.drop 10 = (patch.drop 2).drop 8 := by rw [List.drop_drop]
        rw [absoluteJumpSize, h12, List.append_assoc, List.take_append_drop, h10,
          List.append_assoc, List.take_append_drop, List.take_append_drop]
      have hfit : ¬ (patch.length < absoluteJumpSize ∨ maxHookPrologueSize < patch.length) := by
        omega
      rw [buildHookPatch, if_neg hfit, buildAbsoluteJump, hdestination, ← hhead, ← hjump, ← hrest,
        ← hsplit]
    · cases hparse

/-- A patch that was built is parsed. -/
theorem parseAbsoluteJump_build {patchSize : Nat}
    (h : buildHookPatch destination patchSize = some patch) (hlt : destination < 2 ^ 64) :
    parseAbsoluteJump patch = some destination := by
  have hlength := length_buildHookPatch h
  unfold buildHookPatch at h
  split at h
  · cases h
  · rename_i hsize
    have hround : ofLittleEndian (littleEndian 8 destination) = destination :=
      ofLittleEndian_littleEndian (by omega)
    obtain ⟨b₀, b₁, b₂, b₃, b₄, b₅, b₆, b₇, hbytes⟩ : ∃ b₀ b₁ b₂ b₃ b₄ b₅ b₆ b₇ : UInt8,
        littleEndian 8 destination = [b₀, b₁, b₂, b₃, b₄, b₅, b₆, b₇] := by
      simp [littleEndian]
    have hpatch := Option.some.inj h
    unfold buildAbsoluteJump at hpatch
    rw [hbytes] at hround hpatch
    unfold parseAbsoluteJump
    rw [if_neg, if_pos]
    · rw [← hpatch, ← hround]
      rfl
    · rw [← hpatch]
      simp [absoluteJumpSize]
    · rw [hlength, ← hpatch]
      simp only [not_or, not_lt] at hsize
      simp [hsize.1]

/-- The displacement is the signed number of 64 bits that leads from behind the instruction to the
destination. -/
theorem wideDisplacement_eq_iff (h : destination < 2 ^ 64) {d : Int} :
    wideDisplacement source destination = d ↔
      (-2 ^ 63 ≤ d ∧ d < 2 ^ 63) ∧
        (((source + relativeJumpSize : Nat) : Int) + d) % 2 ^ 64 = destination := by
  unfold wideDisplacement
  rw [Int.bmod_eq_iff (by decide)]
  simp only [relativeJumpSize]
  omega

theorem length_buildRelativeJump (h : buildRelativeJump source destination = some jump) :
    jump.length = relativeJumpSize := by
  unfold buildRelativeJump at h
  simp only at h
  split at h
  · cases h
    simp [relativeJumpSize]
  · cases h

theorem length_buildRelativeCall (h : buildRelativeCall source destination = some call) :
    call.length = relativeJumpSize := by
  obtain ⟨jump, hjump, rfl⟩ := Option.map_eq_some_iff.mp h
  have hlength := length_buildRelativeJump hjump
  simp only [List.length_cons, List.length_tail, relativeJumpSize] at hlength ⊢
  omega

/-- A near target has a relative call. -/
theorem buildRelativeCall_near (source destination : Nat)
    (h : (destination : Int) - source < 2 ^ 31 ∧ (source : Int) - destination < 2 ^ 31 - 5) :
    ∃ call, buildRelativeCall source destination = some call := by
  have hexact : wideDisplacement source destination =
      (destination : Int) - (source + relativeJumpSize) := by
    unfold wideDisplacement
    rw [Int.bmod_eq_iff (by decide)]
    simp only [relativeJumpSize]
    omega
  have hfits : -2 ^ 31 ≤ wideDisplacement source destination ∧
      wideDisplacement source destination < 2 ^ 31 := by
    rw [hexact]
    simp only [relativeJumpSize]
    omega
  unfold buildRelativeCall buildRelativeJump
  simp only [if_pos hfits, Option.map_some]
  exact ⟨_, rfl⟩

theorem signedDisplacement_littleEndian {displacement : Int} (hlow : -2 ^ 31 ≤ displacement)
    (hhigh : displacement < 2 ^ 31) :
    signedDisplacement (littleEndian 4 (displacement % 2 ^ 32).toNat) = displacement := by
  have hlt : (displacement % 2 ^ 32).toNat < 256 ^ 4 := by omega
  unfold signedDisplacement
  rw [ofLittleEndian_littleEndian hlt]
  split <;> omega

theorem signedDisplacement_range {bytes : List UInt8} (h : bytes.length = 4) :
    -2 ^ 31 ≤ signedDisplacement bytes ∧ signedDisplacement bytes < 2 ^ 31 := by
  have hlt : ofLittleEndian bytes < 256 ^ 4 := by
    rw [← h]
    exact ofLittleEndian_lt bytes
  unfold signedDisplacement
  split <;> constructor <;> omega

theorem littleEndian_signedDisplacement {bytes : List UInt8} (h : bytes.length = 4) :
    littleEndian 4 (signedDisplacement bytes % 2 ^ 32).toNat = bytes := by
  have hlt : ofLittleEndian bytes < 256 ^ 4 := by
    rw [← h]
    exact ofLittleEndian_lt bytes
  have hvalue : (signedDisplacement bytes % 2 ^ 32).toNat = ofLittleEndian bytes := by
    unfold signedDisplacement
    split <;> omega
  rw [hvalue, ← h]
  exact littleEndian_ofLittleEndian bytes

/-- A relative jump is read back. -/
theorem parseRelative_displacement (opcode : UInt8) (hlt : destination < 2 ^ 64)
    (hfits : -2 ^ 31 ≤ wideDisplacement source destination ∧
      wideDisplacement source destination < 2 ^ 31) (rest : List UInt8) :
    parseRelative opcode (opcode :: littleEndian 4
      (wideDisplacement source destination % 2 ^ 32).toNat ++ rest) source = some destination := by
  have hdisplacement := signedDisplacement_littleEndian hfits.1 hfits.2
  have hexact :=
    ((wideDisplacement_eq_iff hlt).mp (Eq.refl (wideDisplacement source destination))).2
  unfold parseRelative
  simp only [List.cons_append, List.head?_cons, ne_eq, not_true_eq_false, if_false,
    List.drop_succ_cons, List.drop_zero, Option.some.injEq]
  rw [List.take_append_of_le_length (by simp), List.take_of_length_le (by simp), hdisplacement]
  push_cast at hexact
  omega

theorem buildRelativeJump_eq_some :
    buildRelativeJump source destination = some jump ↔
      (-2 ^ 31 ≤ wideDisplacement source destination ∧
        wideDisplacement source destination < 2 ^ 31) ∧
      jump = 0xe9 :: littleEndian 4 (wideDisplacement source destination % 2 ^ 32).toNat := by
  unfold buildRelativeJump
  dsimp only
  split
  next hfits =>
    rw [Option.some.injEq, eq_comm]
    exact (and_iff_right hfits).symm
  next hfits =>
    constructor
    · intro hnone
      cases hnone
    · intro hsome
      exact absurd hsome.1 hfits

/-- A jump that was built is parsed, whatever follows it. -/
theorem parseRelativeJump_build (h : buildRelativeJump source destination = some jump)
    (hlt : destination < 2 ^ 64) (rest : List UInt8) :
    parseRelativeJump (jump ++ rest) source = some destination := by
  obtain ⟨hfits, rfl⟩ := buildRelativeJump_eq_some.mp h
  exact parseRelative_displacement 0xe9 hlt hfits rest

/-- A call that was built is parsed. -/
theorem parseRelativeCall_build (h : buildRelativeCall source destination = some call)
    (hlt : destination < 2 ^ 64) : parseRelativeCall call source = some destination := by
  obtain ⟨jump, hjump, rfl⟩ := Option.map_eq_some_iff.mp h
  obtain ⟨hfits, rfl⟩ := buildRelativeJump_eq_some.mp hjump
  have hparse := parseRelative_displacement 0xe8 hlt hfits []
  rwa [List.append_nil] at hparse

/-- A call that is parsed is the one that is built for its destination. -/
theorem buildRelativeCall_of_parse (hparse : parseRelativeCall call source = some destination)
    (hlength : call.length = relativeJumpSize) :
    buildRelativeCall source destination = some call := by
  unfold parseRelativeCall parseRelative at hparse
  split at hparse
  · cases hparse
  · rename_i hopcode
    simp only [ne_eq, not_not] at hopcode
    obtain ⟨rest, rfl⟩ : ∃ rest, call = 0xe8 :: rest := by
      cases call with
      | nil => cases hopcode
      | cons b rest => exact ⟨rest, by rw [Option.some.inj hopcode]⟩
    have hrest : rest.length = 4 := by simpa [relativeJumpSize] using hlength
    have htake : rest.take 4 = rest := List.take_of_length_le (by omega)
    simp only [List.drop_succ_cons, List.drop_zero, htake, Option.some.injEq] at hparse
    obtain ⟨hlow, hhigh⟩ := signedDisplacement_range hrest
    have hexact : wideDisplacement source destination = signedDisplacement rest := by
      apply (wideDisplacement_eq_iff (by omega)).mpr
      push_cast
      omega
    unfold buildRelativeCall
    rw [buildRelativeJump_eq_some.mpr ⟨hexact ▸ ⟨hlow, hhigh⟩, rfl⟩, hexact, Option.map_some,
      List.tail_cons, littleEndian_signedDisplacement hrest]

end ShadowMount.ShellcoreHooks
