import ShadowMount.PkgWs.Model

/-!
# Frames

The frames that a client may send, how they are written, and what the decoder makes of any part
of their bytes.
-/

namespace ShadowMount.PkgWs

open Foundation

variable {data : Bytes}

inductive Opcode where
  | continuation | text | binary | close | ping | pong
deriving DecidableEq

def Opcode.code : Opcode → Nat
  | .continuation => 0
  | .text => 1
  | .binary => 2
  | .close => 8
  | .ping => 9
  | .pong => 10

/-- Control frames may come between the fragments of a message. -/
def Opcode.control : Opcode → Bool
  | .continuation | .text | .binary => false
  | .close | .ping | .pong => true

/-- A frame: the last fragment of its message or not, the mask and the payload before masking. -/
structure Frame where
  fin : Bool
  opcode : Opcode
  mask : Bytes
  payload : Bytes
deriving DecidableEq

/-- A frame that a client may send. -/
structure Frame.WellFormed (f : Frame) : Prop where
  mask : f.mask.length = 4
  limit : f.payload.length ≤ messageMax
  control : f.opcode.control = true → f.fin = true ∧ f.payload.length ≤ 125
  close : f.opcode = .close → f.payload.length ≠ 1

/-- The first byte. -/
def Frame.first (f : Frame) : UInt8 := UInt8.ofNat ((if f.fin then 128 else 0) + f.opcode.code)

/-- The second byte, and the field for a long length. -/
def lengthField (n : Nat) : UInt8 × Bytes :=
  if n < 126 then (UInt8.ofNat (128 + n), [])
  else if n ≤ 65535 then (254, (littleEndian 2 n).reverse)
  else (255, (littleEndian 8 n).reverse)

/-- The header of a frame, up to the mask. -/
def Frame.header (f : Frame) : Bytes :=
  f.first :: (lengthField f.payload.length).1 :: (lengthField f.payload.length).2

/-- The bytes of a frame. -/
def Frame.encode (f : Frame) : Bytes := f.header ++ f.mask ++ unmask f.mask f.payload

@[simp]
theorem length_unmask (mask payload : Bytes) : (unmask mask payload).length = payload.length := by
  simp [unmask]

theorem unmask_unmask (mask payload : Bytes) : unmask mask (unmask mask payload) = payload := by
  unfold unmask
  refine List.ext_getElem (by simp) fun i h₁ h₂ => ?_
  simp only [List.getElem_mapIdx]
  rw [UInt8.xor_assoc, UInt8.xor_self, UInt8.xor_zero]

theorem bigEndian_eq (field : Bytes) : bigEndian field = ofLittleEndian field.reverse := by
  have hfold : ∀ (l : Bytes) (n : Nat),
      l.foldl (fun n b => n * 256 + b.toNat) n =
        l.reverse.foldr (fun b n => b.toNat + 256 * n) n := by
    intro l
    induction l with
    | nil => exact fun n => rfl
    | cons b l ih =>
      intro n
      rw [List.foldl_cons, ih, List.reverse_cons, List.foldr_append]
      have hstep : n * 256 + b.toNat = b.toNat + 256 * n := by omega
      rw [hstep]
      rfl
  exact hfold field 0

theorem bigEndian_reverse {size n : Nat} (h : n < 256 ^ size) :
    bigEndian (littleEndian size n).reverse = n := by
  rw [bigEndian_eq, List.reverse_reverse, ofLittleEndian_littleEndian h]

theorem toNat_short {n : Nat} (h : n < 126) : (UInt8.ofNat (128 + n) &&& 127).toNat = n := by
  revert h
  revert n
  decide

theorem maskBit_lengthField (n : Nat) : (lengthField n).1 &&& 0x80 ≠ 0 := by
  unfold lengthField
  split
  · rename_i h
    revert h
    revert n
    decide
  · split
    · exact (by decide : (254 : UInt8) &&& 0x80 ≠ 0)
    · exact (by decide : (255 : UInt8) &&& 0x80 ≠ 0)

theorem length_header (f : Frame) :
    f.header.length = 2 + (lengthField f.payload.length).2.length := by
  unfold Frame.header
  simp only [List.length_cons]
  omega

variable {f : Frame}

theorem length_encode (h : f.WellFormed) :
    f.encode.length = f.header.length + 4 + f.payload.length := by
  simp only [Frame.encode, List.length_append, length_unmask, h.mask]

/-- The length is read back from the header. -/
theorem readLength_header (h : f.WellFormed) (tail : Bytes) :
    readLength (f.header ++ tail) = .known f.payload.length f.header.length := by
  have hlimit : f.payload.length < 256 ^ 8 := by
    have hmax := h.limit
    have hvalue : messageMax = 1048584 := rfl
    omega
  rw [length_header]
  unfold readLength Frame.header lengthField
  split
  · rename_i hshort
    have hcount := toNat_short hshort
    simp only [List.cons_append, List.getD_cons_succ, List.getD_cons_zero, hcount]
    rw [if_neg (by omega), if_neg (by omega)]
    rfl
  · rename_i hlong
    split
    · rename_i hmiddle
      have hread := @bigEndian_reverse 2 f.payload.length (by omega)
      have hfield : ((littleEndian 2 f.payload.length).reverse ++ tail).take 2 =
          (littleEndian 2 f.payload.length).reverse := by
        rw [List.take_append_of_le_length (by simp), List.take_of_length_le (by simp)]
      simp only [List.cons_append, List.getD_cons_succ, List.getD_cons_zero, List.drop_succ_cons,
        List.drop_zero, hfield, hread]
      rw [if_pos (by decide), if_neg (by simp), if_neg hlong]
      simp
    · rename_i hlong'
      have hread := @bigEndian_reverse 8 f.payload.length hlimit
      have hfield : ((littleEndian 8 f.payload.length).reverse ++ tail).take 8 =
          (littleEndian 8 f.payload.length).reverse := by
        rw [List.take_append_of_le_length (by simp), List.take_of_length_le (by simp)]
      simp only [List.cons_append, List.getD_cons_succ, List.getD_cons_zero, List.drop_succ_cons,
        List.drop_zero, hfield, hread]
      rw [if_neg (by decide), if_pos (by decide), if_neg (by simp), if_neg hlong']
      simp

theorem getD_of_isPrefix {whole : Bytes} (h : data <+: whole) {i : Nat} (hi : i < data.length) :
    data.getD i 0 = whole.getD i 0 := by
  obtain ⟨tail, rfl⟩ := h
  rw [List.getD_eq_getElem?_getD, List.getD_eq_getElem?_getD, List.getElem?_append_left hi]

/-- A header that is cut is incomplete. -/
theorem readLength_cut (hpart : data <+: f.header) (htwo : 2 ≤ data.length)
    (hcut : data.length < f.header.length) : readLength data = .incomplete := by
  have hsecond : data.getD 1 0 = (lengthField f.payload.length).1 := getD_of_isPrefix hpart htwo
  rw [length_header] at hcut
  unfold readLength
  rw [hsecond]
  unfold lengthField at hcut ⊢
  split at hcut
  · exact absurd hcut (by simp only [List.length_nil]; omega)
  · rename_i hlong
    rw [if_neg hlong]
    split at hcut
    · rename_i hmiddle
      rw [if_pos hmiddle]
      rw [List.length_reverse, length_littleEndian] at hcut
      simp only
      rw [if_pos (by decide), if_pos (by omega)]
    · rename_i hlong'
      rw [if_neg hlong']
      rw [List.length_reverse, length_littleEndian] at hcut
      simp only
      rw [if_neg (by decide), if_pos (by decide), if_pos (by omega)]

theorem first_bits (f : Frame) :
    f.first &&& 0x70 = 0 ∧ (f.first &&& 15).toNat = f.opcode.code ∧
      (decide (f.first &&& 128 ≠ 0)) = f.fin := by
  have hall : ∀ (fin : Bool) (opcode : Opcode),
      UInt8.ofNat ((if fin then 128 else 0) + opcode.code) &&& 0x70 = 0 ∧
        (UInt8.ofNat ((if fin then 128 else 0) + opcode.code) &&& 15).toNat = opcode.code ∧
        (decide (UInt8.ofNat ((if fin then 128 else 0) + opcode.code) &&& 128 ≠ 0)) = fin := by
    intro fin opcode
    cases fin <;> cases opcode <;> decide
  exact hall f.fin f.opcode

theorem headerRefused_header (hfirst : data.getD 0 0 = f.first)
    (hsecond : data.getD 1 0 = (lengthField f.payload.length).1) : headerRefused data = false := by
  obtain ⟨hreserved, hcode, -⟩ := first_bits f
  have hmask := maskBit_lengthField f.payload.length
  have hopcode : f.opcode.code ∈ [0, 1, 2, 8, 9, 10] := by
    cases f.opcode <;> decide
  unfold headerRefused
  rw [hfirst, hsecond, hreserved, hcode]
  simp [hmask, hopcode]

theorem lengthRefused_wellFormed (h : f.WellFormed) :
    lengthRefused f.opcode.code f.fin f.payload.length = false := by
  have hlimit := h.limit
  have hcontrol := h.control
  have hclose := h.close
  unfold lengthRefused
  cases hop : f.opcode <;> simp_all [Opcode.code, Opcode.control]

/-- A frame with bytes behind it is decoded, and nothing else changes. -/
theorem decode_encode (h : f.WellFormed) (rest : Bytes) :
    decode (f.encode ++ rest) =
      (.frame f.opcode.code f.fin (f.header.length + 4) f.payload.length f.encode.length,
        f.header ++ f.mask ++ f.payload ++ rest) := by
  have hsplit : f.encode ++ rest =
      f.header ++ (f.mask ++ (unmask f.mask f.payload ++ rest)) := by
    simp [Frame.encode]
  have hlength := length_encode h
  have hfront : (f.encode ++ rest).take (f.header.length + 4) = f.header ++ f.mask := by
    rw [hsplit, ← List.append_assoc]
    exact List.take_left' (by rw [List.length_append, h.mask])
  have hmask : ((f.encode ++ rest).drop f.header.length).take 4 = f.mask := by
    rw [hsplit, List.drop_left]
    exact List.take_left' h.mask
  have hback : (f.encode ++ rest).drop (f.header.length + 4) =
      unmask f.mask f.payload ++ rest := by
    rw [hsplit, ← List.append_assoc]
    exact List.drop_left' (by rw [List.length_append, h.mask])
  have hpayload : ((f.encode ++ rest).drop (f.header.length + 4)).take f.payload.length =
      unmask f.mask f.payload := by
    rw [hback]
    exact List.take_left' (length_unmask _ _)
  have hrest : (f.encode ++ rest).drop (f.header.length + 4 + f.payload.length) = rest := by
    rw [← List.drop_drop, hback]
    exact List.drop_left' (length_unmask _ _)
  obtain ⟨-, hcode, hfin⟩ := first_bits f
  have hzero : (f.encode ++ rest).getD 0 0 = f.first := by
    rw [hsplit]
    rfl
  have hone : (f.encode ++ rest).getD 1 0 = (lengthField f.payload.length).1 := by
    rw [hsplit]
    rfl
  have hread : readLength (f.encode ++ rest) = .known f.payload.length f.header.length := by
    rw [hsplit]
    exact readLength_header h _
  have hheader := length_header f
  have htotal : (f.encode ++ rest).length = f.encode.length + rest.length := List.length_append
  unfold decode
  rw [if_neg (by omega), headerRefused_header hzero hone, hzero, hcode, hfin]
  simp only [Bool.false_eq_true, if_false, hread]
  rw [lengthRefused_wellFormed h, if_neg (by decide), if_neg (by omega), hmask, hpayload,
    unmask_unmask, hfront, hrest, hlength]

/-- Of a frame that is not complete, nothing is decoded. -/
theorem decode_cut (h : f.WellFormed) (hpart : data <+: f.encode)
    (hcut : data.length < f.encode.length) : decode data = (.incomplete, data) := by
  by_cases hshort : data.length < 2
  · unfold decode
    rw [if_pos hshort]
  · have hlength := length_encode h
    have hheader : f.header <+: f.encode := ⟨f.mask ++ unmask f.mask f.payload, by
      simp [Frame.encode]⟩
    have hzero : data.getD 0 0 = f.first := getD_of_isPrefix hpart (by omega)
    have hone : data.getD 1 0 = (lengthField f.payload.length).1 :=
      getD_of_isPrefix hpart (by omega)
    unfold decode
    rw [if_neg hshort, headerRefused_header hzero hone, if_neg (by decide)]
    by_cases hread : data.length < f.header.length
    · -- The header itself is cut.
      have hin := List.prefix_of_prefix_length_le hpart hheader (Nat.le_of_lt hread)
      simp only [readLength_cut hin (by omega) hread]
    · obtain ⟨tail, htail⟩ := List.prefix_of_prefix_length_le hheader hpart (by omega)
      obtain ⟨-, hcode, hfin⟩ := first_bits f
      have hknown : readLength data = .known f.payload.length f.header.length := by
        rw [← htail]
        exact readLength_header h tail
      simp only [hknown, hzero, hcode, hfin]
      rw [lengthRefused_wellFormed h, if_neg (by decide), if_pos (by omega)]

/-- A length that is written longer than need be is refused. -/
theorem decode_not_minimal (h : (4 ≤ data.length ∧ data.getD 1 0 &&& 127 = 126 ∧
        bigEndian ((data.drop 2).take 2) < 126) ∨
      (10 ≤ data.length ∧ data.getD 1 0 &&& 127 = 127 ∧
        bigEndian ((data.drop 2).take 8) ≤ 65535)) : decode data = (.invalid, data) := by
  have hread : readLength data = .invalid := by
    unfold readLength
    rcases h with ⟨hlength, hfield, hcount⟩ | ⟨hlength, hfield, hcount⟩
    · rw [hfield]
      simp only
      rw [if_pos (by decide), if_neg (by omega), if_pos hcount]
    · rw [hfield]
      simp only
      rw [if_neg (by decide), if_pos (by decide), if_neg (by omega), if_pos hcount]
  have hlength : ¬ data.length < 2 := by
    rcases h with ⟨hlength, -⟩ | ⟨hlength, -⟩ <;> omega
  unfold decode
  rw [if_neg hlength]
  split
  · rfl
  · simp only [hread]

theorem readLength_cases (data : Bytes) :
    (readLength data = .incomplete ∧ data.length < 10) ∨ readLength data = .invalid ∨
      ∃ count header, readLength data = .known count header ∧ header ≤ 10 := by
  unfold readLength
  dsimp only
  split
  · split
    · exact .inl ⟨rfl, by omega⟩
    · split
      · exact .inr (.inl rfl)
      · exact .inr (.inr ⟨_, _, rfl, by decide⟩)
  · split
    · split
      · rename_i hshort
        exact .inl ⟨rfl, hshort⟩
      · split
        · exact .inr (.inl rfl)
        · exact .inr (.inr ⟨_, _, rfl, by decide⟩)
    · exact .inr (.inr ⟨_, _, rfl, by decide⟩)

/-- The three results, and what they say about the bytes: the buffer is left alone unless there is
a frame, and it is full only if there is one, or an error. -/
theorem decode_cases (data : Bytes) :
    decode data = (.invalid, data) ∨
      (decode data = (.incomplete, data) ∧ data.length < capacity) ∨
      ∃ opcode fin offset length consumed data',
        decode data = (.frame opcode fin offset length consumed, data') ∧
          data'.length = data.length ∧ 0 < consumed ∧ consumed ≤ data.length := by
  have hcapacity : capacity = messageMax + 14 := rfl
  unfold decode
  split
  · exact .inr (.inl ⟨rfl, by omega⟩)
  · split
    · exact .inl rfl
    · dsimp only
      rcases readLength_cases data with ⟨hread, hshort⟩ | hread | ⟨count, header, hread, hheader⟩
      · rw [hread]
        exact .inr (.inl ⟨rfl, by omega⟩)
      · rw [hread]
        exact .inl rfl
      · rw [hread]
        dsimp only
        split
        · exact .inl rfl
        · rename_i hlimit
          split
          · simp only [lengthRefused, Bool.or_eq_true, decide_eq_true_eq, not_or] at hlimit
            exact .inr (.inl ⟨rfl, by omega⟩)
          · refine .inr (.inr ⟨_, _, _, _, _, _, rfl, ?_, by omega, by omega⟩)
            simp only [List.length_append, List.length_take, List.length_drop, length_unmask]
            omega

/-- The buffer is left alone unless there is a frame. -/
theorem decode_snd (h : (decode data).1 = .incomplete ∨ (decode data).1 = .invalid) :
    (decode data).2 = data := by
  rcases decode_cases data with hcase | ⟨hcase, -⟩ | ⟨_, _, _, _, _, _, hcase, -⟩
  · rw [hcase]
  · rw [hcase]
  · rw [hcase] at h
    rcases h with h | h <;> cases h

/-- A buffer without a complete frame is not full. -/
theorem length_lt_capacity (h : (decode data).1 = .incomplete) : data.length < capacity := by
  rcases decode_cases data with hcase | ⟨-, hlength⟩ | ⟨_, _, _, _, _, _, hcase, -⟩
  · rw [hcase] at h
    cases h
  · exact hlength
  · rw [hcase] at h
    cases h

end ShadowMount.PkgWs
