import ShadowMount.PkgStream.Model

/-!
# The slots of a package stream

A used slot holds the range of an aligned block and, once it is ready, the bytes of
that range; no two slots are about the same block.  A slot that is waited for, in
flight or the header is held: it is never given to another block.
-/

namespace ShadowMount.PkgStream

open Foundation

@[simp]
theorem length_bytes (file : Nat → UInt8) (offset size : Nat) :
    (bytes file offset size).length = size := by
  simp [bytes]

theorem bytes_append (file : Nat → UInt8) (offset a b : Nat) :
    bytes file offset a ++ bytes file (offset + a) b = bytes file offset (a + b) := by
  unfold bytes
  rw [List.range_add, List.map_append, List.map_map]
  congr 1
  apply List.map_congr_left
  intro i _
  simp [Nat.add_assoc]

/-- A part of the bytes of a range. -/
theorem bytes_slice (file : Nat → UInt8) {offset size k m : Nat} (h : k + m ≤ size) :
    ((bytes file offset size).drop k).take m = bytes file (offset + k) m := by
  apply List.ext_getElem
  · simp
    omega
  · intro i _ _
    simp [bytes, Nat.add_assoc]

/-- A used slot holds the range of an aligned block, and its bytes once it is ready. -/
structure Slot.Filled (file : Nat → UInt8) (total : Nat) (slot : Slot) : Prop where
  lt : slot.range.offset < total
  aligned : slot.range.offset % chunk = 0
  size : slot.range.size = min (total - slot.range.offset) chunk
  data : slot.ready = true → slot.data = bytes file slot.range.offset slot.range.size

/-- The slot must not be given to another block. -/
def Slot.Held (slot : Slot) : Prop :=
  slot.range.id ≠ 0 ∧ (slot.waiters ≠ 0 ∨ slot.ready = false ∨ slot.range.offset = 0)

namespace Stream

variable {i : Fin streamSlots} {offset id : Nat}

/-- What holds of the slots in every state. -/
structure Sound (file : Nat → UInt8) (s : Stream) : Prop where
  used : ∀ i, (s.slots i).range.id ≠ 0 → (s.slots i).Filled file s.total
  free : ∀ i, (s.slots i).range.id = 0 → (s.slots i).ready = false ∧ (s.slots i).waiters = 0
  distinct : ∀ i j, (s.slots i).range.id ≠ 0 → (s.slots j).range.id ≠ 0 →
    (s.slots i).range.offset = (s.slots j).range.offset → i = j

/-- Held slots keep their range. -/
def RangesKept (s s' : Stream) : Prop :=
  ∀ i, (s.slots i).Held → (s'.slots i).range = (s.slots i).range

/-- Nothing happens to held slots, and nothing to the waiters of any slot. -/
structure Kept (s s' : Stream) : Prop where
  total : s'.total = s.total
  waiters : ∀ i, (s'.slots i).waiters = (s.slots i).waiters
  held : ∀ i, (s.slots i).Held → s'.slots i = s.slots i

theorem Kept.refl (s : Stream) : Kept s s where
  total := rfl
  waiters _ := rfl
  held _ _ := rfl

theorem Kept.trans {s s' s'' : Stream} (h : Kept s s') (h' : Kept s' s'') : Kept s s'' where
  total := h'.total.trans h.total
  waiters i := (h'.waiters i).trans (h.waiters i)
  held i hi := by
    have hsame := h.held i hi
    have hnext : (s'.slots i).Held := hsame ▸ hi
    rw [h'.held i hnext, hsame]

variable {file : Nat → UInt8} {s : Stream}

@[simp]
theorem setSlot_slots_self (s : Stream) (i : Fin streamSlots) (slot : Slot) :
    (s.setSlot i slot).slots i = slot := by
  simp [setSlot]

theorem setSlot_slots_of_ne (s : Stream) {j : Fin streamSlots} (hne : j ≠ i) (slot : Slot) :
    (s.setSlot i slot).slots j = s.slots j := by
  simp [setSlot, hne]

theorem Sound.of_slots {s' : Stream} (h : Sound file s) (htotal : s'.total = s.total)
    (hslots : s'.slots = s.slots) : Sound file s' := by
  constructor
  · intro i
    rw [hslots, htotal]
    exact h.used i
  · intro i
    rw [hslots]
    exact h.free i
  · intro i j
    rw [hslots]
    exact h.distinct i j

/-- A slot with the bytes of its range may be written. -/
theorem Sound.setSlot (h : Sound file s) {slot : Slot} (hrange : slot.range = (s.slots i).range)
    (hdata : slot.ready = true → slot.data = bytes file slot.range.offset slot.range.size)
    (hfree : slot.range.id = 0 → slot.ready = false ∧ slot.waiters = 0) :
    Sound file (s.setSlot i slot) := by
  have hranges : ∀ j, ((s.setSlot i slot).slots j).range = (s.slots j).range := by
    intro j
    by_cases heq : j = i
    · subst heq
      rw [setSlot_slots_self, hrange]
    · rw [setSlot_slots_of_ne s heq]
  constructor
  · intro j hj
    by_cases heq : j = i
    · subst heq
      rw [setSlot_slots_self, hrange] at hj
      have hfilled := h.used j hj
      rw [setSlot_slots_self]
      exact ⟨hrange ▸ hfilled.lt, hrange ▸ hfilled.aligned, hrange ▸ hfilled.size, hdata⟩
    · rw [setSlot_slots_of_ne s heq] at hj ⊢
      exact h.used j hj
  · intro j hj
    by_cases heq : j = i
    · subst heq
      rw [setSlot_slots_self] at hj ⊢
      exact hfree hj
    · rw [setSlot_slots_of_ne s heq] at hj ⊢
      exact h.free j hj
  · intro j k
    rw [hranges j, hranges k]
    exact h.distinct j k

/-- A found slot is in use for the segment. -/
theorem findSegment_eq_some (h : s.findSegment offset = some i) :
    (s.slots i).range.id ≠ 0 ∧ (s.slots i).range.offset = offset := by
  have hhit := List.find?_some h
  rwa [Bool.and_eq_true, decide_eq_true_iff, decide_eq_true_iff] at hhit

theorem findSegment_eq_none (h : s.findSegment offset = none) (i : Fin streamSlots)
    (hid : (s.slots i).range.id ≠ 0) : (s.slots i).range.offset ≠ offset := by
  have hmiss := List.find?_eq_none.mp h i (List.mem_finRange i)
  intro heq
  simp [hid, heq] at hmiss

theorem chooseFrom_eq_some {demanded : Bool} {slots : List (Fin streamSlots)}
    {best : Option (Fin streamSlots)}
    (hbest : ∀ b, best = some b → evictable demanded (s.slots b) = true)
    (h : s.chooseFrom demanded slots best = some i) :
    (s.slots i).range.id = 0 ∨ evictable demanded (s.slots i) = true := by
  induction slots generalizing best with
  | nil => exact .inr (hbest i h)
  | cons j slots ih =>
    unfold chooseFrom at h
    split at h
    · rename_i hfree
      cases h
      exact .inl hfree
    · split at h
      · exact ih hbest h
      · rename_i hevict
        split at h
        · refine ih ?_ h
          intro b hb
          cases hb
          simpa using hevict
        · exact ih hbest h

/-- A slot that a reader holds is never chosen. -/
theorem not_held_of_chosen {demanded : Bool}
    (h : (s.slots i).range.id = 0 ∨ evictable demanded (s.slots i) = true) : ¬(s.slots i).Held := by
  rintro ⟨hid, hheld⟩
  rcases h with hfree | hevict
  · exact hid hfree
  · unfold evictable at hevict
    simp only [Bool.and_eq_true, decide_eq_true_eq] at hevict
    rcases hheld with hwaiters | hready | hheader
    · exact hwaiters hevict.1.1.2
    · rw [hready] at hevict
      cases hevict.1.1.1
    · exact hevict.1.2 hheader

/-- Asking for a block keeps the slots sound, touches no slot that is held, and
returns a slot of that block. -/
theorem Sound.requestSegment (h : Sound file s) (hlt : offset < s.total)
    (haligned : offset % chunk = 0) (demanded : Bool) (realloc : Nat → Option Bytes) :
    Sound file (s.requestSegment offset demanded realloc).2 ∧
      Kept s (s.requestSegment offset demanded realloc).2 ∧
      ∀ i, (s.requestSegment offset demanded realloc).1 = .ok i →
        ((s.requestSegment offset demanded realloc).2.slots i).range.id ≠ 0 ∧
        ((s.requestSegment offset demanded realloc).2.slots i).range.offset = offset := by
  unfold Stream.requestSegment
  split
  · rename_i i hfind
    refine ⟨h, .refl s, ?_⟩
    intro j hj
    cases hj
    exact findSegment_eq_some hfind
  · rename_i hfind
    split
    · exact ⟨h, .refl s, nofun⟩
    · rename_i i hchoose
      have hchosen := chooseFrom_eq_some (fun b hb => by cases hb) hchoose
      have hnot := not_held_of_chosen hchosen
      split
      · exact ⟨h, .refl s, nofun⟩
      · rename_i memory _
        refine ⟨⟨?_, ?_, ?_⟩, ⟨rfl, ?_, ?_⟩, ?_⟩
        · intro j hj
          by_cases heq : j = i
          · subst heq
            simp only [Function.update_self]
            exact ⟨hlt, haligned, rfl, nofun⟩
          · simp only [Function.update_of_ne heq] at hj ⊢
            exact h.used j hj
        · intro j hj
          by_cases heq : j = i
          · subst heq
            simp [Slot.zero]
          · simp only [Function.update_of_ne heq] at hj ⊢
            exact h.free j hj
        · -- no other used slot is about the block that was not found
          intro j k hj hk hsame
          by_cases hji : j = i
          · by_cases hki : k = i
            · rw [hji, hki]
            · subst hji
              simp only [Function.update_self, Function.update_of_ne hki] at hk hsame
              exact absurd hsame.symm (findSegment_eq_none hfind k hk)
          · by_cases hki : k = i
            · subst hki
              simp only [Function.update_self, Function.update_of_ne hji] at hj hsame
              exact absurd hsame (findSegment_eq_none hfind j hj)
            · simp only [Function.update_of_ne hji, Function.update_of_ne hki] at hj hk hsame
              exact h.distinct j k hj hk hsame
        · intro j
          by_cases heq : j = i
          · subst heq
            simp only [Function.update_self]
            -- neither a free slot nor an evicted one has waiters
            by_contra hne
            have hwaiters : (s.slots j).waiters ≠ 0 := fun hzero => hne hzero.symm
            have hid : (s.slots j).range.id ≠ 0 := fun hid => hwaiters (h.free j hid).2
            exact hnot ⟨hid, .inl hwaiters⟩
          · simp only [Function.update_of_ne heq]
        · intro j hj
          have hne : j ≠ i := by
            rintro rfl
            exact hnot hj
          simp only [Function.update_of_ne hne]
        · intro j hj
          cases hj
          simp

/-- The blocks ahead are asked for. -/
theorem Sound.prefetchLoop (realloc : Nat → Option Bytes) {ahead : List Nat}
    (haligned : ∀ next ∈ ahead, next % chunk = 0) {pending : Nat} {s : Stream}
    (h : Sound file s) :
    Sound file (Stream.prefetchLoop realloc ahead pending s) ∧
      Kept s (Stream.prefetchLoop realloc ahead pending s) := by
  induction ahead generalizing pending s with
  | nil => exact ⟨h, .refl s⟩
  | cons next ahead ih =>
    have hnext := haligned next List.mem_cons_self
    have hrest : ∀ next ∈ ahead, next % chunk = 0 := by
      intro other hother
      exact haligned other (List.mem_cons_of_mem next hother)
    unfold Stream.prefetchLoop
    split
    · exact ⟨h, .refl s⟩
    · rename_i hlt
      split
      · exact ih hrest h
      · split
        · exact ⟨h, .refl s⟩
        · rcases h.requestSegment (Nat.lt_of_not_le hlt) hnext false realloc with
            ⟨hsound, hkept, -⟩
          split
          · rename_i i s' hrequest
            rw [hrequest] at hsound hkept
            rcases ih hrest hsound with ⟨hsound', hkept'⟩
            exact ⟨hsound', hkept.trans hkept'⟩
          · rename_i s' hrequest
            rw [hrequest] at hsound hkept
            exact ⟨hsound, hkept⟩

/-- Asking for segments ahead keeps the slots sound. -/
theorem Sound.prefetchSegments (h : Sound file s) (haligned : offset % chunk = 0)
    (realloc : Nat → Option Bytes) :
    Sound file (s.prefetchSegments offset realloc) ∧
      Kept s (s.prefetchSegments offset realloc) := by
  apply Sound.prefetchLoop realloc ?_ h
  intro next hnext
  rcases List.mem_map.mp hnext with ⟨i, -, rfl⟩
  rw [Nat.add_mul_mod_self_right]
  exact haligned

/-- What a step of a client leaves as it is. -/
structure Passive (file : Nat → UInt8) (s s' : Stream) : Prop where
  total : s'.total = s.total
  ranges : ∀ i, (s'.slots i).range = (s.slots i).range
  waiters : ∀ i, (s'.slots i).waiters = (s.slots i).waiters
  sound : Sound file s'

theorem Sound.passive (h : Sound file s) : Passive file s s where
  total := rfl
  ranges _ := rfl
  waiters _ := rfl
  sound := h

theorem Sound.passive_setSlot (h : Sound file s) {slot : Slot}
    (hrange : slot.range = (s.slots i).range) (hwaiters : slot.waiters = (s.slots i).waiters)
    (hdata : slot.ready = true → slot.data = bytes file slot.range.offset slot.range.size)
    (hfree : slot.range.id = 0 → slot.ready = false) : Passive file s (s.setSlot i slot) := by
  constructor
  · rfl
  · intro j
    by_cases heq : j = i
    · subst heq
      rw [setSlot_slots_self, hrange]
    · rw [setSlot_slots_of_ne s heq]
  · intro j
    by_cases heq : j = i
    · subst heq
      rw [setSlot_slots_self, hwaiters]
    · rw [setSlot_slots_of_ne s heq]
  · apply h.setSlot hrange hdata
    intro hid
    refine ⟨hfree hid, ?_⟩
    rw [hwaiters]
    rw [hrange] at hid
    exact (h.free i hid).2

theorem Sound.data (h : Sound file s) (hready : (s.slots i).ready = true) :
    (s.slots i).data = bytes file (s.slots i).range.offset (s.slots i).range.size := by
  by_cases hid : (s.slots i).range.id = 0
  · rw [(h.free i hid).1] at hready
    cases hready
  · exact (h.used i hid).data hready

theorem Sound.passive_claim (h : Sound file s) (i : Fin streamSlots) (client : Nat) :
    Passive file s (s.setSlot i { s.slots i with claimed := true, client }) := by
  apply h.passive_setSlot
  · rfl
  · rfl
  · exact h.data
  · intro hid
    exact (h.free i hid).1

theorem Sound.passive_request (h : Sound file s) : Passive file s s.request.2 := by
  unfold request
  split
  · exact h.passive
  · split
    · rename_i i _
      exact h.passive_claim i (s.slots i).client
    · exact h.passive

theorem Sound.passive_tryRequest (h : Sound file s) (client : Nat) :
    Passive file s (s.tryRequest client).2 := by
  unfold tryRequest
  split
  · exact h.passive
  · split
    · exact h.passive
    · dsimp only
      split
      · exact h.passive
      · split
        · rename_i i _
          exact h.passive_claim i client
        · exact h.passive

theorem Sound.passive_fail (h : Sound file s) (status : Option Errno) :
    Passive file s (s.fail status) := by
  unfold fail
  split
  · exact h.passive
  · split
    · exact ⟨rfl, fun _ => rfl, fun _ => rfl, h.of_slots rfl rfl⟩
    · exact h.passive

/-- A reply goes to the slot of its request. -/
theorem replySlot_eq_some (h : s.replySlot id = some i) : id ≠ 0 ∧ (s.slots i).range.id = id := by
  have hhit := List.find?_some h
  rwa [Bool.and_eq_true, decide_eq_true_iff, decide_eq_true_iff] at hhit

/-- A reply that is right, if it is accepted, keeps the stream sound. -/
theorem Sound.passive_reply (h : Sound file s) {data : Bytes} (hright : ∀ i, Accepted s id data i →
      data = bytes file (s.slots i).range.offset (s.slots i).range.size) :
    Passive file s (s.reply id data).2 := by
  unfold reply
  split
  · exact h.passive
  · rename_i hstatus
    split
    · exact h.passive
    · rename_i i hslot
      split
      · exact h.passive
      · rename_i hsize
        split
        · exact h.passive
        · rename_i hready
          split
          · exact h.passive
          · rename_i hclaimed
            have hdata := hright i ⟨hstatus, hslot, by simpa using hsize,
              by simpa using hclaimed, by simpa using hready⟩
            have hset : Passive file s (s.setSlot i { s.slots i with
                data, ready := true, lastUse := s.tick + 1, client := 0 }) := by
              apply h.passive_setSlot
              · rfl
              · rfl
              · intro _
                exact hdata
              · intro hid
                rcases replySlot_eq_some hslot with ⟨hne, hsame⟩
                exact absurd (hsame.symm.trans hid) hne
            exact ⟨hset.total, hset.ranges, hset.waiters, hset.sound.of_slots rfl rfl⟩

/-- A reply that answers no outstanding request changes nothing. -/
theorem reply_of_not_outstanding (h : ¬Outstanding s id) (data : Bytes) :
    (s.reply id data).2 = s := by
  unfold reply
  split
  · rfl
  · split
    · rfl
    · rename_i i hslot
      split
      · rfl
      · split
        · rfl
        · rename_i hready
          split
          · rfl
          · rename_i hclaimed
            rcases replySlot_eq_some hslot with ⟨hne, hid⟩
            exact absurd ⟨hne, i, hid, by simpa using hclaimed, by simpa using hready⟩ h

end Stream

end ShadowMount.PkgStream
