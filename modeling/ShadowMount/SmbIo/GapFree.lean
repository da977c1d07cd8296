import ShadowMount.Foundation.Counting
import ShadowMount.SmbIo.Model

/-!
# Transfers have no gaps

Blocks complete short and out of order, so that a later block can be complete while an earlier
one is not.  What keeps the count right is that every byte that was cut into a block stays
accounted for: it was transferred, or it is still missing in a slot, and that slot is either in
flight or will be looked at again once the queue is drained.

Main results:

- Theorem {lit}`Sound.smbIoNext`, {lit}`Sound.smbIoComplete`, {lit}`Sound.loopHead`: the account
  is kept by a refill, by a reply and by the search for missing bytes.
- Theorem {lit}`smbIo_gapFree`: what a call that returns a count has transferred.
-/

namespace ShadowMount.SmbIo

open Foundation

variable {c : Call} {s s' : State} {i : Fin ioRequests} {n : Nat}
variable {j : Fin ioRequests} {b count size : Nat}

/-- The byte at a position of the buffer was transferred, from or to its place in the file. -/
def Transferred (c : Call) (s : State) (b : Nat) : Prop :=
  ∃ r ∈ s.replies, r.data ≤ b ∧ b < r.data + r.count ∧ r.offset + (b - r.data) = c.offset + b

/-- The file ended at a place: a request for bytes from there on got none. -/
def Ended (s : State) (place : Nat) : Prop :=
  ∃ r ∈ s.replies, r.count = 0 ∧ 0 < r.length ∧ r.offset = place

/-- The byte is missing in a slot. -/
def Request.Misses (r : Request) (b : Nat) : Prop :=
  r.data + r.completed ≤ b ∧ b < r.data + r.length

/-- The account of a call. -/
structure Sound (c : Call) (s : State) : Prop where
  offset : s.batch.offset = c.offset
  write : s.batch.write = c.writing
  block : 0 < s.batch.block
  window : 0 < s.window
  next_le : s.batch.next ≤ c.cut
  size_le : s.batch.size ≤ c.cut
  placed : ∀ i, (s.requests i).length ≠ 0 →
    (s.requests i).offset = c.offset + (s.requests i).data ∧ i ∈ slots s.window
  missing : ∀ i, s.flying i = true → (s.requests i).completed < (s.requests i).length
  pending : s.batch.pending = countWhere id s.flying
  covered : s.batch.error = none → ∀ b, b < s.batch.next → b < s.batch.size →
    Transferred c s b ∨
      ∃ i, (s.requests i).Misses b ∧ (s.flying i = true ∨ s.batch.creditLimited = true)
  ended : s.batch.size < c.cut → Ended s (c.offset + s.batch.size)
  full : c.writing = true → s.batch.size = c.cut

/-- Something will go on with the rest of the buffer. -/
def Busy (s : State) : Prop :=
  s.batch.error ≠ none ∨ s.batch.creditLimited = true ∨ s.batch.size ≤ s.batch.next ∨
    ∃ i, s.flying i = true

/-- A slot whose bytes nobody waits for. -/
def Spare (c : Call) (s : State) (i : Fin ioRequests) : Prop :=
  s.flying i = false ∧ (s.batch.error = none → ∀ b, (s.requests i).Misses b →
    b < s.batch.size → Transferred c s b)

/-- The same call at another place. -/
def State.at (s : State) (phase : Phase) : State := { s with phase := phase }

theorem Sound.fail (h : Sound c s) (e : Nat) : Sound c (s.fail e) :=
  ⟨h.offset, h.write, h.block, h.window, h.next_le, h.size_le, h.placed, h.missing, h.pending,
    fun herror => (by cases herror), h.ended, h.full⟩

theorem Sound.at (h : Sound c s) (phase : Phase) : Sound c (s.at phase) :=
  ⟨h.offset, h.write, h.block, h.window, h.next_le, h.size_le, h.placed, h.missing, h.pending,
    h.covered, h.ended, h.full⟩

theorem busy_fail (s : State) (e : Nat) : Busy (s.fail e) :=
  .inl (by simp [State.fail])

theorem zero_mem_slots {window : Nat} (h : 0 < window) : ⟨0, by decide⟩ ∈ slots window := by
  obtain ⟨w, rfl⟩ := Nat.exists_eq_succ_of_ne_zero (Nat.ne_of_gt h)
  have hrange : List.finRange ioRequests = ⟨0, by decide⟩ :: (List.finRange ioRequests).tail := by
    decide
  unfold slots
  rw [hrange, List.take_succ_cons]
  exact List.mem_cons_self

theorem flying_launch_self (s : State) (i : Fin ioRequests) : (s.launch i).flying i = true := by
  simp [State.launch]

theorem flying_launch_ne (h : j ≠ i) : (s.launch i).flying j = s.flying j := by
  simp [State.launch, h]

theorem flying_launch_of_flying (h : s.flying j = true) : (s.launch i).flying j = true := by
  by_cases hij : j = i
  · rw [hij]
    exact flying_launch_self s i
  · rw [flying_launch_ne hij]
    exact h

theorem busy_launch (s : State) (i : Fin ioRequests) : Busy (s.launch i) :=
  .inr (.inr (.inr ⟨i, flying_launch_self s i⟩))

theorem pending_launch (hpending : s.batch.pending = countWhere id s.flying)
    (hi : s.flying i = false) :
    (s.launch i).batch.pending = countWhere id (s.launch i).flying := by
  have hcount := countWhere_update id s.flying i true
  simp only [hi, id, Bool.false_eq_true, if_false, if_true] at hcount
  show s.batch.pending + 1 = countWhere id (Function.update s.flying i true)
  rw [hpending]
  omega

/-- A request with missing bytes is sent. -/
theorem Sound.launch (h : Sound c s) (hi : s.flying i = false)
    (hmissing : (s.requests i).completed < (s.requests i).length) : Sound c (s.launch i) := by
  refine ⟨h.offset, h.write, h.block, h.window, h.next_le, h.size_le, h.placed, fun j hj => ?_,
    pending_launch h.pending hi, fun herror b hnext hsize => ?_, h.ended, h.full⟩
  · by_cases hij : j = i
    · rw [hij]
      exact hmissing
    · rw [flying_launch_ne hij] at hj
      exact h.missing j hj
  · rcases h.covered herror b hnext hsize with hdone | ⟨j, hj, hfly | hcredit⟩
    · exact .inl hdone
    · exact .inr ⟨j, hj, .inl (flying_launch_of_flying hfly)⟩
    · exact .inr ⟨j, hj, .inr hcredit⟩

theorem requests_cutNext_self (s : State) (i : Fin ioRequests) :
    (s.cutNext i).requests i = nextRequest s.batch := by
  simp [State.cutNext]

theorem requests_cutNext_ne (h : j ≠ i) : (s.cutNext i).requests j = s.requests j := by
  simp [State.cutNext, h]

/-- The next request is sent. -/
theorem Sound.launchNext (h : Sound c s) (hspare : Spare c s i) (hslot : i ∈ slots s.window)
    (hmore : s.batch.next < s.batch.size) : Sound c ((s.cutNext i).launch i) := by
  have hblock := h.block
  have hlength : (nextRequest s.batch).length = min (s.batch.size - s.batch.next) s.batch.block :=
    rfl
  refine ⟨h.offset, h.write, h.block, h.window, ?_, h.size_le, fun j hj => ?_, fun j hj => ?_,
    pending_launch h.pending hspare.1, fun herror b hnext hsize => ?_, h.ended, h.full⟩
  · show s.batch.next + (nextRequest s.batch).length ≤ c.cut
    have hsize := h.size_le
    omega
  · by_cases hij : j = i
    · subst hij
      refine ⟨?_, hslot⟩
      show ((s.cutNext j).requests j).offset = c.offset + ((s.cutNext j).requests j).data
      rw [requests_cutNext_self, ← h.offset]
      rfl
    · have hkept : ((s.cutNext i).launch i).requests j = s.requests j := requests_cutNext_ne hij
      rw [hkept] at hj ⊢
      exact h.placed j hj
  · by_cases hij : j = i
    · subst hij
      show ((s.cutNext j).requests j).completed < ((s.cutNext j).requests j).length
      rw [requests_cutNext_self, hlength]
      show 0 < _
      omega
    · have hkept : ((s.cutNext i).launch i).requests j = s.requests j := requests_cutNext_ne hij
      rw [hkept]
      rw [flying_launch_ne hij] at hj
      exact h.missing j hj
  · by_cases hold : b < s.batch.next
    · rcases h.covered herror b hold hsize with hdone | ⟨j, hj, hwaits⟩
      · exact .inl hdone
      · by_cases hij : j = i
        · subst hij
          exact .inl (hspare.2 herror b hj hsize)
        · refine .inr ⟨j, ?_, ?_⟩
          · show ((s.cutNext i).requests j).Misses b
            rw [requests_cutNext_ne hij]
            exact hj
          · exact hwaits.imp_left fun hfly => flying_launch_of_flying hfly
    · refine .inr ⟨i, ?_, .inl (flying_launch_self _ i)⟩
      show ((s.cutNext i).requests i).Misses b
      rw [requests_cutNext_self]
      have hcut : b < s.batch.next + (nextRequest s.batch).length := hnext
      exact ⟨by show s.batch.next + 0 ≤ b; omega, hcut⟩

/-- Whatever the library says to a submission, the account stays right; and if it accepts the
request, the call goes on. -/
def Submitted (c : Call) (after : State × Option Nat) : Prop :=
  match after with
  | (s, none) => Sound c s ∧ Busy s
  | (s, some e) => Sound c (s.fail e)

theorem Sound.smbIoSubmit (h : Sound c s) {refused : Option Nat} (hi : s.flying i = false)
    (hmissing : (s.requests i).completed < (s.requests i).length) :
    Submitted c (SmbIo.smbIoSubmit i refused s) := by
  cases refused with
  | some e => exact h.fail e
  | none => exact ⟨h.launch hi hmissing, busy_launch s i⟩

/-- A block that could not be submitted ends the call. -/
theorem Sound.failNext (h : Sound c s) (hi : s.flying i = false) (hslot : i ∈ slots s.window)
    (hmore : s.batch.next < s.batch.size) (e : Nat) : Sound c ((s.cutNext i).fail e) := by
  have hlength : (nextRequest s.batch).length = min (s.batch.size - s.batch.next) s.batch.block :=
    rfl
  refine ⟨h.offset, h.write, h.block, h.window, ?_, h.size_le, fun j hj => ?_,
    fun j hj => ?_, h.pending, fun herror => (by cases herror), h.ended, h.full⟩
  · show s.batch.next + (nextRequest s.batch).length ≤ c.cut
    have hsize := h.size_le
    omega
  · by_cases hij : j = i
    · subst hij
      refine ⟨?_, hslot⟩
      show ((s.cutNext j).requests j).offset = c.offset + ((s.cutNext j).requests j).data
      rw [requests_cutNext_self, ← h.offset]
      rfl
    · have hkept : ((s.cutNext i).fail e).requests j = s.requests j := requests_cutNext_ne hij
      rw [hkept] at hj ⊢
      exact h.placed j hj
  · have hfly : s.flying j = true := hj
    have hij : j ≠ i := by
      intro hij
      rw [hij, hi] at hfly
      cases hfly
    have hkept : ((s.cutNext i).fail e).requests j = s.requests j := requests_cutNext_ne hij
    rw [hkept]
    exact h.missing j hfly

/-- The next block goes to a free slot. -/
theorem Sound.smbIoNext (h : Sound c s) (hspare : Spare c s i)
    (hslot : i ∈ slots s.window) (refused : Option Nat) :
    Submitted c (SmbIo.smbIoNext i refused s) := by
  unfold SmbIo.smbIoNext
  split
  · rename_i hall
    exact ⟨h, .inr (.inr (.inl hall))⟩
  · rename_i hmore
    rw [not_le] at hmore
    cases refused with
    | some e => exact h.failNext hspare.1 hslot hmore e
    | none => exact ⟨h.launchNext hspare hslot hmore, busy_launch _ i⟩

theorem flying_land_self (s : State) (i : Fin ioRequests) : (s.land i).flying i = false := by
  simp [State.land]

theorem flying_land_ne (h : j ≠ i) : (s.land i).flying j = s.flying j := by
  simp [State.land, h]

theorem flying_of_land (h : (s.land i).flying j = true) : j ≠ i ∧ s.flying j = true := by
  have hij : j ≠ i := by
    intro hij
    rw [hij, flying_land_self] at h
    cases h
  rw [flying_land_ne hij] at h
  exact ⟨hij, h⟩

/-- The count follows the requests in flight. -/
theorem pending_land (hpending : s.batch.pending = countWhere id s.flying)
    (hi : s.flying i = true) : (s.land i).batch.pending = countWhere id (s.land i).flying := by
  have hcount := countWhere_update id s.flying i false
  simp only [hi, id, Bool.false_eq_true, if_false, if_true] at hcount
  show s.batch.pending - 1 = countWhere id (Function.update s.flying i false)
  rw [hpending]
  omega

/-- A reply with an error. -/
theorem Sound.landFail (h : Sound c s) (hi : s.flying i = true) (e : Nat) :
    Sound c ((s.land i).fail e) :=
  ⟨h.offset, h.write, h.block, h.window, h.next_le, h.size_le, h.placed,
    fun j hj => h.missing j (flying_of_land hj).2, pending_land h.pending hi,
    fun herror => (by cases herror), h.ended, h.full⟩

theorem requests_account_self (s : State) (i : Fin ioRequests) (count : Nat) :
    (accountReply i count s).requests i =
      { s.requests i with completed := (s.requests i).completed + count } := by
  simp [accountReply]

theorem requests_account_ne (h : j ≠ i) (count : Nat) :
    (accountReply i count s).requests j = s.requests j := by
  simp [accountReply, h]

/-- What was transferred stays so. -/
theorem Transferred.account (h : Transferred c s b) (i : Fin ioRequests) (count : Nat) :
    Transferred c (accountReply i count (s.land i)) b := by
  obtain ⟨r, hr, hrest⟩ := h
  exact ⟨r, List.mem_cons_of_mem _ hr, hrest⟩

/-- A reply that is taken into account. -/
structure Taken (s : State) (i : Fin ioRequests) (count : Nat) : Prop where
  flying : s.flying i = true
  count_le : count ≤ (s.requests i).remaining
  write : s.batch.write = true → 0 < count

/-- Where the bytes of a request are: the reply brought them, or they are beyond the end, or
the reply was short. -/
theorem Sound.account_misses (h : Sound c s) (ht : Taken s i count)
    (hmisses : (s.requests i).Misses b) (hsize : b < (accountReply i count (s.land i)).batch.size) :
    Transferred c (accountReply i count (s.land i)) b ∨
      (((accountReply i count (s.land i)).requests i).Misses b ∧
        (accountReply i count (s.land i)).batch.creditLimited = true) := by
  have hmissing := h.missing i ht.flying
  obtain ⟨hoffset, -⟩ := h.placed i (by omega)
  obtain ⟨hfrom, hto⟩ := hmisses
  by_cases hbrought : b < (s.requests i).data + (s.requests i).completed + count
  · refine .inl ⟨(s.requests i).reply count, List.mem_cons_self, hfrom, hbrought, ?_⟩
    show (s.requests i).offset + (s.requests i).completed +
      (b - ((s.requests i).data + (s.requests i).completed)) = c.offset + b
    omega
  · right
    have hshort : 0 < count ∧ count < (s.requests i).remaining := by
      constructor
      · by_contra hzero
        have hcount : count = 0 := by omega
        subst hcount
        -- The end of the file is where this request stopped.
        have hend : b < min s.batch.size
            ((s.requests i).offset - s.batch.offset + (s.requests i).completed) := hsize
        rw [h.offset] at hend
        omega
      · unfold Request.remaining
        omega
    constructor
    · rw [requests_account_self]
      have hdata : ((s.land i).requests i) = s.requests i := rfl
      rw [hdata]
      exact ⟨by show (s.requests i).data + ((s.requests i).completed + count) ≤ b; omega, hto⟩
    · show (s.batch.creditLimited || decide (0 < count) &&
        decide (count < (s.requests i).remaining)) = true
      simp [hshort]

/-- A reply is accounted for. -/
theorem Sound.account (h : Sound c s) (ht : Taken s i count) :
    Sound c (accountReply i count (s.land i)) := by
  have hmissing := h.missing i ht.flying
  obtain ⟨hoffset, hslot⟩ := h.placed i (by omega)
  have hsize : (accountReply i count (s.land i)).batch.size = if count = 0 then
      min s.batch.size ((s.requests i).data + (s.requests i).completed) else s.batch.size := by
    have hplace : (s.requests i).offset - s.batch.offset = (s.requests i).data := by
      rw [h.offset]
      omega
    show (if count = 0 then
      min s.batch.size ((s.requests i).offset - s.batch.offset + (s.requests i).completed)
      else s.batch.size) = _
    rw [hplace]
  have hsmaller : (accountReply i count (s.land i)).batch.size ≤ s.batch.size := by
    rw [hsize]
    split
    · exact Nat.min_le_left _ _
    · exact Nat.le_refl _
  refine ⟨h.offset, h.write, h.block, h.window, h.next_le, Nat.le_trans hsmaller h.size_le,
    fun j hj => ?_, fun j hj => ?_, pending_land h.pending ht.flying,
    fun herror b hnext hb => ?_, fun hlt => ?_, fun hwriting => ?_⟩
  · by_cases hij : j = i
    · subst hij
      rw [requests_account_self]
      exact ⟨hoffset, hslot⟩
    · rw [requests_account_ne hij] at hj ⊢
      exact h.placed j hj
  · obtain ⟨hij, hfly⟩ := flying_of_land hj
    rw [requests_account_ne hij]
    exact h.missing j hfly
  · rcases h.covered herror b hnext (Nat.lt_of_lt_of_le hb hsmaller) with hdone | ⟨j, hj, hwaits⟩
    · exact .inl (hdone.account i count)
    · by_cases hij : j = i
      · subst hij
        rcases h.account_misses ht hj hb with hdone | ⟨hmisses, hcredit⟩
        · exact .inl hdone
        · exact .inr ⟨j, hmisses, .inr hcredit⟩
      · refine .inr ⟨j, ?_, ?_⟩
        · rw [requests_account_ne hij]
          exact hj
        · rcases hwaits with hfly | hcredit
          · left
            show (s.land i).flying j = true
            rw [flying_land_ne hij]
            exact hfly
          · right
            show (s.batch.creditLimited || _) = true
            rw [hcredit]
            rfl
  · by_cases hkept : (accountReply i count (s.land i)).batch.size = s.batch.size
    · rw [hkept] at hlt ⊢
      obtain ⟨r, hr, hrest⟩ := h.ended hlt
      exact ⟨r, List.mem_cons_of_mem _ hr, hrest⟩
    · -- This reply found the end of the file.
      have hzero : count = 0 := by
        by_contra hcount
        rw [hsize, if_neg hcount] at hkept
        exact hkept rfl
      rw [hsize, if_pos hzero] at hkept ⊢
      refine ⟨(s.requests i).reply count, List.mem_cons_self, hzero, ?_, ?_⟩
      · show 0 < (s.requests i).remaining
        unfold Request.remaining
        omega
      · show (s.requests i).offset + (s.requests i).completed = _
        omega
  · have hcount : count ≠ 0 := Nat.ne_of_gt (ht.write (by rw [h.write, hwriting]))
    rw [hsize, if_neg hcount]
    exact h.full hwriting

/-- A complete request leaves its slot free. -/
theorem Sound.spare_account (h : Sound c s) (ht : Taken s i count)
    (hcredit : (accountReply i count (s.land i)).batch.creditLimited = false) :
    Spare c (accountReply i count (s.land i)) i := by
  refine ⟨flying_land_self s i, fun _ b hmisses hb => ?_⟩
  have hbefore : (s.requests i).Misses b := by
    rw [requests_account_self] at hmisses
    have hdata : ((s.land i).requests i) = s.requests i := rfl
    rw [hdata] at hmisses
    have hfrom : (s.requests i).data + ((s.requests i).completed + count) ≤ b := hmisses.1
    exact ⟨by omega, hmisses.2⟩
  rcases h.account_misses ht hbefore hb with hdone | ⟨-, hlimited⟩
  · exact hdone
  · rw [hcredit] at hlimited
    cases hlimited

/-- A request is completed. -/
theorem Sound.smbIoComplete (h : Sound c s) (hi : s.flying i = true) (status : Int)
    (refused : Option Nat) :
    Sound c (SmbIo.smbIoComplete i status refused s) ∧
      Busy (SmbIo.smbIoComplete i status refused s) := by
  unfold SmbIo.smbIoComplete
  split
  · exact ⟨h.landFail hi _, busy_fail _ _⟩
  · rename_i hstatus
    split
    · exact ⟨h.landFail hi _, busy_fail _ _⟩
    · rename_i hcount
      simp only [Bool.or_eq_true, Bool.and_eq_true, decide_eq_true_eq, not_or, not_lt,
        not_and] at hcount
      have ht : Taken s i status.toNat :=
        ⟨hi, hcount.1, fun hwrite => by
          have hne : status ≠ 0 := fun hzero => hcount.2 hzero hwrite
          omega⟩
      dsimp only
      split
      · rename_i hrefill
        rw [Bool.and_eq_true, Bool.not_eq_true'] at hrefill
        have hslot := (h.placed i (by have := h.missing i hi; omega)).2
        have hsubmitted := (h.account ht).smbIoNext (h.spare_account ht hrefill.2) hslot refused
        cases hnext : SmbIo.smbIoNext i refused (accountReply i status.toNat (s.land i)) with
        | mk s₁ failed =>
          rw [hnext] at hsubmitted
          cases failed with
          | none => exact hsubmitted
          | some e => exact ⟨hsubmitted, busy_fail _ e⟩
      · rename_i hkeep
        refine ⟨h.account ht, ?_⟩
        rw [Bool.and_eq_true, not_and_or, Bool.not_eq_true', Bool.not_eq_false] at hkeep
        rcases hkeep with herror | hcredit
        · left
          intro hnone
          rw [hnone] at herror
          exact herror rfl
        · exact .inr (.inl hcredit)

/-- A request that is cut at the end of the transfer still misses what it missed before it. -/
structure Clipped (size : Nat) (before after : Request) : Prop where
  data : after.data = before.data
  offset : after.offset = before.offset
  completed : after.completed = before.completed
  length_le : after.length ≤ before.length
  misses : ∀ b, b < size → before.Misses b → after.Misses b

theorem Clipped.refl (size : Nat) (r : Request) : Clipped size r r :=
  ⟨rfl, rfl, rfl, Nat.le_refl _, fun _ _ h => h⟩

theorem Clipped.trans {r₁ r₂ r₃ : Request} (h₁ : Clipped size r₁ r₂) (h₂ : Clipped size r₂ r₃) :
    Clipped size r₁ r₃ :=
  ⟨h₂.data.trans h₁.data, h₂.offset.trans h₁.offset, h₂.completed.trans h₁.completed,
    Nat.le_trans h₂.length_le h₁.length_le, fun b hb h => h₂.misses b hb (h₁.misses b hb h)⟩

/-- A cut request misses no more than before. -/
theorem Clipped.of_misses {before after : Request} (h : Clipped size before after)
    (hmisses : after.Misses b) : before.Misses b := by
  obtain ⟨hfrom, hto⟩ := hmisses
  have hle := h.length_le
  rw [h.data, h.completed] at hfrom
  rw [h.data] at hto
  exact ⟨hfrom, by omega⟩

theorem clipped_clip {b : Batch} {r : Request} (hplaced : r.offset - b.offset = r.data) :
    Clipped b.size r (clip b r) := by
  refine ⟨rfl, rfl, rfl, Nat.min_le_left _ _, fun byte hbyte hmisses => ?_⟩
  obtain ⟨hfrom, hto⟩ := hmisses
  refine ⟨hfrom, ?_⟩
  show byte < r.data + min r.length (b.size - (r.offset - b.offset))
  omega

theorem clipped_update {before : Fin ioRequests → Request} {r : Request}
    (h : Clipped size (before j) r) (i : Fin ioRequests) :
    Clipped size (before i) (Function.update before j r i) := by
  by_cases hij : i = j
  · subst hij
    rw [Function.update_self]
    exact h
  · rw [Function.update_of_ne hij]
    exact Clipped.refl _ _

/-- What the search finds: a request with missing bytes, or that no slot misses any. -/
structure Searched (b : Batch) (among : List (Fin ioRequests))
    (before after : Fin ioRequests → Request) (unfinished : Option (Fin ioRequests)) : Prop where
  clipped : ∀ i, Clipped b.size (before i) (after i)
  found : ∀ i, unfinished = some i → (after i).completed < (after i).length
  nothing : unfinished = none → ∀ i ∈ among, ∀ byte, byte < b.size → ¬ (before i).Misses byte

/-- The search cuts the requests that it passes. -/
theorem findUnfinished_searched (b : Batch) (among : List (Fin ioRequests)) :
    ∀ before : Fin ioRequests → Request,
      (∀ i, (before i).length ≠ 0 → (before i).offset - b.offset = (before i).data) →
      Searched b among before (findUnfinished b among before).1
        (findUnfinished b among before).2 := by
  induction among with
  | nil =>
    intro before _
    exact ⟨fun i => Clipped.refl _ _, fun i h => (by cases h), fun _ i hi => (by cases hi)⟩
  | cons j among ih =>
    intro before hplaced
    unfold findUnfinished
    dsimp only
    split
    · -- The slot is unused, or lies behind the end.
      rename_i hskip
      obtain ⟨hclipped, hfound, hnothing⟩ := ih before hplaced
      refine ⟨hclipped, hfound, fun hnone i hi byte hbyte hmisses => ?_⟩
      rcases List.mem_cons.mp hi with rfl | hi
      · obtain ⟨hfrom, hto⟩ := hmisses
        simp only [Bool.or_eq_true, decide_eq_true_eq] at hskip
        rcases hskip with hzero | hbehind
        · omega
        · rw [hplaced i (by omega)] at hbehind
          omega
      · exact hnothing hnone i hi byte hbyte hmisses
    · rename_i hused
      simp only [Bool.or_eq_true, decide_eq_true_eq, not_or, not_le] at hused
      have hclip := clipped_clip (hplaced j hused.1)
      split
      · rename_i hmissing
        refine ⟨clipped_update hclip, fun i hi => ?_, fun hnone => (by cases hnone)⟩
        cases hi
        show (Function.update before j (clip b (before j)) j).completed <
          (Function.update before j (clip b (before j)) j).length
        rw [Function.update_self]
        exact hmissing
      · rename_i hcomplete
        rw [not_lt] at hcomplete
        have hplaced' : ∀ i, (Function.update before j (clip b (before j)) i).length ≠ 0 →
            (Function.update before j (clip b (before j)) i).offset - b.offset =
              (Function.update before j (clip b (before j)) i).data := by
          intro i hi
          have hi' := clipped_update hclip i
          have hle := hi'.length_le
          rw [hi'.offset, hi'.data]
          exact hplaced i (by omega)
        obtain ⟨hclipped, hfound, hnothing⟩ := ih _ hplaced'
        refine ⟨fun i => (clipped_update hclip i).trans (hclipped i), hfound,
          fun hnone i hi byte hbyte hmisses => ?_⟩
        by_cases hij : i = j
        · subst hij
          obtain ⟨hfrom, hto⟩ := hclip.misses byte hbyte hmisses
          omega
        · refine hnothing hnone i ((List.mem_cons.mp hi).resolve_left hij) byte hbyte ?_
          rw [Function.update_of_ne hij]
          exact hmisses

/-- Requests may be clipped when no reply is pending. -/
theorem Sound.clip (h : Sound c s) (hpending : s.batch.pending = 0)
    {requests : Fin ioRequests → Request}
    (hclipped : ∀ i, Clipped s.batch.size (s.requests i) (requests i)) :
    Sound c { s with requests := requests } := by
  have hidle : ∀ i, s.flying i = false := by
    have hcount := h.pending
    rw [hpending] at hcount
    exact countWhere_eq_zero_iff.mp hcount.symm
  refine ⟨h.offset, h.write, h.block, h.window, h.next_le, h.size_le, fun i hi => ?_,
    fun i hi => ?_, h.pending, fun herror b hnext hsize => ?_, h.ended, h.full⟩
  · have hlength : (requests i).length ≠ 0 := hi
    have hle := (hclipped i).length_le
    obtain ⟨hoffset, hslot⟩ := h.placed i (by omega)
    refine ⟨?_, hslot⟩
    show (requests i).offset = c.offset + (requests i).data
    rw [(hclipped i).offset, (hclipped i).data]
    exact hoffset
  · have hfly : s.flying i = true := hi
    rw [hidle i] at hfly
    cases hfly
  · rcases h.covered herror b hnext hsize with hdone | ⟨i, hi, hwaits⟩
    · exact .inl hdone
    · exact .inr ⟨i, (hclipped i).misses b hsize hi, hwaits⟩

/-- What a call that returns a count has transferred: every byte up to the count, and a read
stops early only at the end of the file. -/
structure GapFree (c : Call) (s : State) (n : Nat) : Prop where
  transferred : ∀ b, b < n → Transferred c s b
  read : c.writing = false → n < c.cut → Ended s (c.offset + n)
  write : c.writing = true → n = c.cut

/-- The invariant of a run, by the place of the call. -/
def Inv (c : Call) (s : State) : Prop :=
  match s.phase with
  | .fill rest => Sound c s ∧ rest.Nodup ∧ (rest ≠ [] ∨ Busy s) ∧
      ∀ i ∈ rest, i ∈ slots s.window ∧ s.flying i = false ∧ (s.requests i).length = 0
  | .head => Sound c s ∧ Busy s
  | .service => Sound c s ∧ Busy s
  | .done result => ∀ n, result = some n → GapFree c s n

/-- A call that ends has transferred what it returns. -/
theorem Sound.finish (h : Sound c s)
    (hall : s.batch.error = none → ∀ b, b < s.batch.size → Transferred c s b) :
    Inv c (finish s) := by
  intro n hn
  cases herror : s.batch.error with
  | some e =>
    rw [herror] at hn
    cases hn
  | none =>
    rw [herror] at hn
    cases hn
    exact ⟨hall herror, fun _ => h.ended, h.full⟩

theorem Sound.finishFail (h : Sound c (s.fail n)) : Inv c (SmbIo.finish (s.fail n)) :=
  h.finish nofun

theorem Submitted.proceed {after : State × Option Nat} (h : Submitted c after) :
    Inv c (proceed .service after SmbIo.finish) := by
  obtain ⟨s, failed⟩ := after
  cases failed with
  | none => exact ⟨h.1.at .service, h.2⟩
  | some e => exact Sound.finishFail h

/-- The head of the second loop. -/
theorem Sound.loopHead (h : Sound c s) (hbusy : Busy s) (refused : Option Nat) :
    Inv c (loopHead refused s) := by
  unfold SmbIo.loopHead
  split
  · exact ⟨h.at .service, hbusy⟩
  · rename_i hpending
    rw [not_not] at hpending
    have hidle : ∀ i, s.flying i = false := by
      have hcount := h.pending
      rw [hpending] at hcount
      exact countWhere_eq_zero_iff.mp hcount.symm
    split
    · -- The queue is empty and no range is missing.
      rename_i hstop
      refine h.finish fun herror b hb => ?_
      have hcredit : s.batch.creditLimited = false := by simpa [herror] using hstop
      have hnext : s.batch.size ≤ s.batch.next := by
        rcases hbusy with hfailed | hlimited | hall | ⟨i, hi⟩
        · exact absurd herror hfailed
        · rw [hcredit] at hlimited
          cases hlimited
        · exact hall
        · rw [hidle i] at hi
          cases hi
      rcases h.covered herror b (by omega) hb with hdone | ⟨i, -, hfly | hlimited⟩
      · exact hdone
      · rw [hidle i] at hfly
        cases hfly
      · rw [hcredit] at hlimited
        cases hlimited
    · rename_i hgo
      have hplaced : ∀ i, (s.requests i).length ≠ 0 →
          (s.requests i).offset - s.batch.offset = (s.requests i).data := by
        intro i hi
        rw [(h.placed i hi).1, h.offset]
        omega
      obtain ⟨hclipped, hfound, hnothing⟩ :=
        findUnfinished_searched s.batch (slots s.window) s.requests hplaced
      cases hsearch : findUnfinished s.batch (slots s.window) s.requests with
      | mk requests unfinished =>
        rw [hsearch] at hclipped hfound hnothing
        have hclip : Sound c { s with requests := requests } := h.clip hpending hclipped
        dsimp only
        cases unfinished with
        | some i => exact (hclip.smbIoSubmit (hidle i) (hfound i rfl)).proceed
        | none =>
          -- No slot misses a byte, so that the first one can take the next block.
          have hnone : ∀ i b, b < s.batch.size → ¬ (s.requests i).Misses b := by
            intro i b hb hmisses
            have hslot := (h.placed i (by have := hmisses.1; have := hmisses.2; omega)).2
            exact hnothing rfl i hslot b hb hmisses
          dsimp only
          split
          · have hspare : Spare c { s with requests := requests } ⟨0, by decide⟩ := by
              refine ⟨hidle _, fun _ b hmisses hb => absurd ?_ (hnone ⟨0, by decide⟩ b hb)⟩
              exact (hclipped ⟨0, by decide⟩).of_misses hmisses
            exact (hclip.smbIoNext hspare (zero_mem_slots h.window) refused).proceed
          · rename_i hall
            refine hclip.finish fun herror b hb => ?_
            have hnext : b < s.batch.next := Nat.lt_of_lt_of_le hb (not_lt.mp hall)
            rcases h.covered herror b hnext hb with hdone | ⟨i, hmisses, -⟩
            · exact hdone
            · exact absurd hmisses (hnone i b hb)

/-- One turn of the first loop. -/
theorem Sound.fillSlot {rest : List (Fin ioRequests)} (h : Sound c s) (hnodup : rest.Nodup)
    (hbusy : rest ≠ [] ∨ Busy s)
    (hfree : ∀ i ∈ rest, i ∈ slots s.window ∧ s.flying i = false ∧ (s.requests i).length = 0)
    (refused : Option Nat) : Inv c (fillSlot refused s rest) := by
  cases rest with
  | nil => exact ⟨h.at .head, hbusy.resolve_left fun hne => hne rfl⟩
  | cons i rest =>
    simp only [SmbIo.fillSlot]
    by_cases hmore : s.batch.next < s.batch.size
    · rw [if_pos hmore]
      obtain ⟨hslot, hidle, hunused⟩ := hfree i List.mem_cons_self
      have hspare : Spare c s i := by
        refine ⟨hidle, fun _ b hmisses _ => ?_⟩
        obtain ⟨hfrom, hto⟩ := hmisses
        omega
      have hsubmitted := h.smbIoNext hspare hslot refused
      unfold SmbIo.smbIoNext at hsubmitted ⊢
      rw [if_neg (by omega)] at hsubmitted ⊢
      cases refused with
      | some e => exact ⟨.at hsubmitted .head, busy_fail _ e⟩
      | none =>
        refine ⟨hsubmitted.1.at _, (List.nodup_cons.mp hnodup).2, .inr hsubmitted.2,
          fun j hj => ?_⟩
        obtain ⟨hslot', hidle', hunused'⟩ := hfree j (List.mem_cons_of_mem _ hj)
        have hij : j ≠ i := by
          intro hij
          rw [hij] at hj
          exact (List.nodup_cons.mp hnodup).1 hj
        refine ⟨hslot', ?_, ?_⟩
        · show ((s.cutNext i).launch i).flying j = false
          rw [flying_launch_ne hij]
          exact hidle'
        · show ((s.cutNext i).requests j).length = 0
          rw [requests_cutNext_ne hij]
          exact hunused'
    · rw [if_neg hmore]
      exact ⟨h.at .head, .inr (.inr (.inl (not_lt.mp hmore)))⟩

/-- Submitting a request leaves the phase alone. -/
theorem phase_smbIoSubmit (i : Fin ioRequests) (refused : Option Nat) (s : State) :
    (smbIoSubmit i refused s).1.phase = s.phase := by
  cases refused <;> rfl

/-- A callback leaves the call where it is. -/
theorem phase_smbIoComplete (i : Fin ioRequests) (status : Int) (refused : Option Nat)
    (s : State) : (smbIoComplete i status refused s).phase = s.phase := by
  unfold smbIoComplete
  split
  · rfl
  · split
    · rfl
    · dsimp only
      split
      · have hphase : (smbIoNext i refused (accountReply i status.toNat (s.land i))).1.phase =
            s.phase := by
          unfold smbIoNext
          split
          · rfl
          · rw [phase_smbIoSubmit]
            rfl
        split
        · rename_i s₁ hnext
          rw [hnext] at hphase
          exact hphase
        · rename_i s₁ e hnext
          rw [hnext] at hphase
          exact hphase
      · rfl

/-- One step keeps the invariant. -/
theorem Inv.next (h : Inv c s) (step : Step) : Inv c (next s step) := by
  cases step with
  | fill refused =>
    unfold SmbIo.next
    dsimp only
    split
    · rename_i rest hphase
      unfold Inv at h
      rw [hphase] at h
      obtain ⟨hsound, hnodup, hbusy, hfree⟩ := h
      exact hsound.fillSlot hnodup hbusy hfree refused
    · exact h
  | head refused =>
    unfold SmbIo.next
    dsimp only
    split
    · rename_i hphase
      unfold Inv at h
      rw [hphase] at h
      exact h.1.loopHead h.2 refused
    · exact h
  | reply i status refused =>
    unfold SmbIo.next
    dsimp only
    split
    · rename_i hdue
      unfold Inv at h ⊢
      rw [hdue.1] at h
      rw [phase_smbIoComplete, hdue.1]
      exact h.1.smbIoComplete hdue.2 status refused
    · exact h
  | poll error =>
    unfold SmbIo.next
    dsimp only
    split
    · rename_i hphase
      unfold Inv at h
      rw [hphase] at h
      cases error with
      | none => exact ⟨h.1.at .head, h.2⟩
      | some e => exact (h.1.fail e).finishFail
    · exact h

theorem window_pos (c : Call) : 0 < c.window := by
  unfold Call.window
  split <;> decide

/-- The invariant holds at the start. -/
theorem inv_start (c : Call) : Inv c c.start := by
  have hphase : c.start.phase = c.entry := rfl
  unfold Inv
  rw [hphase]
  unfold Call.entry
  by_cases hempty : c.size = 0
  · rw [if_pos hempty]
    rintro n hn
    cases hn
    have hcut : c.cut = 0 := by simp [Call.cut, hempty]
    exact ⟨fun b hb => absurd hb (Nat.not_lt_zero b), fun _ h => (by omega), fun _ => hcut.symm⟩
  · rw [if_neg hempty]
    by_cases hoverflow : 2 ^ 63 - 1 - c.cut < c.offset
    · rw [if_pos hoverflow]
      rintro n hn
      cases hn
    · rw [if_neg hoverflow]
      by_cases hblock : c.block = 0
      · rw [if_pos hblock]
        rintro n hn
        cases hn
      · rw [if_neg hblock]
        refine ⟨⟨rfl, rfl, Nat.pos_of_ne_zero hblock, window_pos c, Nat.zero_le _, Nat.le_refl _,
          fun i hi => absurd rfl hi, fun i hi => (by cases hi), ?_,
          fun _ b hb => absurd hb (Nat.not_lt_zero b), fun h => absurd h (Nat.lt_irrefl _),
          fun _ => rfl⟩, ?_, ?_, fun i hi => ⟨hi, rfl, rfl⟩⟩
        · exact (countWhere_eq_zero_iff.mpr fun _ => rfl).symm
        · exact (List.nodup_finRange ioRequests).sublist (List.take_sublist _ _)
        · exact .inl (List.ne_nil_of_mem (zero_mem_slots (window_pos c)))

/-- The invariant holds in every run. -/
theorem inv_of_reachable (hs : Reachable c.system s) : Inv c s := by
  have hinit : ∀ s, c.system.init s → Inv c s := by
    rintro s rfl
    exact inv_start c
  have hstep : ∀ s i t, Inv c s → c.system.step s i t → Inv c t := by
    rintro s i t h rfl
    exact h.next i
  exact hs.invariant hinit hstep

/-- A reply of a file of a fixed length: bytes come from inside of it, and there are none only
at its end. -/
def Reply.Within (r : Reply) (fileEnd : Nat) : Prop :=
  if r.count = 0 then fileEnd ≤ r.offset else r.offset + r.count ≤ fileEnd

/-- A call that returns a count has transferred every byte up to it between its place in the
buffer and its place in the file.  A read returns less than it asked for, of the eight
megabytes that one call can transfer, only at the end of the file, and a write never does. -/
theorem smbIo_gapFree (c : Call) {s : State} (hs : Reachable c.system s) {n : Nat}
    (hdone : s.phase = .done (some n)) :
    (∀ b, b < n → Transferred c s b) ∧
      (c.writing = false → n < min c.size transferMax →
        Ended s (c.offset + n) ∧
          ∀ fileEnd, (∀ r ∈ s.replies, r.Within fileEnd) → 0 < n → fileEnd = c.offset + n) ∧
      (c.writing = true → n = min c.size transferMax) := by
  have hinv := inv_of_reachable hs
  unfold Inv at hinv
  rw [hdone] at hinv
  obtain ⟨htransferred, hread, hwrite⟩ := hinv n rfl
  refine ⟨htransferred, fun hreading hshort => ⟨hread hreading hshort, ?_⟩, hwrite⟩
  intro fileEnd hwithin hpositive
  obtain ⟨r, hr, hzero, -, hoffset⟩ := hread hreading hshort
  have hupper := hwithin r hr
  rw [Reply.Within, if_pos hzero] at hupper
  obtain ⟨r', hr', hfrom, hto, hplace⟩ := htransferred (n - 1) (by omega)
  have hlower := hwithin r' hr'
  rw [Reply.Within, if_neg (by omega)] at hlower
  omega

/-- A read of three blocks, of a file that ends within the second one. -/
def earlyEnd : Call := ⟨300000, 5, false, 100000, false⟩

instance : NeZero ioRequests := ⟨by decide⟩

/-- The last block is answered first, and the short one is asked for again. -/
def earlyEndSteps : List Step :=
  List.replicate 4 (.fill none) ++
    [.head none, .reply 2 0 none, .reply 1 50000 none, .reply 0 100000 none, .poll none,
      .head none, .reply 1 0 none, .poll none, .head none]

/-- The run reads what the file holds and stops at its end. -/
theorem smbIo_gapFree_earlyEnd :
    let last := earlyEndSteps.foldl next earlyEnd.start
    last.phase = .done (some 150000) ∧ (∀ b, b < 150000 → Transferred earlyEnd last b) ∧
      Ended last 150005 := by
  intro last
  have hdone : last.phase = .done (some 150000) := by decide +kernel
  have hshort : 150000 < min earlyEnd.size transferMax := by decide +kernel
  obtain ⟨hall, hread, -⟩ := smbIo_gapFree earlyEnd (.foldl earlyEndSteps) hdone
  exact ⟨hdone, hall, (hread rfl hshort).1⟩

/-- A read of a byte more than one call can transfer, of a file that is long enough. -/
def longRead : Call := ⟨transferMax + 1, 0, false, ioBlock, false⟩

def longReadSteps : List Step :=
  List.replicate 9 (.fill none) ++ [.head none] ++
    (List.finRange ioRequests).map (fun i => .reply i 1048576 none) ++ [.poll none, .head none]

/-- The read returns less than it was asked for, though the file did not end there. -/
theorem longRead_cut :
    ¬ ∀ (c : Call) (s : State) (n : Nat), Reachable c.system s → s.phase = .done (some n) →
      c.writing = false → n < c.size → Ended s (c.offset + n) := by
  intro h
  have hrun : (longReadSteps.foldl next longRead.start).phase = .done (some transferMax) ∧
      (longReadSteps.foldl next longRead.start).replies.all (fun r => decide (r.count ≠ 0)) =
        true := by
    decide +kernel
  obtain ⟨r, hr, hzero, -⟩ := h longRead _ transferMax (.foldl longReadSteps) hrun.1 rfl
    (Nat.lt_succ_self _)
  have hall := List.all_eq_true.mp hrun.2 r hr
  simp [hzero] at hall

end ShadowMount.SmbIo
