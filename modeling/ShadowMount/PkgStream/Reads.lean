import ShadowMount.Foundation.Counting
import ShadowMount.PkgStream.Slots

/-!
# Streamed reads are exact

The waiters of a slot are the readers that wait for it, so the slot of a reader that
sleeps is held and still about the same block when the reader wakes up.  What it
copies is therefore the next piece of the file.

Main results:

- Theorem {lit}`streamed_reads_exact`: in every interleaving with right replies, a
  successful read returns the bytes of the file.
-/

namespace ShadowMount.PkgStream

open Foundation

namespace Reader

variable {file : Nat → UInt8} {s : Stream} {r : Reader}
variable {slot : Slot} {s' : Stream} {i : Fin streamSlots}

/-- A call that is under way has copied the bytes up to its offset. -/
structure Pending (file : Nat → UInt8) (total : Nat) (r : Reader) : Prop where
  size_ne : r.size ≠ 0
  within : r.first + r.wanted ≤ total
  le : r.first ≤ r.offset
  remaining : r.offset + r.size = r.first + r.wanted
  out_eq : r.out = bytes file r.first (r.offset - r.first)

/-- What holds of a reader in every state. -/
def Valid (file : Nat → UInt8) (s : Stream) (r : Reader) : Prop :=
  match r.phase with
  | .entering => r.Pending file s.total
  | .blocked => r.Pending file s.total
  | .awaiting i => r.Pending file s.total ∧ (s.slots i).range.id ≠ 0 ∧
      (s.slots i).range.offset = r.start
  | .returned none => r.out = bytes file r.first r.wanted
  | _ => True

theorem start_lt (h : r.Pending file s.total) : r.start < s.total := by
  have hsize := h.size_ne
  have hwithin := h.within
  have hremaining := h.remaining
  unfold start
  omega

theorem start_aligned (r : Reader) : r.start % chunk = 0 := by
  unfold start
  exact Nat.sub_mod_eq_zero_of_mod_eq (Nat.mod_mod _ _).symm

theorem take_valid (h : r.Pending file s.total) (hfilled : slot.Filled file s.total)
    (hready : slot.ready = true) (hoffset : slot.range.offset = r.start)
    (htotal : s'.total = s.total) :
    (r.take ((slot.data.drop (r.offset % chunk)).take r.length)).Valid file s' := by
  have hsize := h.size_ne
  have hwithin := h.within
  have hle := h.le
  have hremaining := h.remaining
  have hmod : r.offset % chunk < chunk := Nat.mod_lt _ (by decide)
  have hmod_le : r.offset % chunk ≤ r.offset := Nat.mod_le _ _
  have hlength : r.length = min (chunk - r.offset % chunk) r.size := rfl
  have hpiece : (slot.data.drop (r.offset % chunk)).take r.length =
      bytes file r.offset r.length := by
    rw [hfilled.data hready, bytes_slice, hoffset]
    · have hback : r.start + r.offset % chunk = r.offset := by
        unfold start
        omega
      rw [hback]
    · rw [hfilled.size, hoffset, hlength]
      unfold start
      omega
  have hout : r.out ++ bytes file r.offset r.length =
      bytes file r.first (r.offset + r.length - r.first) := by
    have hjoin := bytes_append file r.first (r.offset - r.first) r.length
    have hat : r.first + (r.offset - r.first) = r.offset := by omega
    have hsum : r.offset - r.first + r.length = r.offset + r.length - r.first := by omega
    rw [hat, hsum] at hjoin
    rw [h.out_eq, hjoin]
  rw [hpiece]
  unfold Valid take
  by_cases hdone : r.size - r.length = 0
  · simp only [hdone, if_pos]
    rw [hout]
    congr 1
    omega
  · simp only [if_neg hdone]
    constructor
    · exact hdone
    · rw [htotal]
      exact hwithin
    · change r.first ≤ r.offset + r.length
      omega
    · change r.offset + r.length + (r.size - r.length) = r.first + r.wanted
      omega
    · exact hout

theorem leave_phase {status : Option Errno} (h : ¬(s.status.isNone && status.isNone) = true) :
    ∃ e, (r.leave s status).phase = .failing e := by
  unfold leave
  cases hs : s.status with
  | some e => exact ⟨e, rfl⟩
  | none =>
    cases status with
    | some e => exact ⟨e, rfl⟩
    | none =>
      rw [hs] at h
      exact absurd rfl h

/-- What a reader does between two waits: the stream stays sound, held slots keep
their range, the waiters follow the phase, and the reader stays valid. -/
structure Advanced (file : Nat → UInt8) (s : Stream) (r : Reader) (result : Reader × Stream) :
    Prop where
  total : result.2.total = s.total
  sound : result.2.Sound file
  kept : s.RangesKept result.2
  waiters : ∀ j, (result.2.slots j).waiters + (if r.phase = .awaiting j then 1 else 0) =
    (s.slots j).waiters + (if result.1.phase = .awaiting j then 1 else 0)
  valid : result.1.Valid file result.2

theorem Advanced.of_passive {r' : Reader} (h : Stream.Passive file s s')
    (hphase : ∀ j, r.phase ≠ .awaiting j) (hphase' : ∀ j, r'.phase ≠ .awaiting j)
    (hvalid : r'.Valid file s') : Advanced file s r (r', s') where
  total := h.total
  sound := h.sound
  kept i _ := h.ranges i
  waiters j := by simp [h.waiters j, hphase j, hphase' j]
  valid := hvalid

theorem sound_setSlot_waiters (h : s.Sound file) (hid : (s.slots i).range.id ≠ 0) (consumed : Bool)
    (lastUse waiters : Nat) :
    (s.setSlot i { s.slots i with consumed, lastUse, waiters }).Sound file := by
  apply h.setSlot
  · rfl
  · exact h.data
  · intro hzero
    exact absurd hzero hid

theorem setSlot_range (hrange : slot.range = (s.slots i).range) (j : Fin streamSlots) :
    ((s.setSlot i slot).slots j).range = (s.slots j).range := by
  by_cases heq : j = i
  · subst heq
    rw [Stream.setSlot_slots_self, hrange]
  · rw [Stream.setSlot_slots_of_ne s heq]

theorem setSlot_waiters (hwaiters : slot.waiters + 1 = (s.slots i).waiters) (j : Fin streamSlots) :
    ((s.setSlot i slot).slots j).waiters + (if j = i then 1 else 0) = (s.slots j).waiters := by
  by_cases heq : j = i
  · subst heq
    rw [Stream.setSlot_slots_self, if_pos rfl, hwaiters]
  · rw [Stream.setSlot_slots_of_ne s heq, if_neg heq, Nat.add_zero]

/-- A reader that waits is woken or waits on. -/
theorem await_spec (hsound : s.Sound file) (hpending : r.Pending file s.total)
    (hid : (s.slots i).range.id ≠ 0) (hoffset : (s.slots i).range.offset = r.start)
    (hwaiters : (s.slots i).waiters ≠ 0) (status : Option Errno) :
    (r.await s i status).2.total = s.total ∧ (r.await s i status).2.Sound file ∧
      (∀ j, ((r.await s i status).2.slots j).range = (s.slots j).range) ∧
      (∀ j, ((r.await s i status).2.slots j).waiters + (if j = i then 1 else 0) =
        (s.slots j).waiters + (if (r.await s i status).1.phase = .awaiting j then 1 else 0)) ∧
      (r.await s i status).1.Valid file (r.await s i status).2 := by
  have hpred : (s.slots i).waiters - 1 + 1 = (s.slots i).waiters := by omega
  unfold await
  dsimp only
  split
  · split
    · rename_i hready
      have hnot : ∀ j, (r.take (((s.slots i).data.drop (r.offset % chunk)).take r.length)).phase ≠
          .awaiting j := by
        intro j
        unfold take
        dsimp only
        split <;> exact nofun
      refine ⟨rfl, ?_, ?_, ?_, ?_⟩
      · exact (sound_setSlot_waiters hsound hid true (s.tick + 1) _).of_slots rfl rfl
      · intro j
        refine setSlot_range ?_ j
        rfl
      · intro j
        rw [if_neg (hnot j), Nat.add_zero]
        exact setSlot_waiters hpred j
      · exact take_valid hpending (hsound.used i hid) hready hoffset rfl
    · refine ⟨rfl, hsound, fun _ => rfl, ?_, ?_⟩
      · intro j
        by_cases heq : j = i
        · subst heq
          simp
        · have hne : i ≠ j := fun h => heq h.symm
          simp [heq, hne]
      · exact ⟨⟨hpending.size_ne, hpending.within, hpending.le, hpending.remaining,
          hpending.out_eq⟩, hid, hoffset⟩
  · rename_i hstop
    rcases leave_phase hstop (r := r) with ⟨e, hphase⟩
    refine ⟨rfl, ?_, ?_, ?_, ?_⟩
    · exact sound_setSlot_waiters hsound hid _ _ _
    · intro j
      refine setSlot_range ?_ j
      rfl
    · intro j
      rw [hphase]
      simp only [reduceCtorEq, if_false, Nat.add_zero]
      exact setSlot_waiters hpred j
    · unfold Valid
      rw [hphase]
      trivial

/-- A reader takes a block that is ready or waits for one. -/
theorem acquire_spec (hsound : s.Sound file) (hpending : r.Pending file s.total)
    (hphase : ∀ j, r.phase ≠ .awaiting j) (status : Option Errno)
    (realloc : Nat → Option Bytes) : Advanced file s r (r.acquire s status realloc) := by
  have hlt := start_lt hpending
  have haligned := r.start_aligned
  unfold acquire
  split
  · rcases hsound.requestSegment hlt haligned true realloc with ⟨hsound₁, hkept₁, hok⟩
    split
    · rename_i i s₁ hrequest
      rw [hrequest] at hsound₁ hkept₁ hok
      rcases hok i rfl with ⟨hid₁, hoffset₁⟩
      -- the slot gets one more waiter, so the read-ahead cannot take it
      let s₂ := s₁.setSlot i { s₁.slots i with waiters := (s₁.slots i).waiters + 1 }
      have hrange₂ : ∀ j, (s₂.slots j).range = (s₁.slots j).range := by
        intro j
        refine setSlot_range ?_ j
        rfl
      have hwaiters₂ : ∀ j, (s₂.slots j).waiters =
          (s₁.slots j).waiters + (if j = i then 1 else 0) := by
        intro j
        by_cases heq : j = i
        · subst heq
          simp [s₂]
        · simp [s₂, Stream.setSlot_slots_of_ne s₁ heq, heq]
      have hready₂ : ∀ j, (s₂.slots j).ready = (s₁.slots j).ready := by
        intro j
        by_cases heq : j = i
        · subst heq
          simp [s₂]
        · simp [s₂, Stream.setSlot_slots_of_ne s₁ heq]
      have hsound₂ : s₂.Sound file := sound_setSlot_waiters hsound₁ hid₁ _ _ _
      let s₃ := if 64 * 1024 ≤ r.wanted then s₂.prefetchSegments r.start realloc else s₂
      have hahead : s₃.Sound file ∧ s₂.Kept s₃ := by
        unfold s₃
        split
        · exact hsound₂.prefetchSegments haligned realloc
        · exact ⟨hsound₂, Stream.Kept.refl s₂⟩
      have hheld : (s₂.slots i).Held := by
        refine ⟨?_, .inl ?_⟩
        · rw [hrange₂]
          exact hid₁
        · rw [hwaiters₂, if_pos rfl]
          omega
      have hslot : s₃.slots i = s₂.slots i := hahead.2.held i hheld
      have htotal : s₃.total = s.total := hahead.2.total.trans hkept₁.total
      have hawait := await_spec hahead.1 (htotal ▸ hpending) (i := i)
        (by rw [hslot]; exact hheld.1) (by rw [hslot, hrange₂]; exact hoffset₁)
        (by rw [hslot, hwaiters₂, if_pos rfl]; omega) none
      rcases hawait with ⟨htotal₄, hsound₄, hrange₄, hwaiters₄, hvalid₄⟩
      constructor
      · exact htotal₄.trans htotal
      · exact hsound₄
      · intro j hj
        have hsame := hkept₁.held j hj
        have hheld₂ : (s₂.slots j).Held := by
          refine ⟨?_, ?_⟩
          · rw [hrange₂, hsame]
            exact hj.1
          · rw [hrange₂, hready₂, hwaiters₂, hsame]
            rcases hj.2 with hw | hr
            · exact .inl (by omega)
            · exact .inr hr
        calc ((r.await s₃ i none).2.slots j).range
            = (s₃.slots j).range := hrange₄ j
          _ = (s₂.slots j).range := by rw [hahead.2.held j hheld₂]
          _ = (s.slots j).range := by rw [hrange₂, hsame]
      · intro j
        have hcount := hwaiters₄ j
        rw [hahead.2.waiters j, hwaiters₂ j, hkept₁.waiters j] at hcount
        rw [if_neg (hphase j), Nat.add_zero]
        change ((r.await s₃ i none).2.slots j).waiters = (s.slots j).waiters +
          (if (r.await s₃ i none).1.phase = .awaiting j then 1 else 0)
        omega
      · exact hvalid₄
    · rename_i s₁ hrequest
      rw [hrequest] at hsound₁ hkept₁
      have hstop : ¬(s₁.status.isNone && (some Errno.ENOMEM).isNone) = true := by simp
      rcases leave_phase hstop (r := r) with ⟨e, hleave⟩
      refine ⟨hkept₁.total, hsound₁, ?_, ?_, ?_⟩
      · intro j hj
        exact congrArg Slot.range (hkept₁.held j hj)
      · intro j
        rw [hleave, if_neg (hphase j)]
        exact hkept₁.waiters j
      · unfold Valid
        rw [hleave]
        trivial
    · rename_i s₁ _ hrequest
      rw [hrequest] at hsound₁ hkept₁
      refine ⟨hkept₁.total, hsound₁, ?_, ?_, ?_⟩
      · intro j hj
        exact congrArg Slot.range (hkept₁.held j hj)
      · intro j
        rw [if_neg (hphase j)]
        exact hkept₁.waiters j
      · change Pending file s₁.total _
        rw [show s₁.total = s.total from hkept₁.total]
        exact ⟨hpending.size_ne, hpending.within, hpending.le, hpending.remaining,
          hpending.out_eq⟩
  · rename_i hstop
    rcases leave_phase hstop (r := r) with ⟨e, hleave⟩
    apply Advanced.of_passive hsound.passive hphase
    · intro j
      rw [hleave]
      exact nofun
    · unfold Valid
      rw [hleave]
      trivial

/-- What a reader does between two waits. -/
theorem advance_spec (hsound : s.Sound file) (hvalid : r.Valid file s)
    (hcounted : ∀ i, r.phase = .awaiting i → (s.slots i).waiters ≠ 0) (status : Option Errno)
    (realloc : Nat → Option Bytes) : Advanced file s r (r.advance s status realloc) := by
  unfold advance
  cases hphase : r.phase with
  | idle =>
    have hnot : ∀ j, r.phase ≠ .awaiting j := by simp [hphase]
    exact Advanced.of_passive hsound.passive hnot hnot hvalid
  | entering =>
    unfold Valid at hvalid
    rw [hphase] at hvalid
    exact acquire_spec hsound hvalid (by simp [hphase]) none realloc
  | blocked =>
    unfold Valid at hvalid
    rw [hphase] at hvalid
    exact acquire_spec hsound hvalid (by simp [hphase]) status realloc
  | awaiting i =>
    unfold Valid at hvalid
    rw [hphase] at hvalid
    rcases hvalid with ⟨hpending, hid, hoffset⟩
    rcases await_spec hsound hpending hid hoffset (hcounted i hphase) status with
      ⟨htotal, hsound', hrange, hwaiters, hvalid'⟩
    refine ⟨htotal, hsound', fun j _ => hrange j, ?_, hvalid'⟩
    intro j
    have hcount := hwaiters j
    rw [hphase]
    by_cases heq : j = i
    · subst heq
      simpa using hcount
    · have hne : i ≠ j := fun h => heq h.symm
      simpa [heq, hne] using hcount
  | failing e =>
    apply Advanced.of_passive (hsound.passive_fail (some e))
    · simp [hphase]
    · simp
    · trivial
  | returned status =>
    have hnot : ∀ j, r.phase ≠ .awaiting j := by simp [hphase]
    exact Advanced.of_passive hsound.passive hnot hnot hvalid

/-- A reader is not affected by what happens to the stream, as long as the slot it
waits for keeps its range. -/
theorem Valid.of_kept (h : r.Valid file s) (htotal : s'.total = s.total)
    (hrange : ∀ i, r.phase = .awaiting i → (s'.slots i).range = (s.slots i).range) :
    r.Valid file s' := by
  unfold Valid at h ⊢
  cases hphase : r.phase with
  | awaiting i =>
    rw [hphase] at h
    dsimp only at h ⊢
    rw [htotal, hrange i hphase]
    exact h
  | returned status =>
    rw [hphase] at h
    cases status with
    | none => exact h
    | some e => trivial
  | entering =>
    rw [hphase] at h
    dsimp only at h ⊢
    rw [htotal]
    exact h
  | blocked =>
    rw [hphase] at h
    dsimp only at h ⊢
    rw [htotal]
    exact h
  | idle => trivial
  | failing e => trivial

theorem call_valid (file : Nat → UInt8) (s : Stream) (offset size : Nat) :
    (Reader.call s.total offset size).Valid file s := by
  unfold Reader.call
  dsimp only
  split
  · trivial
  · rename_i hin
    split
    · rename_i hzero
      change [] = bytes file offset size
      rw [hzero]
      rfl
    · rename_i hsize
      refine ⟨hsize, ?_, Nat.le_refl _, rfl, ?_⟩
      · change offset + size ≤ s.total
        omega
      · change [] = bytes file offset (offset - offset)
        rw [Nat.sub_self]
        rfl

theorem call_phase (total offset size : Nat) (j : Fin streamSlots) :
    (Reader.call total offset size).phase ≠ .awaiting j := by
  unfold Reader.call
  dsimp only
  split
  · simp
  · split <;> simp

end Reader

variable {n : Nat} {file : Nat → UInt8} {total : Nat}

/-- What holds in every state: the stream is sound, the waiters of a slot are the
readers that wait for it, and every reader is valid. -/
structure Inv (file : Nat → UInt8) (st : State n) : Prop where
  sound : st.stream.Sound file
  counted : ∀ i, (st.stream.slots i).waiters =
    countWhere (fun r : Reader => r.phase = .awaiting i) st.readers
  readers : ∀ r, (st.readers r).Valid file st.stream

theorem Inv.waiters_ne {st : State n} (h : Inv file st) {r : Fin n} {i : Fin streamSlots}
    (hphase : (st.readers r).phase = .awaiting i) : (st.stream.slots i).waiters ≠ 0 := by
  rw [h.counted i]
  apply Nat.ne_of_gt
  rw [countWhere_pos_iff]
  exact ⟨r, by simp [hphase]⟩

theorem Inv.held {st : State n} (h : Inv file st) {r : Fin n} {i : Fin streamSlots}
    (hphase : (st.readers r).phase = .awaiting i) : (st.stream.slots i).Held := by
  refine ⟨?_, .inl (h.waiters_ne hphase)⟩
  have hvalid := h.readers r
  unfold Reader.Valid at hvalid
  rw [hphase] at hvalid
  exact hvalid.2.1

theorem Inv.passive {st : State n} {s' : Stream} (h : Inv file st)
    (hpassive : Stream.Passive file st.stream s') : Inv file { st with stream := s' } where
  sound := hpassive.sound
  counted i := (hpassive.waiters i).trans (h.counted i)
  readers r := (h.readers r).of_kept hpassive.total fun i _ => hpassive.ranges i

/-- Every step keeps the invariant, and held slots keep their range. -/
theorem Inv.next {st : State n} (h : Inv file st) {step : Step n} (hhonest : Honest file st step) :
    Inv file (st.next step) ∧ st.stream.RangesKept (st.next step).stream := by
  cases step with
  | call r offset size =>
    unfold State.next
    dsimp only
    split
    · rename_i hfree
      refine ⟨⟨h.sound, ?_, ?_⟩, fun _ _ => rfl⟩
      · intro i
        have hcount := countWhere_update (fun r : Reader => decide (r.phase = .awaiting i))
          st.readers r (Reader.call st.stream.total offset size)
        have hold : (st.readers r).phase ≠ .awaiting i := by
          intro hphase
          rw [hphase] at hfree
          cases hfree
        simp only [hold, Reader.call_phase, decide_false, Bool.false_eq_true, if_false,
          Nat.add_zero] at hcount
        rw [hcount]
        exact h.counted i
      · intro q
        change (Function.update st.readers r
          (Reader.call st.stream.total offset size) q).Valid file st.stream
        by_cases heq : q = r
        · subst heq
          rw [Function.update_self]
          exact Reader.call_valid file st.stream offset size
        · rw [Function.update_of_ne heq]
          exact h.readers q
    · exact ⟨h, fun _ _ => rfl⟩
  | advance r status realloc =>
    have hadvanced := Reader.advance_spec h.sound (h.readers r) (fun i => h.waiters_ne)
      status realloc
    refine ⟨⟨hadvanced.sound, ?_, ?_⟩, hadvanced.kept⟩
    · intro i
      have hcount := countWhere_update (fun r : Reader => decide (r.phase = .awaiting i))
        st.readers r ((st.readers r).advance st.stream status realloc).1
      simp only [decide_eq_true_eq] at hcount
      have hwaiters := hadvanced.waiters i
      rw [h.counted i] at hwaiters
      change ((((st.readers r).advance st.stream status realloc).2).slots i).waiters =
        countWhere _ (Function.update st.readers r
          ((st.readers r).advance st.stream status realloc).1)
      omega
    · intro q
      change (Function.update st.readers r
        ((st.readers r).advance st.stream status realloc).1 q).Valid file _
      by_cases heq : q = r
      · subst heq
        rw [Function.update_self]
        exact hadvanced.valid
      · rw [Function.update_of_ne heq]
        exact (h.readers q).of_kept hadvanced.total fun i hphase =>
          hadvanced.kept i (h.held hphase)
  | request =>
    have hpassive := h.sound.passive_request
    exact ⟨h.passive hpassive, fun i _ => hpassive.ranges i⟩
  | tryRequest client =>
    have hpassive := h.sound.passive_tryRequest client
    exact ⟨h.passive hpassive, fun i _ => hpassive.ranges i⟩
  | reply id data =>
    have hpassive := h.sound.passive_reply hhonest
    exact ⟨h.passive hpassive, fun i _ => hpassive.ranges i⟩
  | fail status =>
    have hpassive := h.sound.passive_fail status
    exact ⟨h.passive hpassive, fun i _ => hpassive.ranges i⟩

theorem Inv.init {st : State n} (h : (system file total n).init st) : Inv file st := by
  rcases h with ⟨hcreate, hreaders⟩
  have hslots : st.stream.slots = fun _ => Slot.zero := by
    unfold create at hcreate
    split at hcreate
    · cases hcreate
    · rw [← Except.ok.inj hcreate]
      rfl
  constructor
  · constructor
    · intro i hid
      rw [hslots] at hid
      exact absurd rfl hid
    · intro i _
      rw [hslots]
      exact ⟨rfl, rfl⟩
    · intro i j hid
      rw [hslots] at hid
      exact absurd rfl hid
  · intro i
    rw [hslots, hreaders]
    symm
    change countWhere _ _ = 0
    rw [countWhere_eq_zero_iff]
    intro r
    rfl
  · intro r
    rw [hreaders]
    trivial

theorem Inv.of_reachable {st : State n} (h : Reachable (system file total n) st) :
    Inv file st := by
  have hinit : ∀ st, (system file total n).init st → Inv file st := fun _ => Inv.init
  have hstep : ∀ st step st', Inv file st → (system file total n).step st step st' →
      Inv file st' := by
    rintro st step st' hinv ⟨rfl, hhonest⟩
    exact (hinv.next hhonest).1
  exact h.invariant hinit hstep

/-- In every interleaving of readers and clients whose accepted replies carry the bytes
of the file: a read that succeeds returns the bytes of the file, no two slots are about
the same block, no step gives a slot that is waited for or in flight to another block,
and a reply that answers no outstanding request changes nothing. -/
theorem streamed_reads_exact (file : Nat → UInt8) (total n : Nat) (st : State n)
    (h : Reachable (system file total n) st) :
    (∀ r, (st.readers r).phase = .returned none →
      (st.readers r).out = bytes file (st.readers r).first (st.readers r).wanted) ∧
    (∀ i j, (st.stream.slots i).range.id ≠ 0 → (st.stream.slots j).range.id ≠ 0 →
      (st.stream.slots i).range.offset = (st.stream.slots j).range.offset → i = j) ∧
    (∀ step st', (system file total n).step st step st' → ∀ i,
      (st.stream.slots i).range.id ≠ 0 →
      (st.stream.slots i).ready = false ∨ (st.stream.slots i).waiters ≠ 0 ∨
        (∃ r, (st.readers r).phase = .awaiting i) →
      (st'.stream.slots i).range = (st.stream.slots i).range) ∧
    (∀ id data, ¬Outstanding st.stream id → st.next (.reply id data) = st) := by
  have hinv := Inv.of_reachable h
  refine ⟨?_, hinv.sound.distinct, ?_, ?_⟩
  · intro r hphase
    have hvalid := hinv.readers r
    unfold Reader.Valid at hvalid
    rw [hphase] at hvalid
    exact hvalid
  · rintro step st' ⟨rfl, hhonest⟩ i hid hheld
    apply (hinv.next hhonest).2 i
    refine ⟨hid, ?_⟩
    rcases hheld with hready | hwaiters | ⟨r, hphase⟩
    · exact .inr (.inl hready)
    · exact .inl hwaiters
    · exact .inl (hinv.waiters_ne hphase)
  · intro id data hnot
    change { st with stream := (st.stream.reply id data).2 } = st
    rw [Stream.reply_of_not_outstanding hnot]

/-- Two reads of a package of five bytes, which one client uploads.  It sends its reply twice more
before the second reader goes on, once with other bytes. -/
theorem streamed_reads_exact_two_readers :
    let steps : List (Step 2) :=
      [.call 0 1 3, .call 1 3 2, .advance 0 none fun _ => some [], .advance 1 none fun _ => none,
        .tryRequest 1, .reply 1 [0, 1, 2, 3, 4], .advance 1 none fun _ => none,
        .reply 1 [5, 6, 7, 8, 9], .reply 1 [0, 1, 2, 3, 4], .advance 0 none fun _ => none]
    let last := steps.foldl State.next (State.fresh 5 2)
    (last.readers 0).out = bytes UInt8.ofNat 1 3 ∧
      (last.readers 1).out = bytes UInt8.ofNat 3 2 := by
  intro steps last
  have hstart : Reachable (system UInt8.ofNat 5 2) (State.fresh 5 2) :=
    Reachable.start ⟨rfl, rfl⟩
  have hadmits : Admits (Honest UInt8.ofNat) State.next (State.fresh 5 2) steps := by
    decide +kernel
  have hrun : Reachable (system UInt8.ofNat 5 2) last := by
    apply Reachable.of_admits _ hstart hadmits
    exact fun st step hhonest => ⟨rfl, hhonest⟩
  have hexact := (streamed_reads_exact UInt8.ofNat 5 2 last hrun).1
  exact ⟨hexact 0 (by decide +kernel), hexact 1 (by decide +kernel)⟩

end ShadowMount.PkgStream
