import ShadowMount.StorageCopy.Model

/-!
# Copying with a second thread

The loop that takes its blocks from a second thread does what the loop does that reads them itself
into a buffer of the same size, in every interleaving of the two threads.
-/

namespace ShadowMount.StorageCopy

open Foundation
open Storage (storageReadSize)

variable {W S : Type} {t : Transfer W S} {capacity : Nat}
variable {junk : Block}

/-- The loop has a block that it has not given back. -/
def Copier.Holds (c : Copier S) : Prop :=
  match c.place with
  | .writing _ | .next => True
  | .top | .reading | .finished _ => False

def Copier.Finished (c : Copier S) : Prop := ∃ status, c.place = .finished status

instance (c : Copier S) : Decidable c.Holds := by
  unfold Copier.Holds
  split <;> infer_instance

/-- The filled blocks that the loop has not taken yet. -/
def Ahead.unread (s : Ahead W S) : List Block :=
  if s.copier.Holds then (queued s.blocks s.slot s.pending).tail
  else queued s.blocks s.slot s.pending

/-- The block that was read and is not published yet. -/
def Ahead.inflight (s : Ahead W S) : List Block :=
  match s.reader with
  | .read block => [block]
  | .top | .reading | .ended => []

/-- How the threads and the plain loop are related. -/
structure Related (t : Transfer W S) (capacity : Nat) (s : Ahead W S) (q : Plain W S) : Prop where
  copier : s.copier = q.copier
  pending : s.pending ≤ 2
  filling : s.reader ≠ .ended → s.filling = tailBlock s.slot s.pending
  room : ∀ reader, s.reader = reader → reader ≠ .top → reader ≠ .ended → s.pending ≤ 1
  holds : s.copier.Holds → 1 ≤ s.pending ∧
    ∃ data, s.blocks s.slot = .ok data ∧ q.buffer = .ok data ∧ data.length = s.copier.count
  passed : s.copier.place = .reading → t.cancelled s.copier.destination = false
  running : ¬ s.copier.Finished → s.stop = false
  answers : ¬ s.copier.Finished → Answers (t.source capacity) (q.file, q.completed)
    (s.unread ++ s.inflight) (s.file, s.completed)
  closed : ¬ s.copier.Finished → s.reader = .ended →
    ∃ block ∈ s.unread.getLast?, block.bytes = []

/-- The plain loop reads the answer that was read ahead. -/
theorem plain_take {q : Plain W S} {block : Block} {rest : List Block} {y : W × Nat}
    (hplace : q.copier.place = .reading) (hpassed : t.cancelled q.copier.destination = false)
    (h : Answers (t.source capacity) (q.file, q.completed) (block :: rest) y) :
    ∃ q₁ file, plainNext t capacity q = some q₁ ∧
      Runs (plainNext t capacity) q₁
        ⟨file, q.completed + block.bytes.length, block, q.copier.take block⟩ ∧
      Answers (t.source capacity) (file, q.completed + block.bytes.length) rest y := by
  obtain ⟨file₀, completed, buffer, copier⟩ := q
  dsimp only at hplace hpassed h ⊢
  generalize hx : (file₀, completed) = x at h
  generalize hl : block :: rest = l at h
  induction h generalizing file₀ with
  | nil x => cases hl
  | interrupted hask hmore ih =>
    cases hx
    cases hl
    obtain ⟨q₁, file, hfirst, hruns, hanswers⟩ := ih _ rfl rfl
    have hasked : t.read _ (storageReadSize t.sourceSize completed capacity) = (_, none) := hask
    refine ⟨_, file, by unfold plainNext; rw [hplace]; dsimp only; rw [hasked], ?_, hanswers⟩
    -- The plain loop starts its turn again, and still finds no cancellation.
    refine @Runs.head _ _ _ ⟨_, completed, buffer, copier⟩ _ ?_ (Runs.head hfirst hruns)
    have htop : Copier.top t { copier with place := .top } = copier := by
      unfold Copier.top
      rw [hpassed, if_neg (by decide), ← hplace]
    unfold plainNext
    dsimp only
    rw [htop]
  | answer hask hmore ih =>
    cases hx
    cases hl
    have hasked : t.read _ (storageReadSize t.sourceSize completed capacity) =
      (_, some block) := hask
    exact ⟨_, _, by unfold plainNext; rw [hplace]; dsimp only; rw [hasked], Runs.refl _, hmore⟩

theorem Copier.take_cases (c : Copier S) (block : Block) :
    (c.take block).Finished ∧ block.bytes = [] ∨
      ∃ data, block = .ok data ∧ data ≠ [] ∧
        c.take block = { c with place := .writing 0, count := data.length } := by
  cases block with
  | error e => exact .inl ⟨⟨some e, rfl⟩, rfl⟩
  | ok data =>
    by_cases hdata : data = []
    · subst hdata
      exact .inl ⟨⟨none, rfl⟩, rfl⟩
    · exact .inr ⟨data, rfl, hdata, by unfold Copier.take; dsimp only; rw [if_neg hdata]⟩

theorem Copier.write_cases (t : Transfer W S) (c : Copier S) (block : Block) (done : Nat)
    (hplace : c.place = .writing done) :
    (c.write t block done).Finished ∨
      (c.write t block done).Holds ∧ (c.write t block done).count = c.count ∧
        (c.write t block done).place ≠ .reading := by
  unfold Copier.write
  split
  · exact .inr ⟨trivial, rfl, nofun⟩
  · split
    · exact .inl ⟨_, rfl⟩
    · dsimp only
      split
      · refine .inr ⟨?_, rfl, ?_⟩
        · unfold Copier.Holds
          rw [hplace]
          trivial
        · rw [hplace]
          exact nofun
      · exact .inl ⟨_, rfl⟩
      · split
        · exact .inl ⟨_, rfl⟩
        · exact .inr ⟨trivial, rfl, nofun⟩

/-- How far the reader is in its turn. -/
def ReaderPlace.phase : ReaderPlace → Nat
  | .top | .reading => 2
  | .read _ => 1
  | .ended => 0

def ReaderPlace.rank : ReaderPlace → Nat
  | .top => 1
  | .reading | .read _ | .ended => 0

/-- What a step of the reader makes smaller: blocks to fill and the phases of a turn, then
interruptions to come. -/
def Ahead.height (patience : W → Nat → Nat) (s : Ahead W S) : Nat × Nat :=
  ((if s.stop then 0 else 9) + (2 - s.pending) * 3 + s.reader.phase,
    2 * patience s.file s.completed + s.reader.rank)

/-- A step that the plain loop does not make. -/
def Down (t : Transfer W S) (capacity : Nat) (s s' : Ahead W S) : Prop :=
  ∀ patience, Patient (t.source capacity) patience →
    Prod.Lex (· < ·) (· < ·) (s'.height patience) (s.height patience)

theorem wellFounded_down {patience : W → Nat → Nat} (h : Patient (t.source capacity) patience) :
    WellFounded fun s' s : Ahead W S => Down t capacity s s' :=
  Subrelation.wf (fun hdown => hdown patience h) (wellFounded_heights (Ahead.height patience))

theorem Down.first {s s' : Ahead W S}
    (h : (if s'.stop then 0 else 9) + (2 - s'.pending) * 3 + s'.reader.phase <
      (if s.stop then 0 else 9) + (2 - s.pending) * 3 + s.reader.phase) : Down t capacity s s' :=
  fun _ _ => Prod.Lex.left _ _ h

theorem Down.second {s s' : Ahead W S}
    (hfirst : (if s'.stop then 0 else 9) + (2 - s'.pending) * 3 + s'.reader.phase =
      (if s.stop then 0 else 9) + (2 - s.pending) * 3 + s.reader.phase)
    (h : ∀ patience, Patient (t.source capacity) patience →
      2 * patience s'.file s'.completed + s'.reader.rank <
        2 * patience s.file s.completed + s.reader.rank) : Down t capacity s s' := by
  intro patience hpatient
  have hless := h patience hpatient
  unfold Ahead.height
  rw [hfirst]
  exact Prod.Lex.right _ hless

variable {s s' : Ahead W S} {q : Plain W S}

theorem Related.slot_ne (h : Related t capacity s q) (hholds : s.copier.Holds)
    (hroom : s.pending ≤ 1) : s.slot ≠ tailBlock s.slot s.pending := by
  have hpos := (h.holds hholds).1
  exact head_ne_tailBlock (by omega)

theorem Related.fill (h : Related t capacity s q) (hopen : s.reader ≠ .ended)
    (hroom : s.pending ≤ 1) (block : Block) :
    let blocks := Function.update s.blocks s.filling block
    queued blocks s.slot s.pending = queued s.blocks s.slot s.pending ∧
      (s.copier.Holds → blocks s.slot = s.blocks s.slot) := by
  rw [h.filling hopen]
  exact ⟨queued_update hroom block, fun hholds =>
    Function.update_of_ne (h.slot_ne hholds hroom) block s.blocks⟩

/-- The reader begins a turn. -/
theorem Related.reader_top (h : Related t capacity s q) (hreader : s.reader = .top)
    (hstep : readerStep t capacity junk s = some s') :
    Related t capacity s' q ∧ Down t capacity s s' := by
  have hinflight : s.inflight = [] := by
    unfold Ahead.inflight
    rw [hreader]
  have hanswers := h.answers
  have hfilling := h.filling (by rw [hreader]; exact nofun)
  rw [hinflight] at hanswers
  unfold readerStep at hstep
  rw [hreader] at hstep
  dsimp only at hstep
  split at hstep
  · rename_i hstop
    cases hstep
    have hfinished : s.copier.Finished := by
      by_contra hopen
      rw [h.running hopen] at hstop
      cases hstop
    refine ⟨{ h with
        filling := fun hopen => absurd rfl hopen
        room := fun reader hplace _ hended => absurd hplace.symm hended
        answers := hanswers
        closed := fun hopen => absurd hfinished hopen }, Down.first ?_⟩
    rw [hreader]
    simp only [ReaderPlace.phase]
    omega
  · split at hstep
    · cases hstep
    · rename_i hfull
      cases hstep
      have hpending := h.pending
      have hroom : s.pending ≤ 1 := by omega
      obtain ⟨hqueued, hhead⟩ := h.fill (by rw [hreader]; exact nofun) hroom junk
      refine ⟨{ h with
          filling := fun _ => hfilling
          room := fun _ _ _ _ => hroom
          holds := ?_
          answers := ?_
          closed := nofun }, Down.second ?_ ?_⟩
      · intro hholds
        obtain ⟨hpos, data, hdata, hbuffer, hcount⟩ := h.holds hholds
        exact ⟨hpos, data, (hhead hholds).trans hdata, hbuffer, hcount⟩
      · intro hopen
        have hsame := hanswers hopen
        unfold Ahead.unread at hsame ⊢
        unfold Ahead.inflight
        dsimp only
        rw [hqueued]
        exact hsame
      · rw [hreader]
        rfl
      · intro patience _
        rw [hreader]
        simp only [ReaderPlace.rank]
        omega

/-- The reader asks the file. -/
theorem Related.reader_reading (h : Related t capacity s q) (hreader : s.reader = .reading)
    (hstep : readerStep t capacity junk s = some s') :
    Related t capacity s' q ∧ Down t capacity s s' := by
  have hroom := h.room _ hreader (nofun) (nofun)
  have hfilling := h.filling (by rw [hreader]; exact nofun)
  have hinflight : s.inflight = [] := by
    unfold Ahead.inflight
    rw [hreader]
  have hanswers := h.answers
  rw [hinflight] at hanswers
  unfold readerStep at hstep
  rw [hreader] at hstep
  dsimp only at hstep
  split at hstep
  · rename_i file hask
    cases hstep
    have hasked : (t.source capacity).ask s.file s.completed = (file, none) := hask
    refine ⟨{ h with
        filling := fun _ => hfilling
        room := fun _ _ _ _ => hroom
        answers := fun hopen => (hanswers hopen).wait hasked
        closed := nofun }, Down.second ?_ ?_⟩
    · rw [hreader]
    · intro patience hpatient
      have hless := hpatient hasked
      rw [hreader]
      dsimp only
      omega
  · rename_i file block hask
    cases hstep
    have hasked : (t.source capacity).ask s.file s.completed = (file, some block) := hask
    refine ⟨{ h with
        filling := fun _ => hfilling
        room := fun _ _ _ _ => hroom
        answers := ?_
        closed := nofun }, Down.first ?_⟩
    · intro hopen
      have hmore := (hanswers hopen).snoc hasked
      rw [List.append_nil] at hmore
      exact hmore
    · rw [hreader]
      simp only [ReaderPlace.phase]
      omega

theorem Related.unread_push (h : Related t capacity s q) (hopen : s.reader ≠ .ended)
    (hroom : s.pending ≤ 1) (block : Block) :
    let blocks := Function.update s.blocks s.filling block
    (if s.copier.Holds then (queued blocks s.slot (s.pending + 1)).tail
      else queued blocks s.slot (s.pending + 1)) = s.unread ++ [block] := by
  obtain ⟨hqueued, -⟩ := h.fill hopen hroom block
  dsimp only at hqueued ⊢
  rw [queued_push_unread (fun hholds => (h.holds hholds).1) hroom, hqueued, ← h.filling hopen,
    Function.update_self]
  rfl

/-- The reader publishes its block. -/
theorem Related.reader_read (h : Related t capacity s q) {block : Block}
    (hreader : s.reader = .read block) (hstep : readerStep t capacity junk s = some s') :
    Related t capacity s' q ∧ Down t capacity s s' := by
  have hnot : s.reader ≠ .ended := by
    rw [hreader]
    exact nofun
  have hroom := h.room _ hreader (nofun) (nofun)
  have hfilling := h.filling hnot
  have hinflight : s.inflight = [block] := by
    unfold Ahead.inflight
    rw [hreader]
  have hanswers := h.answers
  rw [hinflight] at hanswers
  have hpush := h.unread_push hnot hroom block
  have hholds : s.copier.Holds → 1 ≤ s.pending + 1 ∧ ∃ data,
      Function.update s.blocks s.filling block s.slot = .ok data ∧ q.buffer = .ok data ∧
        data.length = s.copier.count := by
    intro hhas
    obtain ⟨hpos, data, hdata, hrest⟩ := h.holds hhas
    exact ⟨by omega, data, ((h.fill hnot hroom block).2 hhas).trans hdata, hrest⟩
  unfold readerStep at hstep
  rw [hreader] at hstep
  dsimp only at hstep hpush
  split at hstep
  · rename_i hstop
    cases hstep
    have hfinished : s.copier.Finished := by
      by_contra hopen
      rw [h.running hopen] at hstop
      cases hstop
    refine ⟨{ h with
        filling := fun hopen => absurd rfl hopen
        room := fun reader hplace _ hended => absurd hplace.symm hended
        answers := fun hopen => absurd hfinished hopen
        closed := fun hopen => absurd hfinished hopen }, Down.first ?_⟩
    rw [hreader]
    simp only [ReaderPlace.phase]
    omega
  · split at hstep
    · rename_i hempty
      cases hstep
      refine ⟨{ h with
          pending := Nat.succ_le_succ hroom
          filling := fun hopen => absurd rfl hopen
          room := fun reader hplace _ hended => absurd hplace.symm hended
          holds := hholds
          answers := ?_
          closed := ?_ }, Down.first ?_⟩
      · intro hopen
        have hsame := hanswers hopen
        rw [← hpush] at hsame
        unfold Ahead.unread Ahead.inflight
        dsimp only
        rw [List.append_nil]
        exact hsame
      · intro _ _
        refine ⟨block, ?_, hempty⟩
        unfold Ahead.unread
        dsimp only
        rw [hpush, List.getLast?_concat]
        rfl
      · rw [hreader]
        simp only [ReaderPlace.phase]
        omega
    · cases hstep
      refine ⟨{ h with
          pending := Nat.succ_le_succ hroom
          filling := fun _ => ?_
          room := fun reader hplace htop => absurd hplace.symm htop
          holds := hholds
          answers := ?_
          closed := nofun }, Down.first ?_⟩
      · dsimp only
        rw [hfilling]
        exact tailBlock_succ s.slot s.pending
      · intro hopen
        have hsame := hanswers hopen
        rw [← hpush] at hsame
        unfold Ahead.unread Ahead.inflight
        dsimp only
        rw [List.append_nil]
        exact hsame
      · rw [hreader]
        simp only [ReaderPlace.phase]
        omega

theorem Related.readerStep (h : Related t capacity s q)
    (hstep : readerStep t capacity junk s = some s') :
    Related t capacity s' q ∧ Down t capacity s s' := by
  cases hreader : s.reader with
  | top => exact h.reader_top hreader hstep
  | reading => exact h.reader_reading hreader hstep
  | read block => exact h.reader_read hreader hstep
  | ended =>
    unfold StorageCopy.readerStep at hstep
    rw [hreader] at hstep
    cases hstep

theorem Copier.not_finished_of_place {c : Copier S} {place : Place} (h : c.place = place)
    (hplace : ∀ status, place ≠ .finished status) : ¬ c.Finished := by
  rintro ⟨status, hstatus⟩
  exact hplace status (h.symm.trans hstatus)

/-- A state in which the loop has ended is related to every state with the same loop, as far as
the reader is where it was. -/
theorem Related.finish (h : Related t capacity s q) {c : Copier S} {q' : Plain W S}
    (hc : c.Finished) (hq : q'.copier = c) :
    Related t capacity { s with copier := c } q' := by
  obtain ⟨status, hstatus⟩ := hc
  have hnot : ¬ c.Holds := by
    unfold Copier.Holds
    rw [hstatus]
    exact id
  exact { h with
    copier := hq.symm
    holds := fun hholds => absurd hholds hnot
    passed := fun hplace => by
      have hplace' : c.place = .reading := hplace
      rw [hstatus] at hplace'
      cases hplace'
    running := fun hopen => absurd ⟨status, hstatus⟩ hopen
    answers := fun hopen => absurd ⟨status, hstatus⟩ hopen
    closed := fun hopen => absurd ⟨status, hstatus⟩ hopen }

/-- The plain loop follows. -/
def Followed (t : Transfer W S) (capacity : Nat) (s' : Ahead W S) (q : Plain W S) : Prop :=
  ∃ q₁ q', plainNext t capacity q = some q₁ ∧ Runs (plainNext t capacity) q₁ q' ∧
    Related t capacity s' q'

theorem Related.copier_top (h : Related t capacity s q) (hplace : s.copier.place = .top) :
    Followed t capacity { s with copier := s.copier.top t } q := by
  have hnext : plainNext t capacity q = some { q with copier := q.copier.top t } := by
    unfold plainNext
    rw [← h.copier, hplace]
  refine ⟨_, _, hnext, Runs.refl _, ?_⟩
  cases hcancelled : t.cancelled s.copier.destination with
  | false =>
    have htop : s.copier.top t = { s.copier with place := .reading } := by
      unfold Copier.top
      rw [hcancelled, if_neg (by decide)]
    have hopen := Copier.not_finished_of_place hplace fun status h => nomatch h
    have hnot : ¬ s.copier.Holds := by
      unfold Copier.Holds
      rw [hplace]
      exact id
    have hunread : s.unread = ({ s with
        copier := { s.copier with place := .reading } } : Ahead W S).unread := if_neg hnot
    rw [htop, ← h.copier, htop]
    refine { h with
      copier := rfl
      holds := fun hholds => absurd hholds id
      passed := fun _ => hcancelled
      running := fun _ => h.running hopen
      answers := fun _ => ?_
      closed := fun _ hended => ?_ }
    · rw [← hunread]
      exact h.answers hopen
    · rw [← hunread]
      exact h.closed hopen hended
  | true =>
    have htop : s.copier.top t = { s.copier with place := .finished (some .ECANCELED) } := by
      unfold Copier.top
      rw [hcancelled, if_pos rfl]
    rw [htop, ← h.copier, htop]
    exact h.finish ⟨_, rfl⟩ rfl

/-- The copier takes a block. -/
theorem Related.copier_reading (h : Related t capacity s q) (hplace : s.copier.place = .reading)
    (hpending : s.pending ≠ 0) :
    Followed t capacity { s with copier := s.copier.take (s.blocks s.slot) } q := by
  have hopen := Copier.not_finished_of_place hplace fun status h => nomatch h
  have hnot : ¬ s.copier.Holds := by
    unfold Copier.Holds
    rw [hplace]
    exact id
  have hqueued := @queued_pop _ s.blocks s.slot _ (by omega) h.pending
  have hunread : s.unread = s.blocks s.slot :: queued s.blocks (s.slot + 1) (s.pending - 1) := by
    unfold Ahead.unread
    rw [if_neg hnot, hqueued]
  have hanswers := h.answers hopen
  have hclosed := h.closed hopen
  rw [hunread, List.cons_append] at hanswers
  obtain ⟨q₁, file, hfirst, hruns, hrest⟩ := plain_take (by rw [← h.copier, hplace])
    (by rw [← h.copier]; exact h.passed hplace) hanswers
  refine ⟨q₁, _, hfirst, hruns, ?_⟩
  rcases s.copier.take_cases (s.blocks s.slot) with ⟨hend, -⟩ | ⟨data, hblock, hdata, htake⟩
  · exact h.finish hend (by rw [← h.copier])
  · rw [← h.copier, hblock]
    rw [hblock] at hrest htake
    have htail : ({ s with
        copier := { s.copier with place := .writing 0, count := data.length } } :
          Ahead W S).unread = queued s.blocks (s.slot + 1) (s.pending - 1) :=
      queued_tail (Nat.pos_of_ne_zero hpending) h.pending
    rw [htake]
    refine { h with
      copier := rfl
      holds := fun _ => ⟨by dsimp only; omega, data, hblock, rfl, rfl⟩
      passed := nofun
      running := fun _ => h.running hopen
      answers := fun _ => ?_
      closed := fun _ hended => ?_ }
    · rw [htail]
      exact hrest
    · obtain ⟨block, hlast, hempty⟩ := hclosed hended
      refine ⟨block, ?_, hempty⟩
      rw [hunread, hblock] at hlast
      rw [htail]
      -- The block without bytes is not the one that was taken.
      refine mem_getLast?_of_cons hlast ?_
      rintro rfl
      exact hdata hempty

theorem Related.copier_writing (h : Related t capacity s q) {done : Nat}
    (hplace : s.copier.place = .writing done) :
    Followed t capacity { s with copier := s.copier.write t (s.blocks s.slot) done } q := by
  have hholds : s.copier.Holds := by
    unfold Copier.Holds
    rw [hplace]
    trivial
  have hopen := Copier.not_finished_of_place hplace fun status h => nomatch h
  obtain ⟨hpos, data, hdata, hbuffer, hcount⟩ := h.holds hholds
  have hsame : s.blocks s.slot = q.buffer := by rw [hdata, hbuffer]
  have hnext : plainNext t capacity q =
      some { q with copier := s.copier.write t (s.blocks s.slot) done } := by
    unfold plainNext
    rw [← h.copier, hplace, hsame]
  refine ⟨_, _, hnext, Runs.refl _, ?_⟩
  rcases s.copier.write_cases t (s.blocks s.slot) done hplace with hend | ⟨hmore, hcnt, hread⟩
  · exact h.finish hend rfl
  · have hunread : ({ s with copier := s.copier.write t (s.blocks s.slot) done } :
        Ahead W S).unread = s.unread := by
      unfold Ahead.unread
      dsimp only
      rw [if_pos hmore, if_pos hholds]
    refine { h with
      copier := rfl
      holds := fun _ => ⟨hpos, data, hdata, hbuffer, hcount.trans hcnt.symm⟩
      passed := fun hreading => absurd hreading hread
      running := fun _ => h.running hopen
      answers := fun _ => ?_
      closed := fun _ hended => ?_ }
    · rw [hunread]
      exact h.answers hopen
    · rw [hunread]
      exact h.closed hopen hended

theorem Related.copier_next (h : Related t capacity s q) (hplace : s.copier.place = .next) :
    Followed t capacity { s with
      pending := s.pending - 1, slot := s.slot + 1, copier := { s.copier with place := .top } }
      q := by
  have hholds : s.copier.Holds := by
    unfold Copier.Holds
    rw [hplace]
    trivial
  have hopen := Copier.not_finished_of_place hplace fun status h => nomatch h
  obtain ⟨hpos, -⟩ := h.holds hholds
  have hpending := h.pending
  have hnext : plainNext t capacity q =
      some { q with copier := { s.copier with place := .top } } := by
    unfold plainNext
    rw [← h.copier, hplace]
  have hunread : ({ s with
      pending := s.pending - 1, slot := s.slot + 1, copier := { s.copier with place := .top } } :
        Ahead W S).unread = s.unread := by
    have hpop := @queued_pop _ s.blocks s.slot _ hpos hpending
    unfold Ahead.unread
    rw [if_pos hholds, hpop]
    rfl
  refine ⟨_, _, hnext, Runs.refl _, { h with
    copier := rfl
    pending := ?_
    filling := fun hreader => ?_
    room := fun reader hreader htop hended => ?_
    holds := fun hnone => absurd hnone id
    passed := nofun
    running := fun _ => h.running hopen
    answers := fun _ => ?_
    closed := fun _ hended => ?_ }⟩
  · dsimp only
    omega
  · exact (h.filling hreader).trans (tailBlock_pop hpos hpending).symm
  · have hroom := h.room reader hreader htop hended
    dsimp only
    omega
  · rw [hunread]
    exact h.answers hopen
  · rw [hunread]
    exact h.closed hopen hended

theorem Related.copierStep (h : Related t capacity s q) (hstep : copierStep t s = some s') :
    (Related t capacity s' q ∧ Down t capacity s s') ∨ Followed t capacity s' q := by
  unfold StorageCopy.copierStep at hstep
  cases hplace : s.copier.place with
  | top =>
    rw [hplace] at hstep
    cases hstep
    exact .inr (h.copier_top hplace)
  | reading =>
    rw [hplace] at hstep
    dsimp only at hstep
    split at hstep
    · cases hstep
    · rename_i hpending
      cases hstep
      exact .inr (h.copier_reading hplace hpending)
  | writing done =>
    rw [hplace] at hstep
    cases hstep
    exact .inr (h.copier_writing hplace)
  | next =>
    rw [hplace] at hstep
    cases hstep
    exact .inr (h.copier_next hplace)
  | finished status =>
    rw [hplace] at hstep
    dsimp only at hstep
    split at hstep
    · cases hstep
    · rename_i hstop
      cases hstep
      have hfinished : s.copier.Finished := ⟨status, hplace⟩
      refine .inl ⟨{ h with running := fun hopen => absurd hfinished hopen }, Down.first ?_⟩
      rw [if_neg hstop]
      simp only [if_true]
      omega

/-- Every step of a thread is matched by steps of the plain loop, or it goes down. -/
theorem simulates (t : Transfer W S) (capacity : Nat) :
    Simulates (Ahead.Moves t capacity) (plainNext t capacity) (Related t capacity)
      (Down t capacity) where
  step := by
    intro s s' q h hmove
    rcases hmove with ⟨junk, hstep⟩ | hstep
    · exact .inl (h.readerStep hstep)
    · exact h.copierStep hstep

theorem Related.not_ended (h : Related t capacity s q) (hplace : s.copier.place = .reading)
    (hpending : s.pending = 0) : s.reader ≠ .ended := by
  intro hended
  have hopen := Copier.not_finished_of_place hplace fun status h => nomatch h
  have hnot : ¬ s.copier.Holds := by
    unfold Copier.Holds
    rw [hplace]
    exact id
  obtain ⟨block, hlast, -⟩ := h.closed hopen hended
  unfold Ahead.unread at hlast
  rw [if_neg hnot, hpending] at hlast
  cases hlast

/-- As long as not both threads have ended, one of them can go on. -/
theorem Related.moves (h : Related t capacity s q) :
    s.Joined ∨ ∃ s', Ahead.Moves t capacity s s' := by
  by_cases hcopier : ∃ s', StorageCopy.copierStep t s = some s'
  · obtain ⟨s', hstep⟩ := hcopier
    exact .inr ⟨s', .inr hstep⟩
  -- The loop waits for a block, or for the end of the reader.
  have hwaits : (s.copier.place = .reading ∧ s.pending = 0) ∨
      (s.copier.Finished ∧ s.stop = true) := by
    unfold StorageCopy.copierStep at hcopier
    cases hplace : s.copier.place with
    | top =>
      rw [hplace] at hcopier
      exact absurd ⟨_, rfl⟩ hcopier
    | writing done =>
      rw [hplace] at hcopier
      exact absurd ⟨_, rfl⟩ hcopier
    | next =>
      rw [hplace] at hcopier
      exact absurd ⟨_, rfl⟩ hcopier
    | reading =>
      rw [hplace] at hcopier
      dsimp only at hcopier
      split at hcopier
      · rename_i hpending
        exact .inl ⟨rfl, hpending⟩
      · exact absurd ⟨_, rfl⟩ hcopier
    | finished status =>
      rw [hplace] at hcopier
      dsimp only at hcopier
      split at hcopier
      · rename_i hstop
        exact .inr ⟨⟨status, hplace⟩, hstop⟩
      · exact absurd ⟨_, rfl⟩ hcopier
  have hmove : ∀ s', StorageCopy.readerStep t capacity (.ok []) s = some s' →
      s.Joined ∨ ∃ s', Ahead.Moves t capacity s s' :=
    fun s' hstep => .inr ⟨s', .inl ⟨_, hstep⟩⟩
  cases hreader : s.reader with
  | top =>
    by_cases hstop : s.stop = true
    · exact hmove _ (by
        unfold StorageCopy.readerStep
        rw [hreader]
        dsimp only
        rw [if_pos hstop])
    · have hpending : s.pending ≠ 2 := by
        rcases hwaits with ⟨-, hzero⟩ | ⟨-, hstop'⟩
        · omega
        · exact absurd hstop' hstop
      exact hmove _ (by
        unfold StorageCopy.readerStep
        rw [hreader]
        dsimp only
        rw [if_neg hstop, if_neg hpending])
  | reading =>
    cases hask : t.read s.file (storageReadSize t.sourceSize s.completed capacity) with
    | mk file answer =>
      cases answer with
      | none =>
        exact hmove _ (by
          unfold StorageCopy.readerStep
          rw [hreader]
          dsimp only
          rw [hask])
      | some answer =>
        exact hmove _ (by
          unfold StorageCopy.readerStep
          rw [hreader]
          dsimp only
          rw [hask])
  | read block =>
    by_cases hstop : s.stop = true
    · exact hmove _ (by
        unfold StorageCopy.readerStep
        rw [hreader]
        dsimp only
        rw [if_pos hstop])
    · by_cases hempty : block.bytes = []
      · exact hmove _ (by
          unfold StorageCopy.readerStep
          rw [hreader]
          dsimp only
          rw [if_neg hstop, if_pos hempty])
      · exact hmove _ (by
          unfold StorageCopy.readerStep
          rw [hreader]
          dsimp only
          rw [if_neg hstop, if_neg hempty])
  | ended =>
    rcases hwaits with ⟨hplace, hpending⟩ | ⟨hfinished, hstop⟩
    · exact absurd hreader (h.not_ended hplace hpending)
    · exact .inl ⟨hfinished, hstop, hreader⟩

theorem related_start (t : Transfer W S) (capacity : Nat) (file : W) (blocks : Fin 2 → Block)
    (buffer : Block) (destination : S) :
    Related t capacity (.start file blocks destination) (.start file buffer destination) where
  copier := rfl
  pending := Nat.zero_le _
  filling := fun _ => rfl
  room := fun _ hreader htop => absurd hreader.symm htop
  holds := fun hnone => absurd hnone id
  passed := nofun
  running := fun _ => rfl
  answers := fun _ => .nil _
  closed := nofun

/-- Copying with a second thread, in every interleaving: the loop is at every moment where the
plain loop with a buffer of the same size is at some moment, with the same bytes written, and
ended with the same result if it has ended; as long as not both threads have ended, one of them
can go on; and they end if the plain loop does and the reads are not interrupted forever. -/
theorem copyAhead_refines (t : Transfer W S) (capacity : Nat) (file : W) (blocks : Fin 2 → Block)
    (buffer : Block) (destination : S) :
    (∀ s, Relation.ReflTransGen (Ahead.Moves t capacity) (.start file blocks destination) s →
      (∃ q, Runs (plainNext t capacity) (.start file buffer destination) q ∧
        s.copier = q.copier ∧
        (s.copier.Finished →
          EndsIn (plainNext t capacity) (.start file buffer destination) q)) ∧
      (s.Joined ∨ ∃ s', Ahead.Moves t capacity s s')) ∧
    ∀ q patience, EndsIn (plainNext t capacity) (.start file buffer destination) q →
      Patient (t.source capacity) patience → ¬ ∃ run : Nat → Ahead W S,
        run 0 = .start file blocks destination ∧
          ∀ n, Ahead.Moves t capacity (run n) (run (n + 1)) := by
  have hstart := related_start t capacity file blocks buffer destination
  refine ⟨fun s hmoves => ?_, fun q patience hend hpatient =>
    (simulates t capacity).no_infinite_run (wellFounded_down hpatient) hstart hend⟩
  obtain ⟨q, hruns, hrelated⟩ := (simulates t capacity).reaches hstart hmoves
  refine ⟨⟨q, hruns, hrelated.copier, fun hfinished => ⟨hruns, ?_⟩⟩, hrelated.moves⟩
  obtain ⟨status, hstatus⟩ := hfinished
  unfold plainNext
  rw [← hrelated.copier, hstatus]

end ShadowMount.StorageCopy
