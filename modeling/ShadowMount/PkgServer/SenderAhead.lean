import ShadowMount.PkgServer.Sender

/-!
# Sending with a second thread

The loop that takes its blocks from a second thread does what the loop does that reads them
itself, in every interleaving of the two threads: its variables, what it sent and its result are
at any moment those that the plain loop has at some moment, the threads do not wait for each other
forever, and they end when the plain loop does.
-/

namespace ShadowMount.PkgServer

open Foundation

variable {W S : Type} {t : Transfer W S}
variable {junk : Block}

/-- The loop has a block that it has not given back. -/
def Sender.Holds (c : Sender S) : Prop :=
  match c.place with
  | .sending _ | .next => True
  | .top | .reading | .finished _ => False

def Sender.Finished (c : Sender S) : Prop := ∃ ok, c.place = .finished ok

instance (c : Sender S) : Decidable c.Holds := by
  unfold Sender.Holds
  split <;> infer_instance

/-- The offset behind the block that the loop has. -/
def Sender.position (c : Sender S) : Nat := if c.Holds then c.offset + c.count else c.offset

/-- The filled blocks that the loop has not taken yet. -/
def Ahead.unread (s : Ahead W S) : List Block :=
  if s.sender.Holds then (queued s.blocks s.head s.pending).tail
  else queued s.blocks s.head s.pending

/-- The block that was read and is not in the queue yet. -/
def Ahead.inflight (s : Ahead W S) : List Block :=
  match s.reader with
  | .read block false => [s.blocks block]
  | _ => []

/-- The reader ends behind a block without bytes. -/
def Block.closing (block : Block) : Prop := block.bytes = []

/-- How the threads and the plain loop are related. -/
structure Related (t : Transfer W S) (s : Ahead W S) (q : Plain W S) : Prop where
  sender : s.sender = q.sender
  pending : s.pending ≤ 2
  reading : ∀ block offset want, s.reader = .reading block offset want → s.pending ≤ 1 ∧
    block = tailBlock s.head s.pending ∧ offset = s.offset ∧ want = t.want s.offset
  read : ∀ block interrupted, s.reader = .read block interrupted → s.pending ≤ 1 ∧
    block = tailBlock s.head s.pending
  holds : s.sender.Holds → s.taken = s.head ∧ 1 ≤ s.pending ∧
    ∃ data, s.blocks s.head = .ok data ∧ q.buffer = .ok data ∧ data.length = s.sender.count
  place : s.sender.place = .reading → s.sender.offset ≤ t.last
  done : s.done = true ↔ s.reader = .ended
  running : ¬ s.sender.Finished → s.stop = false
  answers : ¬ s.sender.Finished → Answers t.source (q.file, s.sender.position)
    (s.unread ++ s.inflight) (s.file, s.inflight.foldl t.source.advance s.offset)
  closed : ¬ s.sender.Finished → s.reader = .ended →
    t.last < s.offset ∨ ∃ block ∈ s.unread.getLast?, block.closing

/-- The plain loop reads the answer that was read ahead. -/
theorem plain_take {q : Plain W S} {block : Block} {rest : List Block} {y : W × Nat}
    (hplace : q.sender.place = .reading) (hoffset : q.sender.offset ≤ t.last)
    (h : Answers t.source (q.file, q.sender.offset) (block :: rest) y) :
    ∃ q₁ file, plainNext t q = some q₁ ∧
      Runs (plainNext t) q₁ ⟨file, block, q.sender.take block⟩ ∧
      Answers t.source (file, t.source.advance q.sender.offset block) rest y := by
  obtain ⟨file₀, buffer, sender⟩ := q
  dsimp only at hplace hoffset h ⊢
  generalize hx : (file₀, sender.offset) = x at h
  generalize hl : block :: rest = l at h
  induction h generalizing file₀ with
  | nil x => cases hl
  | interrupted hask hmore ih =>
    cases hx
    cases hl
    obtain ⟨q₁, file, hfirst, hruns, hanswers⟩ := ih _ rfl rfl
    have hasked : t.pread _ sender.offset (t.want sender.offset) = (_, none) := hask
    refine ⟨_, file, by unfold plainNext; rw [hplace]; dsimp only; rw [hasked], ?_, hanswers⟩
    -- The plain loop starts its turn again.
    refine @Runs.head _ _ _ ⟨_, buffer, sender⟩ _ ?_ (Runs.head hfirst hruns)
    have htop : Sender.top t { sender with place := .top } = sender := by
      unfold Sender.top
      rw [if_pos hoffset, ← hplace]
    unfold plainNext
    dsimp only
    rw [htop]
  | answer hask hmore ih =>
    cases hx
    cases hl
    have hasked : t.pread _ sender.offset (t.want sender.offset) = (_, some block) := hask
    exact ⟨_, _, by unfold plainNext; rw [hplace]; dsimp only; rw [hasked], Runs.refl _, hmore⟩

theorem Sender.take_cases (c : Sender S) (block : Block) :
    (c.take block).Finished ∧ block.closing ∨
      ∃ data, block = .ok data ∧ data ≠ [] ∧
        c.take block = { c with place := .sending 0, count := data.length } := by
  cases block with
  | error e => exact .inl ⟨⟨false, rfl⟩, rfl⟩
  | ok data =>
    by_cases hdata : data = []
    · subst hdata
      exact .inl ⟨⟨false, rfl⟩, rfl⟩
    · exact .inr ⟨data, rfl, hdata, by unfold Sender.take; dsimp only; rw [if_neg hdata]⟩

theorem Sender.send_cases (t : Transfer W S) (c : Sender S) (block : Block) (done : Nat)
    (hplace : c.place = .sending done) :
    (c.send t block done).Finished ∨
      (c.send t block done).Holds ∧ (c.send t block done).offset = c.offset ∧
        (c.send t block done).count = c.count ∧ (c.send t block done).place ≠ .reading := by
  unfold Sender.send
  split
  · exact .inr ⟨trivial, rfl, rfl, nofun⟩
  · dsimp only
    split
    · refine .inr ⟨?_, rfl, rfl, ?_⟩
      · unfold Sender.Holds
        rw [hplace]
        trivial
      · rw [hplace]
        exact nofun
    · exact .inl ⟨false, rfl⟩
    · split
      · exact .inl ⟨false, rfl⟩
      · exact .inr ⟨trivial, rfl, rfl, nofun⟩

/-- How far the reader is in its turn. -/
def ReaderPlace.phase : ReaderPlace → Nat
  | .top | .reading _ _ _ | .read _ true => 2
  | .read _ false => 1
  | .ended => 0

def ReaderPlace.rank : ReaderPlace → Nat
  | .read _ true => 3
  | .top => 2
  | .reading _ _ _ => 1
  | .read _ false | .ended => 0

/-- What a step of the reader makes smaller: blocks to fill and the phases of a turn, then
interruptions to come. -/
def Ahead.height (patience : W → Nat → Nat) (s : Ahead W S) : Nat × Nat :=
  ((if s.stop then 0 else 9) + (2 - s.pending) * 3 + s.reader.phase,
    4 * patience s.file s.offset + s.reader.rank)

/-- A step that the plain loop does not make. -/
def Down (t : Transfer W S) (s s' : Ahead W S) : Prop :=
  ∀ patience, Patient t.source patience →
    Prod.Lex (· < ·) (· < ·) (s'.height patience) (s.height patience)

theorem wellFounded_down {patience : W → Nat → Nat} (h : Patient t.source patience) :
    WellFounded fun s' s : Ahead W S => Down t s s' :=
  Subrelation.wf (fun hdown => hdown patience h) (wellFounded_heights (Ahead.height patience))

theorem Down.first {s s' : Ahead W S}
    (h : (if s'.stop then 0 else 9) + (2 - s'.pending) * 3 + s'.reader.phase <
      (if s.stop then 0 else 9) + (2 - s.pending) * 3 + s.reader.phase) : Down t s s' :=
  fun _ _ => Prod.Lex.left _ _ h

theorem Down.second {s s' : Ahead W S}
    (hfirst : (if s'.stop then 0 else 9) + (2 - s'.pending) * 3 + s'.reader.phase =
      (if s.stop then 0 else 9) + (2 - s.pending) * 3 + s.reader.phase)
    (h : ∀ patience, Patient t.source patience →
      4 * patience s'.file s'.offset + s'.reader.rank <
        4 * patience s.file s.offset + s.reader.rank) : Down t s s' := by
  intro patience hpatient
  have hless := h patience hpatient
  unfold Ahead.height
  rw [hfirst]
  exact Prod.Lex.right _ hless

variable {s s' : Ahead W S} {q : Plain W S}

theorem Related.head_ne (h : Related t s q) (hholds : s.sender.Holds) (hroom : s.pending ≤ 1) :
    s.head ≠ tailBlock s.head s.pending := by
  have hpos := (h.holds hholds).2.1
  exact head_ne_tailBlock (by omega)

theorem Related.fill (h : Related t s q) (hroom : s.pending ≤ 1) (block : Block) :
    let blocks := Function.update s.blocks (tailBlock s.head s.pending) block
    queued blocks s.head s.pending = queued s.blocks s.head s.pending ∧
      (s.sender.Holds → blocks s.head = s.blocks s.head) :=
  ⟨queued_update hroom block, fun hholds =>
    Function.update_of_ne (h.head_ne hholds hroom) block s.blocks⟩

theorem Related.not_done_of_reader (h : Related t s q) (hopen : s.reader ≠ .ended) :
    s.done ≠ true :=
  fun hdone => hopen (h.done.mp hdone)

theorem Related.reader_top (h : Related t s q) (hreader : s.reader = .top)
    (hstep : readerStep t junk s = some s') : Related t s' q ∧ Down t s s' := by
  have hinflight : s.inflight = [] := by
    unfold Ahead.inflight
    rw [hreader]
  have hanswers := h.answers
  rw [hinflight] at hanswers
  unfold readerStep at hstep
  rw [hreader] at hstep
  dsimp only at hstep
  split at hstep
  · rename_i hend
    cases hstep
    refine ⟨{ h with
        reading := nofun
        read := nofun
        done := ⟨fun _ => rfl, fun _ => rfl⟩
        answers := hanswers
        closed := fun hopen _ => .inl ?_ }, Down.first ?_⟩
    · rw [h.running hopen] at hend
      simpa using hend
    · rw [hreader]
      simp only [ReaderPlace.phase]
      omega
  · split at hstep
    · cases hstep
    · rename_i hfull
      cases hstep
      have hpending := h.pending
      have hroom : s.pending ≤ 1 := by omega
      obtain ⟨hqueued, hhead⟩ := h.fill hroom junk
      refine ⟨{ h with
          reading := ?_
          read := nofun
          holds := ?_
          done := ?_
          answers := ?_
          closed := nofun }, Down.second ?_ ?_⟩
      · intro block offset want hplace
        cases hplace
        exact ⟨hroom, rfl, rfl, rfl⟩
      · intro hholds
        obtain ⟨htaken, hpos, data, hdata, hbuffer, hcount⟩ := h.holds hholds
        exact ⟨htaken, hpos, data, (hhead hholds).trans hdata, hbuffer, hcount⟩
      · have hdone := h.not_done_of_reader (by rw [hreader]; exact nofun)
        exact ⟨fun hd => absurd hd hdone, nofun⟩
      · intro hopen
        have hsame := hanswers hopen
        unfold Ahead.unread at hsame ⊢
        unfold Ahead.inflight
        dsimp only
        rw [hqueued]
        exact hsame
      · rw [hreader]
        rfl
      · intro patience _
        rw [hreader]
        simp only [ReaderPlace.rank]
        omega

/-- The reader asks the file. -/
theorem Related.reader_reading (h : Related t s q) {block : Fin 2} {offset want : Nat}
    (hreader : s.reader = .reading block offset want) (hstep : readerStep t junk s = some s') :
    Related t s' q ∧ Down t s s' := by
  obtain ⟨hroom, rfl, rfl, rfl⟩ := h.reading _ _ _ hreader
  have hinflight : s.inflight = [] := by
    unfold Ahead.inflight
    rw [hreader]
  have hanswers := h.answers
  rw [hinflight] at hanswers
  have hdone := h.not_done_of_reader (by rw [hreader]; exact nofun)
  unfold readerStep at hstep
  rw [hreader] at hstep
  dsimp only at hstep
  split at hstep
  · rename_i file hask
    cases hstep
    have hasked : t.source.ask s.file s.offset = (file, none) := hask
    refine ⟨{ h with
        reading := nofun
        read := ?_
        done := ⟨fun hd => absurd hd hdone, nofun⟩
        answers := ?_
        closed := nofun }, Down.second ?_ ?_⟩
    · intro block interrupted hplace
      cases hplace
      exact ⟨hroom, rfl⟩
    · intro hopen
      exact (hanswers hopen).wait hasked
    · rw [hreader]
      rfl
    · intro patience hpatient
      have hless := hpatient hasked
      rw [hreader]
      simp only [ReaderPlace.rank]
      omega
  · rename_i file answer hask
    cases hstep
    have hasked : t.source.ask s.file s.offset = (file, some answer) := hask
    obtain ⟨hqueued, hhead⟩ := h.fill hroom answer
    refine ⟨{ h with
        reading := nofun
        read := ?_
        holds := ?_
        done := ⟨fun hd => absurd hd hdone, nofun⟩
        answers := ?_
        closed := nofun }, Down.first ?_⟩
    · intro block interrupted hplace
      cases hplace
      exact ⟨hroom, rfl⟩
    · intro hholds
      obtain ⟨htaken, hpos, data, hdata, hbuffer, hcount⟩ := h.holds hholds
      exact ⟨htaken, hpos, data, (hhead hholds).trans hdata, hbuffer, hcount⟩
    · intro hopen
      have hmore := (hanswers hopen).snoc hasked
      unfold Ahead.unread at hmore ⊢
      unfold Ahead.inflight
      dsimp only
      rw [hqueued, Function.update_self]
      rw [List.append_nil] at hmore
      exact hmore
    · rw [hreader]
      simp only [ReaderPlace.phase]
      omega

theorem Ahead.unread_push (hpos : s.sender.Holds → 1 ≤ s.pending) (hroom : s.pending ≤ 1) :
    (if s.sender.Holds then (queued s.blocks s.head (s.pending + 1)).tail
      else queued s.blocks s.head (s.pending + 1)) =
      s.unread ++ [s.blocks (tailBlock s.head s.pending)] :=
  queued_push_unread hpos hroom

/-- The reader puts its block into the queue. -/
theorem Related.reader_read (h : Related t s q) {block : Fin 2} {interrupted : Bool}
    (hreader : s.reader = .read block interrupted) (hstep : readerStep t junk s = some s') :
    Related t s' q ∧ Down t s s' := by
  obtain ⟨hroom, rfl⟩ := h.read _ _ hreader
  have hdone := h.not_done_of_reader (by rw [hreader]; exact nofun)
  have hholds : s.sender.Holds → s.taken = s.head ∧ 1 ≤ s.pending + 1 ∧
      ∃ data, s.blocks s.head = .ok data ∧ q.buffer = .ok data ∧ data.length = s.sender.count := by
    intro hhas
    obtain ⟨htaken, hpos, hdata⟩ := h.holds hhas
    exact ⟨htaken, by omega, hdata⟩
  unfold readerStep at hstep
  rw [hreader] at hstep
  cases interrupted with
  | true =>
    dsimp only at hstep
    cases hstep
    have hinflight : s.inflight = [] := by
      unfold Ahead.inflight
      rw [hreader]
    have hanswers := h.answers
    rw [hinflight] at hanswers
    refine ⟨{ h with
        reading := nofun
        read := nofun
        done := ⟨fun hd => absurd hd hdone, nofun⟩
        answers := hanswers
        closed := nofun }, Down.second ?_ ?_⟩
    · rw [hreader]
      rfl
    · intro patience _
      rw [hreader]
      simp only [ReaderPlace.rank]
      omega
  | false =>
    have hinflight : s.inflight = [s.blocks (tailBlock s.head s.pending)] := by
      unfold Ahead.inflight
      rw [hreader]
    have hanswers := h.answers
    rw [hinflight] at hanswers
    have hpush := @Ahead.unread_push _ _ s (fun hhas => (h.holds hhas).2.1) hroom
    -- The end behind a block without bytes.
    have hclose : ∀ s', s' = ({ s with
          pending := s.pending + 1, done := true, reader := .ended } : Ahead W S) →
        (s.blocks (tailBlock s.head s.pending)).closing →
        t.source.advance s.offset (s.blocks (tailBlock s.head s.pending)) = s.offset →
        Related t s' q ∧ Down t s s' := by
      rintro s' rfl hclosing hoffset
      refine ⟨{ h with
          pending := Nat.succ_le_succ hroom
          reading := nofun
          read := nofun
          holds := hholds
          done := ⟨fun _ => rfl, fun _ => rfl⟩
          answers := ?_
          closed := ?_ }, Down.first ?_⟩
      · intro hopen
        have hsame := hanswers hopen
        rw [List.foldl_cons, List.foldl_nil, hoffset, ← hpush] at hsame
        unfold Ahead.unread Ahead.inflight
        dsimp only
        rw [List.append_nil]
        exact hsame
      · intro _ _
        refine .inr ⟨_, ?_, hclosing⟩
        unfold Ahead.unread
        dsimp only
        rw [hpush, List.getLast?_concat]
        rfl
      · rw [hreader]
        simp only [ReaderPlace.phase]
        omega
    dsimp only at hstep
    split at hstep
    · rename_i e hblock
      cases hstep
      refine hclose _ rfl ?_ ?_
      · rw [hblock]
        rfl
      · rw [hblock]
        rfl
    · rename_i data hblock
      split at hstep
      · rename_i hdata
        cases hstep
        refine hclose _ rfl ?_ ?_
        · rw [hblock, hdata]
          rfl
        · rw [hblock, hdata]
          rfl
      · cases hstep
        have hoffset : t.source.advance s.offset (.ok data) = s.offset + data.length := rfl
        refine ⟨{ h with
            pending := Nat.succ_le_succ hroom
            reading := nofun
            read := nofun
            holds := hholds
            done := ⟨fun hd => absurd hd hdone, nofun⟩
            answers := ?_
            closed := nofun }, Down.first ?_⟩
        · intro hopen
          have hsame := hanswers hopen
          rw [List.foldl_cons, List.foldl_nil, ← hpush, hblock, hoffset] at hsame
          unfold Ahead.unread Ahead.inflight
          dsimp only
          rw [List.append_nil]
          exact hsame
        · rw [hreader]
          simp only [ReaderPlace.phase]
          omega

theorem Related.readerStep (h : Related t s q) (hstep : readerStep t junk s = some s') :
    Related t s' q ∧ Down t s s' := by
  cases hreader : s.reader with
  | top => exact h.reader_top hreader hstep
  | reading block offset want => exact h.reader_reading hreader hstep
  | read block interrupted => exact h.reader_read hreader hstep
  | ended =>
    unfold PkgServer.readerStep at hstep
    rw [hreader] at hstep
    cases hstep

theorem Sender.not_finished_of_place {c : Sender S} {place : Place} (h : c.place = place)
    (hplace : ∀ ok, place ≠ .finished ok) : ¬ c.Finished := by
  rintro ⟨ok, hok⟩
  exact hplace ok (h.symm.trans hok)

/-- A state in which the loop has ended is related to every state with the same loop, as far as
the reader is where it was. -/
theorem Related.finish (h : Related t s q) {c : Sender S} {taken : Fin 2} {q' : Plain W S}
    (hc : c.Finished) (hq : q'.sender = c) :
    Related t { s with sender := c, taken := taken } q' := by
  obtain ⟨ok, hok⟩ := hc
  have hnot : ¬ c.Holds := by
    unfold Sender.Holds
    rw [hok]
    exact id
  exact { h with
    sender := hq.symm
    holds := fun hholds => absurd hholds hnot
    place := fun hplace => by
      have hplace' : c.place = .reading := hplace
      rw [hok] at hplace'
      cases hplace'
    running := fun hopen => absurd ⟨ok, hok⟩ hopen
    answers := fun hopen => absurd ⟨ok, hok⟩ hopen
    closed := fun hopen => absurd ⟨ok, hok⟩ hopen }

/-- The plain loop follows. -/
def Followed (t : Transfer W S) (s' : Ahead W S) (q : Plain W S) : Prop :=
  ∃ q₁ q', plainNext t q = some q₁ ∧ Runs (plainNext t) q₁ q' ∧ Related t s' q'

theorem Related.sender_top (h : Related t s q) (hplace : s.sender.place = .top) :
    Followed t { s with sender := s.sender.top t } q := by
  have hnext : plainNext t q = some { q with sender := q.sender.top t } := by
    unfold plainNext
    rw [← h.sender, hplace]
  refine ⟨_, _, hnext, Runs.refl _, ?_⟩
  by_cases hoffset : s.sender.offset ≤ t.last
  · have htop : s.sender.top t = { s.sender with place := .reading } := by
      unfold Sender.top
      rw [if_pos hoffset]
    have hopen := Sender.not_finished_of_place hplace fun ok h => nomatch h
    have hunread : ∀ place : Place, place = .top ∨ place = .reading →
        ({ s with sender := { s.sender with place := place } } : Ahead W S).unread =
          queued s.blocks s.head s.pending := by
      rintro place (rfl | rfl) <;> rfl
    have hsame := hunread s.sender.place (.inl hplace)
    have hanswers := h.answers hopen
    have hclosed := h.closed hopen
    have hnot : ¬ s.sender.Holds := by
      unfold Sender.Holds
      rw [hplace]
      exact id
    have hposition : s.sender.position = s.sender.offset := if_neg hnot
    rw [hposition] at hanswers
    rw [htop, ← h.sender, htop]
    refine { h with
      sender := rfl
      holds := fun hholds => absurd hholds id
      place := fun _ => hoffset
      running := fun _ => h.running hopen
      answers := fun _ => ?_
      closed := fun _ hended => ?_ }
    · have heq := hunread .reading (.inr rfl)
      rw [heq, ← hsame]
      exact hanswers
    · have heq := hunread .reading (.inr rfl)
      rw [heq, ← hsame]
      exact hclosed hended
  · have htop : s.sender.top t = { s.sender with place := .finished true } := by
      unfold Sender.top
      rw [if_neg hoffset]
    rw [htop, ← h.sender, htop]
    exact h.finish ⟨true, rfl⟩ rfl

/-- The sender takes a block. -/
theorem Related.sender_reading (h : Related t s q) (hplace : s.sender.place = .reading)
    (hpending : s.pending ≠ 0) :
    Followed t { s with taken := s.head, sender := s.sender.take (s.blocks s.head) } q := by
  have hopen := Sender.not_finished_of_place hplace fun ok h => nomatch h
  have hnot : ¬ s.sender.Holds := by
    unfold Sender.Holds
    rw [hplace]
    exact id
  have hunread : s.unread =
      s.blocks s.head :: queued s.blocks (s.head + 1) (s.pending - 1) := by
    unfold Ahead.unread
    rw [if_neg hnot, queued_pop (by omega) h.pending]
  have hanswers := h.answers hopen
  have hclosed := h.closed hopen
  have hposition : s.sender.position = s.sender.offset := if_neg hnot
  rw [hunread, hposition, List.cons_append, h.sender] at hanswers
  obtain ⟨q₁, file, hfirst, hruns, hrest⟩ := plain_take (by rw [← h.sender, hplace])
    (by rw [← h.sender]; exact h.place hplace) hanswers
  refine ⟨q₁, _, hfirst, hruns, ?_⟩
  rcases s.sender.take_cases (s.blocks s.head) with ⟨hend, -⟩ | ⟨data, hblock, hdata, htake⟩
  · exact h.finish hend (by rw [← h.sender])
  · rw [← h.sender] at hrest ⊢
    rw [hblock] at hrest ⊢
    rw [hblock] at htake
    rw [htake]
    have htail : ({ s with
        taken := s.head, sender := { s.sender with place := .sending 0, count := data.length } } :
          Ahead W S).unread = queued s.blocks (s.head + 1) (s.pending - 1) :=
      queued_tail (Nat.pos_of_ne_zero hpending) h.pending
    exact { h with
      sender := rfl
      holds := fun _ => ⟨rfl, by dsimp only; omega, data, hblock, rfl, rfl⟩
      place := nofun
      running := fun _ => h.running hopen
      answers := fun _ => by
        rw [htail]
        exact hrest
      closed := fun _ hended => by
        refine (hclosed hended).imp id ?_
        rintro ⟨block, hlast, hclosing⟩
        refine ⟨block, ?_, hclosing⟩
        rw [hunread, hblock] at hlast
        rw [htail]
        -- The block without bytes is not the one that was taken.
        refine mem_getLast?_of_cons hlast ?_
        rintro rfl
        exact hdata hclosing }

theorem Related.sender_sending (h : Related t s q) {done : Nat}
    (hplace : s.sender.place = .sending done) :
    Followed t { s with sender := s.sender.send t (s.blocks s.taken) done } q := by
  have hholds : s.sender.Holds := by
    unfold Sender.Holds
    rw [hplace]
    trivial
  have hopen := Sender.not_finished_of_place hplace fun ok h => nomatch h
  obtain ⟨htaken, hpos, data, hdata, hbuffer, hcount⟩ := h.holds hholds
  have hsame : s.blocks s.taken = q.buffer := by rw [htaken, hdata, hbuffer]
  have hnext :
      plainNext t q = some { q with sender := s.sender.send t (s.blocks s.taken) done } := by
    unfold plainNext
    rw [← h.sender, hplace, hsame]
  refine ⟨_, _, hnext, Runs.refl _, ?_⟩
  rcases s.sender.send_cases t (s.blocks s.taken) done hplace with hend | ⟨hmore, hoff, hcnt, hread⟩
  · exact @Related.finish _ _ _ s q h _ s.taken _ hend rfl
  · have hposition : (s.sender.send t (s.blocks s.taken) done).position = s.sender.position := by
      unfold Sender.position
      rw [if_pos hmore, if_pos hholds, hoff, hcnt]
    have hunread : ({ s with sender := s.sender.send t (s.blocks s.taken) done } :
        Ahead W S).unread = s.unread := by
      unfold Ahead.unread
      dsimp only
      rw [if_pos hmore, if_pos hholds]
    exact { h with
      sender := rfl
      holds := fun _ => ⟨htaken, hpos, data, hdata, hbuffer, hcount.trans hcnt.symm⟩
      place := fun hreading => absurd hreading hread
      running := fun _ => h.running hopen
      answers := fun _ => by
        rw [hunread]
        dsimp only
        rw [hposition]
        exact h.answers hopen
      closed := fun _ hended => by
        rw [hunread]
        exact h.closed hopen hended }

theorem Related.sender_next (h : Related t s q) (hplace : s.sender.place = .next) :
    Followed t { s with
      head := s.head + 1, pending := s.pending - 1, sender := s.sender.advance } q := by
  have hholds : s.sender.Holds := by
    unfold Sender.Holds
    rw [hplace]
    trivial
  have hopen := Sender.not_finished_of_place hplace fun ok h => nomatch h
  obtain ⟨-, hpos, -⟩ := h.holds hholds
  have hpending := h.pending
  have hnext : plainNext t q = some { q with sender := s.sender.advance } := by
    unfold plainNext
    rw [← h.sender, hplace]
  have htail := @tailBlock_pop s.head _ hpos hpending
  have hunread : ({ s with
      head := s.head + 1, pending := s.pending - 1, sender := s.sender.advance } :
        Ahead W S).unread = s.unread := by
    have hpop := @queued_pop _ s.blocks s.head _ hpos hpending
    unfold Ahead.unread
    rw [if_pos hholds, hpop]
    rfl
  have hposition : s.sender.advance.position = s.sender.position := by
    unfold Sender.position
    rw [if_pos hholds]
    rfl
  refine ⟨_, _, hnext, Runs.refl _, { h with
    sender := rfl
    pending := ?_
    reading := ?_
    read := ?_
    holds := fun hnone => absurd hnone id
    place := nofun
    running := fun _ => h.running hopen
    answers := fun _ => ?_
    closed := fun _ hended => ?_ }⟩
  · dsimp only
    omega
  · intro block offset want hreader
    obtain ⟨hroom, hblock, hrest⟩ := h.reading block offset want hreader
    exact ⟨by dsimp only; omega, hblock.trans htail.symm, hrest⟩
  · intro block interrupted hreader
    obtain ⟨hroom, hblock⟩ := h.read block interrupted hreader
    exact ⟨by dsimp only; omega, hblock.trans htail.symm⟩
  · rw [hunread]
    dsimp only
    rw [hposition]
    exact h.answers hopen
  · rw [hunread]
    exact h.closed hopen hended

theorem Related.not_done (h : Related t s q) (hplace : s.sender.place = .reading)
    (hpending : s.pending = 0) : s.done ≠ true := by
  intro hdone
  have hended := h.done.mp hdone
  have hopen := Sender.not_finished_of_place hplace fun ok h => nomatch h
  have hnot : ¬ s.sender.Holds := by
    unfold Sender.Holds
    rw [hplace]
    exact id
  have hunread : s.unread = [] := by
    unfold Ahead.unread
    rw [if_neg hnot, hpending]
    rfl
  have hinflight : s.inflight = [] := by
    unfold Ahead.inflight
    rw [hended]
  have hanswers := h.answers hopen
  rw [hunread, hinflight] at hanswers
  have hoffset : s.offset = s.sender.position := hanswers.position
  have hposition : s.sender.position = s.sender.offset := if_neg hnot
  have hlast := h.place hplace
  rcases h.closed hopen hended with hend | ⟨block, hblock, -⟩
  · omega
  · rw [hunread] at hblock
    cases hblock

theorem Related.senderStep (h : Related t s q) (hstep : senderStep t s = some s') :
    (Related t s' q ∧ Down t s s') ∨ Followed t s' q := by
  unfold PkgServer.senderStep at hstep
  cases hplace : s.sender.place with
  | top =>
    rw [hplace] at hstep
    cases hstep
    exact .inr (h.sender_top hplace)
  | reading =>
    rw [hplace] at hstep
    dsimp only at hstep
    split at hstep
    · rename_i hpending
      rw [if_neg (h.not_done hplace hpending)] at hstep
      cases hstep
    · rename_i hpending
      cases hstep
      exact .inr (h.sender_reading hplace hpending)
  | sending done =>
    rw [hplace] at hstep
    cases hstep
    exact .inr (h.sender_sending hplace)
  | next =>
    rw [hplace] at hstep
    cases hstep
    exact .inr (h.sender_next hplace)
  | finished ok =>
    rw [hplace] at hstep
    dsimp only at hstep
    split at hstep
    · cases hstep
    · rename_i hstop
      cases hstep
      refine .inl ⟨{ h with running := fun hopen => absurd ⟨ok, hplace⟩ hopen }, Down.first ?_⟩
      rw [if_neg hstop]
      simp only [if_true]
      omega

/-- Every step of a thread is matched by steps of the plain loop, or it goes down. -/
theorem simulates (t : Transfer W S) :
    Simulates (Ahead.Moves t) (plainNext t) (Related t) (Down t) where
  step := by
    intro s s' q h hmove
    rcases hmove with ⟨junk, hstep⟩ | hstep
    · exact .inl (h.readerStep hstep)
    · exact h.senderStep hstep

/-- As long as not both threads have ended, one of them can go on. -/
theorem Related.moves (h : Related t s q) : s.Joined ∨ ∃ s', Ahead.Moves t s s' := by
  by_cases hsender : ∃ s', PkgServer.senderStep t s = some s'
  · obtain ⟨s', hstep⟩ := hsender
    exact .inr ⟨s', .inr hstep⟩
  -- The loop waits for a block, or for the end of the reader.
  have hwaits : (s.sender.place = .reading ∧ s.pending = 0 ∧ s.done = false) ∨
      ((∃ ok, s.sender.place = .finished ok) ∧ s.stop = true) := by
    unfold PkgServer.senderStep at hsender
    cases hplace : s.sender.place with
    | top =>
      rw [hplace] at hsender
      exact absurd ⟨_, rfl⟩ hsender
    | sending done =>
      rw [hplace] at hsender
      exact absurd ⟨_, rfl⟩ hsender
    | next =>
      rw [hplace] at hsender
      exact absurd ⟨_, rfl⟩ hsender
    | reading =>
      rw [hplace] at hsender
      dsimp only at hsender
      split at hsender
      · rename_i hpending
        have hdone := h.not_done hplace hpending
        exact .inl ⟨rfl, hpending, by simpa using hdone⟩
      · exact absurd ⟨_, rfl⟩ hsender
    | finished ok =>
      rw [hplace] at hsender
      dsimp only at hsender
      split at hsender
      · rename_i hstop
        exact .inr ⟨⟨ok, rfl⟩, hstop⟩
      · exact absurd ⟨_, rfl⟩ hsender
  have hmove : ∀ s', PkgServer.readerStep t (.ok []) s = some s' →
      s.Joined ∨ ∃ s', Ahead.Moves t s s' :=
    fun s' hstep => .inr ⟨s', .inl ⟨_, hstep⟩⟩
  cases hreader : s.reader with
  | top =>
    by_cases hend : (s.stop || decide (t.last < s.offset)) = true
    · exact hmove _ (by unfold PkgServer.readerStep; rw [hreader]; dsimp only; rw [if_pos hend])
    · have hpending : s.pending ≠ 2 := by
        rcases hwaits with ⟨-, hzero, -⟩ | ⟨-, hstop⟩
        · omega
        · rw [hstop] at hend
          exact absurd rfl hend
      exact hmove _ (by
        unfold PkgServer.readerStep
        rw [hreader]
        dsimp only
        rw [if_neg hend, if_neg hpending])
  | reading block offset want =>
    cases hask : t.pread s.file offset want with
    | mk file answer =>
      cases answer with
      | none => exact hmove _ (by unfold PkgServer.readerStep; rw [hreader]; dsimp only; rw [hask])
      | some answer =>
        exact hmove _ (by unfold PkgServer.readerStep; rw [hreader]; dsimp only; rw [hask])
  | read block interrupted =>
    cases interrupted with
    | true => exact hmove _ (by unfold PkgServer.readerStep; rw [hreader])
    | false =>
      cases hblock : s.blocks block with
      | error e =>
        exact hmove _ (by unfold PkgServer.readerStep; rw [hreader]; dsimp only; rw [hblock])
      | ok data =>
        by_cases hdata : data = []
        · exact hmove _ (by
            unfold PkgServer.readerStep
            rw [hreader]
            dsimp only
            rw [hblock]
            dsimp only
            rw [if_pos hdata])
        · exact hmove _ (by
            unfold PkgServer.readerStep
            rw [hreader]
            dsimp only
            rw [hblock]
            dsimp only
            rw [if_neg hdata])
  | ended =>
    rcases hwaits with ⟨-, -, hdone⟩ | ⟨hfinished, hstop⟩
    · rw [h.done.mpr hreader] at hdone
      cases hdone
    · exact .inl ⟨hfinished, hstop, hreader⟩

/-- The plain loop at its start. -/
def Plain.start (file : W) (buffer : Block) (offset : Nat) (socket : S) : Plain W S :=
  ⟨file, buffer, .start offset socket⟩

theorem related_start (t : Transfer W S) (file : W) (blocks : Fin 2 → Block) (buffer : Block)
    (offset : Nat) (socket : S) :
    Related t (.start file blocks offset socket) (.start file buffer offset socket) where
  sender := rfl
  pending := Nat.zero_le _
  reading := nofun
  read := nofun
  holds := fun hnone => absurd hnone id
  place := nofun
  done := ⟨nofun, nofun⟩
  running := fun _ => rfl
  answers := fun _ => .nil _
  closed := nofun

/-- Sending with a second thread, in every interleaving: the loop is at every moment where the
plain loop is at some moment, with the same bytes sent, and ended with the same result if it has
ended; as long as not both threads have ended, one of them can go on; and they end if the plain
loop does and the reads are not interrupted forever. -/
theorem sendAhead_refines (t : Transfer W S) (file : W) (blocks : Fin 2 → Block) (buffer : Block)
    (offset : Nat) (socket : S) :
    (∀ s, Relation.ReflTransGen (Ahead.Moves t) (.start file blocks offset socket) s →
      (∃ q, Runs (plainNext t) (.start file buffer offset socket) q ∧ s.sender = q.sender ∧
        (s.sender.Finished → EndsIn (plainNext t) (.start file buffer offset socket) q)) ∧
      (s.Joined ∨ ∃ s', Ahead.Moves t s s')) ∧
    ∀ q patience, EndsIn (plainNext t) (.start file buffer offset socket) q →
      Patient t.source patience → ¬ ∃ run : Nat → Ahead W S,
        run 0 = .start file blocks offset socket ∧ ∀ n, Ahead.Moves t (run n) (run (n + 1)) := by
  have hstart := related_start t file blocks buffer offset socket
  refine ⟨fun s hmoves => ?_, fun q patience hend hpatient =>
    (simulates t).no_infinite_run (wellFounded_down hpatient) hstart hend⟩
  obtain ⟨q, hruns, hrelated⟩ := (simulates t).reaches hstart hmoves
  refine ⟨⟨q, hruns, hrelated.sender, fun hfinished => ⟨hruns, ?_⟩⟩, hrelated.moves⟩
  obtain ⟨ok, hok⟩ := hfinished
  unfold plainNext
  rw [← hrelated.sender, hok]

end ShadowMount.PkgServer
