import ShadowMount.PkgServer.SenderAhead
import ShadowMount.StorageCopy.CopierAhead

/-!
# Copies with buffers of different sizes

The buffers of the copy with a second thread are smaller than that of the plain loop unless the
file is large, so the two ask the file for other sizes.  What is written and how the copy ends
does not depend on the size, nor on how much each call transfers: it is the file up to the first
place where the source cannot be read or the destination cannot be written.

Main results:

- Theorem {lit}`readAhead_refines`: both programs that read ahead, against their plain loops.
-/

namespace ShadowMount.StorageCopy

open Foundation
open Storage (storageReadSize storageCopyBufferSize)
open Errno

variable {W S : Type} {t : Transfer W S} {capacity : Nat}

/-- What is read and written is a file: the bytes, and where reading and writing fail. -/
structure File where
  bytes : Bytes
  unreadable : Nat → Option Errno
  unwritable : Nat → Option Errno

/-- The calls read the file from where they are and write behind what they have written, as much
at a time as they like, and may be interrupted.  No call transfers a byte that it cannot, and
there are no cancellations. -/
structure OnFile (t : Transfer W S) (f : File) (position : W → Nat) (size : S → Nat) : Prop where
  read_interrupted : ∀ {w w' n}, t.read w n = (w', none) → position w' = position w
  read_failed : ∀ {w w' n e}, t.read w n = (w', some (.error e)) →
    position w' = position w ∧ f.unreadable (position w) = some e
  read_data : ∀ {w w' n data}, 0 < n → t.read w n = (w', some (.ok data)) →
    data <+: f.bytes.drop (position w) ∧ position w' = position w + data.length ∧
      f.unreadable (position w) = none ∧ (data = [] → f.bytes.length ≤ position w) ∧
      ∀ i < data.length, f.unreadable (position w + i) = none
  write_interrupted : ∀ {s s' rest}, t.write s rest = (s', none) → size s' = size s
  write_failed : ∀ {s s' rest e}, t.write s rest = (s', some (.error e)) →
    f.unwritable (size s) = some e
  write_data : ∀ {s s' rest n}, rest ≠ [] → t.write s rest = (s', some (.ok n)) →
    n ≤ rest.length ∧ size (t.progress s' n) = size s + n ∧
      (n = 0 → f.unwritable (size s) = (some EIO : Option Errno)) ∧
        ∀ i < n, f.unwritable (size s + i) = none
  not_cancelled : ∀ s, t.cancelled s = false

/-- How a copy ends at a place, if it does. -/
def File.halt (f : File) (p : Nat) : Option (Option Errno) :=
  match f.unreadable p with
  | some e => some (some e)
  | none =>
    if f.bytes.length ≤ p then some none
    else match f.unwritable p with
      | some e => some (some e)
      | none => none

/-- What is written so far, and where the loop stands. -/
structure Sound (f : File) (position : W → Nat) (size : S → Nat) (q : Plain W S) : Prop where
  position : position q.file = q.completed
  written : q.copier.written = f.bytes.take q.copier.written.length
  passed : ∀ i < q.copier.written.length, f.halt i = none
  readable : ∀ i, q.copier.written.length ≤ i → i < q.completed →
    f.unreadable i = none ∧ i < f.bytes.length
  place : match q.copier.place with
    | .top | .reading | .next => size q.copier.destination = q.copier.written.length ∧
        q.completed = q.copier.written.length
    | .writing done => size q.copier.destination = q.copier.written.length ∧
        ∃ data, q.buffer = .ok data ∧ q.copier.count = data.length ∧
          q.completed = q.copier.written.length + (data.drop done).length ∧
          data.drop done <+: f.bytes.drop q.copier.written.length
    | .finished status => f.halt q.copier.written.length = some status

theorem storageReadSize_pos (h : 0 < capacity) (sourceSize completed : Nat) :
    0 < storageReadSize sourceSize completed capacity := by
  unfold storageReadSize
  split
  · exact h
  · split
    · decide
    · omega

variable {f : File} {position : W → Nat} {size : S → Nat} {q q' : Plain W S}

/-- A block is read. -/
theorem Sound.reading (hfile : OnFile t f position size) (hcapacity : 0 < capacity)
    (h : Sound f position size q) (hplace : q.copier.place = .reading)
    (hnext : plainNext t capacity q = some q') : Sound f position size q' := by
  have hat := h.place
  rw [hplace] at hat
  obtain ⟨hsize, hcompleted⟩ := hat
  have hreadable := h.readable
  unfold plainNext at hnext
  rw [hplace] at hnext
  dsimp only at hnext
  split at hnext
  · rename_i file hask
    cases hnext
    exact { h with
      position := (hfile.read_interrupted hask).trans h.position
      place := ⟨hsize, hcompleted⟩ }
  · rename_i file block hask
    cases hnext
    cases block with
    | error e =>
      obtain ⟨hkept, hbad⟩ := hfile.read_failed hask
      rw [h.position, hcompleted] at hbad
      have hhalt : f.halt q.copier.written.length = some (some e) := by
        unfold File.halt
        rw [hbad]
      exact {
        position := hkept.trans h.position
        written := h.written
        passed := h.passed
        readable := h.readable
        place := hhalt }
    | ok data =>
      have hpos := storageReadSize_pos hcapacity t.sourceSize q.completed
      obtain ⟨hdata, hposition, hgood, hend, hall⟩ := hfile.read_data hpos hask
      rw [h.position] at hdata hposition hgood hend hall
      by_cases hempty : data = []
      · subst hempty
        have htake : q.copier.take (.ok []) = { q.copier with place := .finished none } := rfl
        have hhalt : f.halt q.copier.written.length = some none := by
          unfold File.halt
          rw [← hcompleted, hgood]
          dsimp only
          rw [if_pos (hend rfl)]
        rw [htake]
        exact {
          position := hposition
          written := h.written
          passed := h.passed
          readable := h.readable
          place := hhalt }
      · have htake : q.copier.take (.ok data) =
            { q.copier with place := .writing 0, count := data.length } := by
          unfold Copier.take
          dsimp only
          rw [if_neg hempty]
        have hlength := hdata.length_le
        rw [List.length_drop] at hlength
        have hnonempty := List.length_pos_iff.mpr hempty
        rw [htake]
        refine {
          position := hposition
          written := h.written
          passed := h.passed
          readable := ?_
          place := ⟨hsize, data, rfl, rfl, ?_, ?_⟩ }
        · intro i hfrom hto
          have hto' : i < q.completed + data.length := hto
          have hfrom' : q.copier.written.length ≤ i := hfrom
          have hbyte := hall (i - q.completed) (by omega)
          rw [Nat.add_sub_cancel' (by omega)] at hbyte
          exact ⟨hbyte, by omega⟩
        · have hsum : q.completed + data.length = q.copier.written.length + data.length := by
            rw [hcompleted]
          exact hsum
        · rw [← hcompleted]
          exact hdata

/-- A part of a block is written. -/
theorem Sound.writing (hfile : OnFile t f position size) (h : Sound f position size q)
    {done : Nat} (hplace : q.copier.place = .writing done)
    (hnext : plainNext t capacity q = some q') : Sound f position size q' := by
  have hat := h.place
  rw [hplace] at hat
  obtain ⟨hsize, data, hbuffer, hcount, hcompleted, hrest⟩ := hat
  rw [List.length_drop] at hcompleted
  unfold plainNext at hnext
  rw [hplace, hbuffer] at hnext
  cases hnext
  have hpart : (Block.bytes (.ok data)).take q.copier.count = data :=
    List.take_of_length_le (Nat.le_of_eq hcount.symm)
  unfold Copier.write
  split
  · rename_i hall
    have hsame : q.completed = q.copier.written.length := by omega
    exact { h with place := ⟨hsize, hsame⟩ }
  · rename_i hmore
    rw [hfile.not_cancelled, if_neg (by decide), hpart]
    have hne : data.drop done ≠ [] := by
      intro hnil
      rw [List.drop_eq_nil_iff] at hnil
      omega
    have hstart := h.readable q.copier.written.length (Nat.le_refl _) (by omega)
    -- At a place that can be read, only the destination can end the copy.
    have hhalt : ∀ e, f.unwritable q.copier.written.length = some e →
        f.halt q.copier.written.length = some (some e) := by
      intro e hbad
      unfold File.halt
      rw [hstart.1]
      dsimp only
      rw [if_neg (by omega), hbad]
    dsimp only
    split
    · rename_i destination hwrite
      exact { h with
        place := by
          have hkept : size destination = q.copier.written.length :=
            (hfile.write_interrupted hwrite).trans hsize
          rw [hplace]
          exact ⟨hkept, data, rfl, hcount, by rw [List.length_drop]; exact hcompleted, hrest⟩ }
    · rename_i destination e hwrite
      have hbad := hfile.write_failed hwrite
      rw [hsize] at hbad
      exact { h with place := hhalt e hbad }
    · rename_i destination n hwrite
      obtain ⟨hn, hgrown, hzero, hgood⟩ := hfile.write_data hne hwrite
      rw [hsize] at hgrown hzero hgood
      split
      · rename_i hnone
        exact { h with place := hhalt _ (hzero hnone) }
      · rename_i hsome
        rw [List.length_drop] at hn
        have hlength : ((data.drop done).take n).length = n := by
          rw [List.length_take, List.length_drop]
          omega
        have hfits : q.completed ≤ f.bytes.length := by
          have hlast := h.readable (q.completed - 1) (by omega) (by omega)
          omega
        obtain ⟨tail, htail⟩ := hrest
        have hwritten : q.copier.written ++ (data.drop done).take n =
            f.bytes.take (q.copier.written.length + n) := by
          rw [List.take_add, ← h.written, ← htail, List.take_append_of_le_length]
          rw [List.length_drop]
          omega
        have htotal : (q.copier.written ++ (data.drop done).take n).length =
            q.copier.written.length + n := by
          rw [List.length_append, hlength]
        refine {
          position := h.position
          written := ?_
          passed := ?_
          readable := ?_
          place := ⟨?_, data, rfl, hcount, ?_, ?_⟩ }
        · dsimp only
          rw [htotal]
          exact hwritten
        · intro i hi
          dsimp only at hi
          rw [htotal] at hi
          by_cases hbefore : i < q.copier.written.length
          · exact h.passed i hbefore
          · obtain ⟨hreadable, hinside⟩ := h.readable i (by omega) (by omega)
            have hwritable := hgood (i - q.copier.written.length) (by omega)
            rw [Nat.add_sub_cancel' (by omega)] at hwritable
            unfold File.halt
            rw [hreadable]
            dsimp only
            rw [if_neg (by omega), hwritable]
        · intro i hfrom hto
          dsimp only at hfrom hto
          rw [htotal] at hfrom
          exact h.readable i (by omega) hto
        · dsimp only
          rw [htotal]
          exact hgrown
        · dsimp only
          rw [htotal, List.length_drop]
          omega
        · dsimp only
          rw [htotal]
          have hleft : data.drop (done + n) = (data.drop done).drop n := List.drop_drop.symm
          have hright : f.bytes.drop (q.copier.written.length + n) =
              (f.bytes.drop q.copier.written.length).drop n := List.drop_drop.symm
          refine ⟨tail, ?_⟩
          rw [hleft, hright, ← htail,
            List.drop_append_of_le_length (by rw [List.length_drop]; omega)]

theorem Sound.step (hfile : OnFile t f position size) (hcapacity : 0 < capacity)
    (h : Sound f position size q) (hnext : plainNext t capacity q = some q') :
    Sound f position size q' := by
  have hat := h.place
  cases hplace : q.copier.place with
  | reading => exact h.reading hfile hcapacity hplace hnext
  | writing done => exact h.writing hfile hplace hnext
  | top =>
    rw [hplace] at hat
    unfold plainNext at hnext
    rw [hplace] at hnext
    cases hnext
    have htop : q.copier.top t = { q.copier with place := .reading } := by
      unfold Copier.top
      rw [hfile.not_cancelled, if_neg (by decide)]
    rw [htop]
    exact { h with place := hat }
  | next =>
    rw [hplace] at hat
    unfold plainNext at hnext
    rw [hplace] at hnext
    cases hnext
    exact { h with place := hat }
  | finished status =>
    unfold plainNext at hnext
    rw [hplace] at hnext
    cases hnext

theorem Sound.start {file : W} {buffer : Block} {destination : S} (hposition : position file = 0)
    (hsize : size destination = 0) : Sound f position size (.start file buffer destination) where
  position := hposition
  written := rfl
  passed := nofun
  readable := nofun
  place := ⟨hsize, rfl⟩

/-- What a copy has written when it ends: the file up to the first place where it halts. -/
theorem Sound.ends (hfile : OnFile t f position size) (hcapacity : 0 < capacity) {file : W}
    {buffer : Block} {destination : S} (hposition : position file = 0)
    (hsize : size destination = 0)
    (hend : EndsIn (plainNext t capacity) (.start file buffer destination) q) :
    ∃ p status, q.copier.place = .finished status ∧ q.copier.written = f.bytes.take p ∧
      f.halt p = some status ∧ ∀ i < p, f.halt i = none := by
  have hsound : Sound f position size q := by
    have hall : ∀ q', Runs (plainNext t capacity) (.start file buffer destination) q' →
        Sound f position size q' := by
      intro q' hruns
      induction hruns with
      | refl => exact Sound.start hposition hsize
      | tail _ hstep ih => exact ih.step hfile hcapacity hstep
    exact hall q hend.1
  have hat := hsound.place
  have hlast := hend.2
  cases hplace : q.copier.place with
  | finished status =>
    rw [hplace] at hat
    exact ⟨_, status, rfl, hsound.written, hat, hsound.passed⟩
  | top =>
    unfold plainNext at hlast
    rw [hplace] at hlast
    cases hlast
  | next =>
    unfold plainNext at hlast
    rw [hplace] at hlast
    cases hlast
  | writing done =>
    unfold plainNext at hlast
    rw [hplace] at hlast
    cases hlast
  | reading =>
    unfold plainNext at hlast
    rw [hplace] at hlast
    dsimp only at hlast
    split at hlast <;> cases hlast

/-- Two copies of a file agree, whatever their buffers and the amounts that their calls
transfer. -/
theorem copies_agree {W' S' : Type} {t' : Transfer W' S'} {capacity' : Nat}
    {position' : W' → Nat} {size' : S' → Nat} {r : Plain W' S'} {file : W} {file' : W'}
    {buffer buffer' : Block} {destination : S} {destination' : S'}
    (hfile : OnFile t f position size) (hfile' : OnFile t' f position' size')
    (hcapacity : 0 < capacity) (hcapacity' : 0 < capacity')
    (hstart : position file = 0 ∧ size destination = 0)
    (hstart' : position' file' = 0 ∧ size' destination' = 0)
    (hend : EndsIn (plainNext t capacity) (.start file buffer destination) q)
    (hend' : EndsIn (plainNext t' capacity') (.start file' buffer' destination') r) :
    q.copier.place = r.copier.place ∧ q.copier.written = r.copier.written := by
  obtain ⟨p, status, hplace, hwritten, hhalt, hpassed⟩ :=
    Sound.ends hfile hcapacity hstart.1 hstart.2 hend
  obtain ⟨p', status', hplace', hwritten', hhalt', hpassed'⟩ :=
    Sound.ends hfile' hcapacity' hstart'.1 hstart'.2 hend'
  -- Both have ended at the first place where the copy halts.
  have hsame : p = p' := by
    rcases Nat.lt_trichotomy p p' with hless | heq | hless
    · rw [hpassed' p hless] at hhalt
      cases hhalt
    · exact heq
    · rw [hpassed p' hless] at hhalt'
      cases hhalt'
  subst hsame
  rw [hhalt] at hhalt'
  cases hhalt'
  exact ⟨hplace.trans hplace'.symm, hwritten.trans hwritten'.symm⟩

theorem halveChunkSize_pos {sourceSize chunkSize : Nat} (h : 0 < chunkSize) :
    0 < halveChunkSize sourceSize chunkSize := by
  induction chunkSize using Nat.strongRecOn with
  | ind chunkSize ih =>
    unfold halveChunkSize
    split
    · rename_i hlarge
      exact ih (chunkSize / 2) (by omega) (by omega)
    · exact h

theorem aheadChunkSize_pos (sourceSize : Nat) : 0 < aheadChunkSize sourceSize := by
  unfold aheadChunkSize
  refine halveChunkSize_pos ?_
  split <;> decide

/-- Both programs that read ahead with a second thread do what their plain loops do, in every
interleaving of their threads.  Sending and copying: what was sent or written and the result are
those of the plain loop with a buffer of the same size at some moment, at its end if the loop has
ended.  Copying with the buffer of the plain loop: the same bytes are written with the same result.
As long as not both threads have ended, one of them can go on, and they end if the plain loop ends
and the reads are not interrupted forever. -/
theorem readAhead_refines :
    (∀ (W S : Type) (t : PkgServer.Transfer W S) (file : W) (blocks : Fin 2 → PkgServer.Block)
      (buffer : PkgServer.Block) (offset : Nat) (socket : S),
      (∀ s, Relation.ReflTransGen (PkgServer.Ahead.Moves t) (.start file blocks offset socket) s →
        (∃ q, Runs (PkgServer.plainNext t) (.start file buffer offset socket) q ∧
          s.sender = q.sender ∧ (s.sender.Finished →
            EndsIn (PkgServer.plainNext t) (.start file buffer offset socket) q)) ∧
        (s.Joined ∨ ∃ s', PkgServer.Ahead.Moves t s s')) ∧
      ∀ q patience, EndsIn (PkgServer.plainNext t) (.start file buffer offset socket) q →
        Patient t.source patience → ¬ ∃ run : Nat → PkgServer.Ahead W S,
          run 0 = .start file blocks offset socket ∧
            ∀ n, PkgServer.Ahead.Moves t (run n) (run (n + 1))) ∧
    (∀ (W S : Type) (t : Transfer W S) (capacity : Nat) (file : W) (blocks : Fin 2 → Block)
      (buffer : Block) (destination : S),
      (∀ s, Relation.ReflTransGen (Ahead.Moves t capacity) (.start file blocks destination) s →
        (∃ q, Runs (plainNext t capacity) (.start file buffer destination) q ∧
          s.copier = q.copier ∧ (s.copier.Finished →
            EndsIn (plainNext t capacity) (.start file buffer destination) q)) ∧
        (s.Joined ∨ ∃ s', Ahead.Moves t capacity s s')) ∧
      ∀ q patience, EndsIn (plainNext t capacity) (.start file buffer destination) q →
        Patient (t.source capacity) patience → ¬ ∃ run : Nat → Ahead W S,
          run 0 = .start file blocks destination ∧
            ∀ n, Ahead.Moves t capacity (run n) (run (n + 1))) ∧
    (∀ (W S W' S' : Type) (t : Transfer W S) (t' : Transfer W' S') (f : File)
      (position : W → Nat) (size : S → Nat) (position' : W' → Nat) (size' : S' → Nat)
      (file : W) (blocks : Fin 2 → Block) (destination : S) (file' : W') (buffer' : Block)
      (destination' : S') (s : Ahead W S) (r : Plain W' S'),
      OnFile t f position size → OnFile t' f position' size' →
      position file = 0 ∧ size destination = 0 → position' file' = 0 ∧ size' destination' = 0 →
      Relation.ReflTransGen (Ahead.Moves t (aheadChunkSize t.sourceSize))
        (.start file blocks destination) s → s.copier.Finished →
      EndsIn (plainNext t' storageCopyBufferSize) (.start file' buffer' destination') r →
      s.copier.place = r.copier.place ∧ s.copier.written = r.copier.written) := by
  refine ⟨fun _ _ => PkgServer.sendAhead_refines, fun _ _ => copyAhead_refines, ?_⟩
  intro W S W' S' t t' f position size position' size' file blocks destination file' buffer'
    destination' s r hfile hfile' hstart hstart' hmoves hfinished hend'
  obtain ⟨⟨q, -, hsame, hend⟩, -⟩ :=
    (copyAhead_refines t (aheadChunkSize t.sourceSize) file blocks buffer' destination).1 s hmoves
  rw [hsame]
  exact copies_agree hfile hfile' (aheadChunkSize_pos _) (by decide) hstart hstart'
    (hend hfinished) hend'

/-- Three bytes in a file that can be read and written everywhere. -/
def threeBytes : File where
  bytes := [1, 2, 3]
  unreadable := fun _ => none
  unwritable := fun _ => none

/-- Calls that read two bytes at a time and write one, and whose first read is interrupted. -/
def shortCalls : Transfer (Bool × Nat) Nat where
  read w n :=
    if w.1 then ((false, w.2), none)
    else
      let data := (threeBytes.bytes.drop w.2).take (min n 2)
      ((false, w.2 + data.length), some (.ok data))
  write s rest := (s + min rest.length 1, some (.ok (min rest.length 1)))
  progress s _ := s
  cancelled _ := false
  sourceSize := 3

theorem shortCalls_onFile : OnFile shortCalls threeBytes Prod.snd id where
  read_interrupted := by
    intro w w' n h
    unfold shortCalls at h
    dsimp only at h
    split at h
    · cases h
      rfl
    · cases h
  read_failed := by
    intro w w' n e h
    unfold shortCalls at h
    dsimp only at h
    split at h <;> cases h
  read_data := by
    intro w w' n data hpos h
    unfold shortCalls at h
    dsimp only at h
    split at h
    · cases h
    · cases h
      refine ⟨List.take_prefix _ _, rfl, rfl, ?_, fun _ _ => rfl⟩
      intro hnil
      have hlength := congrArg List.length hnil
      rw [List.length_take, List.length_drop, List.length_nil] at hlength
      omega
  write_interrupted := by
    intro s s' rest h
    cases h
  write_failed := by
    intro s s' rest e h
    cases h
  write_data := by
    intro s s' rest n hne h
    cases h
    have hpos := List.length_pos_iff.mpr hne
    refine ⟨by omega, rfl, fun hzero => by omega, fun _ _ => rfl⟩
  not_cancelled := fun _ => rfl

theorem readAhead_refines_threeBytes :
    ∀ s, Relation.ReflTransGen (Ahead.Moves shortCalls (aheadChunkSize 3))
      (.start (true, 0) (fun _ => .ok []) 0) s → s.copier.Finished →
    s.copier.place = .finished none ∧ s.copier.written = [1, 2, 3] := by
  intro s hmoves hfinished
  have hend : EndsIn (plainNext shortCalls storageCopyBufferSize) (.start (true, 0) (.ok []) 0)
      ⟨(false, 3), 3, .ok [], ⟨.finished none, 1, 3, [1, 2, 3]⟩⟩ := by
    refine ⟨?_, rfl⟩
    iterate 15 refine Runs.head rfl ?_
    exact Runs.refl _
  exact readAhead_refines.2.2 _ _ _ _ shortCalls shortCalls threeBytes Prod.snd id Prod.snd id
    _ _ _ _ _ _ s _ shortCalls_onFile shortCalls_onFile ⟨rfl, rfl⟩ ⟨rfl, rfl⟩ hmoves hfinished hend

end ShadowMount.StorageCopy
