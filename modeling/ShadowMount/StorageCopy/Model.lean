import ShadowMount.Foundation.ReadAhead
import ShadowMount.Foundation.Simulation
import ShadowMount.Storage.Model

/-!
# Copying a file

The two loops of {lit}`sm_storage.c` that copy the bytes of a file: the one of
{lit}`copy_regular_file`, which reads a buffer and writes it, and {lit}`copy_file_read_ahead`,
where {lit}`storage_read_ahead_thread` reads into two buffers and the loop writes them in turn.

A step is a critical section, a call, or the code between two of them.  The source and the
destination answer as they please, with a state of their own each; the answer of a call may be an
interruption.  The test for a cancellation looks at the state of the destination side.  While a
buffer is being read, and until its size is published, it holds anything.  The program is not
asked to stop and does not sleep, so the reader repeats a call that was interrupted.
-/

namespace ShadowMount.StorageCopy

open Foundation
open Storage (storageReadSize)
open Errno

abbrev Bytes := Storage.Bytes

/-- What a buffer holds with its size and error: the bytes that were read, or why there are
none. -/
abbrev Block := Except Errno Bytes

/-- The bytes of a block that are written. -/
def Block.bytes (block : Block) : Bytes :=
  match block with
  | .ok data => data
  | .error _ => []

/-- The calls, and the size that the source was found to have. -/
structure Transfer (W S : Type) where
  /-- `read` of so many bytes; none when it is interrupted. -/
  read : W → Nat → W × Option Block
  /-- `write`; none when it is interrupted. -/
  write : S → Bytes → S × Option (Except Errno Nat)
  progress : S → Nat → S
  /-- `storage_operation_cancelled`. -/
  cancelled : S → Bool
  sourceSize : Nat

variable {W S : Type}

/-- The file as a source of blocks, when it is read with a buffer of some size. -/
def Transfer.source (t : Transfer W S) (capacity : Nat) : Source W Nat Block where
  ask w completed := t.read w (storageReadSize t.sourceSize completed capacity)
  advance completed block := completed + block.bytes.length

/-- Where the loop stands. -/
inductive Place where
  | top
  | reading
  | writing (done : Nat)
  | next
  | finished (status : Option Errno)
deriving DecidableEq

/-- The local variables of the loop, the destination and what went into it. -/
structure Copier (S : Type) where
  place : Place
  count : Nat
  destination : S
  written : Bytes

/-- The beginning of a turn. -/
def Copier.top (t : Transfer W S) (c : Copier S) : Copier S :=
  if t.cancelled c.destination then { c with place := .finished (some .ECANCELED) }
  else { c with place := .reading }

/-- A block was read. -/
def Copier.take (c : Copier S) (block : Block) : Copier S :=
  match block with
  | .error e => { c with place := .finished (some e) }
  | .ok data =>
    if data = [] then { c with place := .finished none }
    else { c with place := .writing 0, count := data.length }

/-- One turn of `write_storage_buffer`, or its end. -/
def Copier.write (t : Transfer W S) (c : Copier S) (block : Block) (done : Nat) : Copier S :=
  if c.count ≤ done then { c with place := .next }
  else if t.cancelled c.destination then { c with place := .finished (some .ECANCELED) }
  else
    let rest := (block.bytes.take c.count).drop done
    match t.write c.destination rest with
    | (destination, none) => { c with destination := destination }
    | (destination, some (.error e)) =>
      { c with destination := destination, place := .finished (some e) }
    | (destination, some (.ok n)) =>
      if n = 0 then { c with destination := destination, place := .finished (some EIO) }
      else { c with
        destination := t.progress destination n
        written := c.written ++ rest.take n
        place := .writing (done + n) }

/-- The loop before its first turn. -/
def Copier.start (destination : S) : Copier S := ⟨.top, 0, destination, []⟩

structure Plain (W S : Type) where
  file : W
  completed : Nat
  buffer : Block
  copier : Copier S

/-- One step of the loop of `copy_regular_file` with a buffer of some size; none when it has
ended. -/
def plainNext (t : Transfer W S) (capacity : Nat) (q : Plain W S) : Option (Plain W S) :=
  match q.copier.place with
  | .finished _ => none
  | .top => some { q with copier := q.copier.top t }
  | .reading =>
    match t.read q.file (storageReadSize t.sourceSize q.completed capacity) with
    | (file, none) => some { q with file := file, copier := { q.copier with place := .top } }
    | (file, some block) =>
      some {
        file := file
        completed := q.completed + block.bytes.length
        buffer := block
        copier := q.copier.take block }
  | .writing done => some { q with copier := q.copier.write t q.buffer done }
  | .next => some { q with copier := { q.copier with place := .top } }

def Plain.start (file : W) (buffer : Block) (destination : S) : Plain W S :=
  ⟨file, 0, buffer, .start destination⟩

/-- Where `storage_read_ahead_thread` stands: with the mutex before a turn, in `read`,
behind it with what it read, or at its end. -/
inductive ReaderPlace where
  | top
  | reading
  | read (block : Block)
  | ended

/-- `storage_read_ahead_t`, with the local variables of the two threads. -/
structure Ahead (W S : Type) where
  file : W
  blocks : Fin 2 → Block
  pending : Nat
  stop : Bool
  reader : ReaderPlace
  /-- The `slot` of the reader. -/
  filling : Fin 2
  completed : Nat
  /-- The `slot` of the loop. -/
  slot : Fin 2
  copier : Copier S

/-- One step of `storage_read_ahead_thread`; none while it waits and when it has ended. -/
def readerStep (t : Transfer W S) (chunkSize : Nat) (junk : Block) (s : Ahead W S) :
    Option (Ahead W S) :=
  match s.reader with
  | .top =>
    if s.stop then some { s with reader := .ended }
    else if s.pending = 2 then none
    else some { s with blocks := Function.update s.blocks s.filling junk, reader := .reading }
  | .reading =>
    match t.read s.file (storageReadSize t.sourceSize s.completed chunkSize) with
    | (file, none) => some { s with file := file }
    | (file, some block) =>
      some { s with
        file := file
        completed := s.completed + block.bytes.length
        reader := .read block }
  | .read block =>
    if s.stop then some { s with reader := .ended }
    else
      let blocks := Function.update s.blocks s.filling block
      if block.bytes = [] then
        some { s with blocks := blocks, pending := s.pending + 1, reader := .ended }
      else
        some { s with
          blocks := blocks
          pending := s.pending + 1
          reader := .top
          filling := s.filling + 1 }
  | .ended => none

/-- One step of the loop of `copy_file_read_ahead`, and of its end; none while it waits and
when only the end of the other thread is left. -/
def copierStep (t : Transfer W S) (s : Ahead W S) : Option (Ahead W S) :=
  match s.copier.place with
  | .top => some { s with copier := s.copier.top t }
  | .reading =>
    if s.pending = 0 then none
    else some { s with copier := s.copier.take (s.blocks s.slot) }
  | .writing done => some { s with copier := s.copier.write t (s.blocks s.slot) done }
  | .next =>
    some { s with
      pending := s.pending - 1
      slot := s.slot + 1
      copier := { s.copier with place := .top } }
  | .finished _ => if s.stop then none else some { s with stop := true }

/-- One of the threads makes a step. -/
def Ahead.Moves (t : Transfer W S) (chunkSize : Nat) (s s' : Ahead W S) : Prop :=
  (∃ junk, readerStep t chunkSize junk s = some s') ∨ copierStep t s = some s'

/-- The state when both threads have started. -/
def Ahead.start (file : W) (blocks : Fin 2 → Block) (destination : S) : Ahead W S where
  file := file
  blocks := blocks
  pending := 0
  stop := false
  reader := .top
  filling := 0
  completed := 0
  slot := 0
  copier := .start destination

/-- Both threads have ended. -/
def Ahead.Joined (s : Ahead W S) : Prop :=
  (∃ status, s.copier.place = .finished status) ∧ s.stop = true ∧ s.reader = .ended

/-- The loop of `copy_file_read_ahead` that halves the size of the buffers. -/
def halveChunkSize (sourceSize chunkSize : Nat) : Nat :=
  if _h : 256 * 1024 < chunkSize ∧ sourceSize < 2 * chunkSize then
    halveChunkSize sourceSize (chunkSize / 2)
  else chunkSize
termination_by chunkSize
decreasing_by omega

/-- The size of the two buffers. -/
def aheadChunkSize (sourceSize : Nat) : Nat :=
  halveChunkSize sourceSize
    (if sourceSize < 2 * Storage.storageCopyBufferSize then 1024 * 1024
      else Storage.storageCopyBufferSize)

end ShadowMount.StorageCopy
