import ShadowMount.Foundation.ReadAhead
import ShadowMount.Foundation.Simulation
import ShadowMount.Types

/-!
# Sending a range

The loop of {lit}`serve_file` in {lit}`sm_pkg_server.c` that sends a range of the package, with
{lit}`read_ahead_worker` and without.  Without, every turn reads a block and sends it; with it,
a second thread reads into two blocks and the loop takes them in turn.

A step is a critical section, a call, or the code between two of them.  The file and the socket
answer as they please, with a state of their own each, since one thread reads and one sends; the
answer of a call may be an interruption.  While a block is being read it holds anything.  The
server runs, and the counters of the transfer are left out.
-/

namespace ShadowMount.PkgServer

open Foundation

abbrev Bytes := List UInt8

/-- What a block holds: the bytes that were read, or why there are none. -/
abbrev Block := Except Errno Bytes

/-- The calls, the size of a block and the end of the range. -/
structure Transfer (W S : Type) where
  /-- `pread` at an offset of so many bytes; none when it is interrupted. -/
  pread : W → Nat → Nat → W × Option Block
  /-- `send`; none when it is interrupted. -/
  send : S → Bytes → S × Option (Except Errno Nat)
  chunkSize : Nat
  last : Nat

variable {W S : Type}

/-- How much is read at an offset. -/
def Transfer.want (t : Transfer W S) (offset : Nat) : Nat := min (t.last - offset + 1) t.chunkSize

/-- The file as a source of blocks. -/
def Transfer.source (t : Transfer W S) : Source W Nat Block where
  ask w offset := t.pread w offset (t.want offset)
  advance offset block :=
    match block with
    | .ok data => offset + data.length
    | .error _ => offset

/-- Where the loop stands. -/
inductive Place where
  | top
  | reading
  | sending (done : Nat)
  | next
  | finished (ok : Bool)
deriving DecidableEq

/-- The local variables of the loop, the socket and what went into it. -/
structure Sender (S : Type) where
  place : Place
  offset : Nat
  count : Nat
  socket : S
  sent : Bytes

/-- The condition of the loop. -/
def Sender.top (t : Transfer W S) (c : Sender S) : Sender S :=
  if c.offset ≤ t.last then { c with place := .reading } else { c with place := .finished true }

/-- A block was read: only one with bytes is sent. -/
def Sender.take (c : Sender S) (block : Block) : Sender S :=
  match block with
  | .error _ => { c with place := .finished false }
  | .ok data =>
    if data = [] then { c with place := .finished false }
    else { c with place := .sending 0, count := data.length }

/-- The bytes of a block that are sent. -/
def Block.bytes (block : Block) : Bytes :=
  match block with
  | .ok data => data
  | .error _ => []

/-- One turn of `send_all`, or its end. -/
def Sender.send (t : Transfer W S) (c : Sender S) (block : Block) (done : Nat) : Sender S :=
  if c.count ≤ done then { c with place := .next }
  else
    let rest := (block.bytes.take c.count).drop done
    match t.send c.socket rest with
    | (socket, none) => { c with socket := socket }
    | (socket, some (.error _)) => { c with socket := socket, place := .finished false }
    | (socket, some (.ok n)) =>
      if n = 0 then { c with socket := socket, place := .finished false }
      else { c with socket := socket, sent := c.sent ++ rest.take n, place := .sending (done + n) }

/-- The end of a turn. -/
def Sender.advance (c : Sender S) : Sender S :=
  { c with offset := c.offset + c.count, place := .top }

/-- The loop before its first turn. -/
def Sender.start (offset : Nat) (socket : S) : Sender S := ⟨.top, offset, 0, socket, []⟩

structure Plain (W S : Type) where
  file : W
  buffer : Block
  sender : Sender S

/-- One step of the loop; none when it has ended. -/
def plainNext (t : Transfer W S) (q : Plain W S) : Option (Plain W S) :=
  match q.sender.place with
  | .finished _ => none
  | .top => some { q with sender := q.sender.top t }
  | .reading =>
    match t.pread q.file q.sender.offset (t.want q.sender.offset) with
    | (file, none) => some { q with file := file, sender := { q.sender with place := .top } }
    | (file, some block) =>
      some { file := file, buffer := block, sender := q.sender.take block }
  | .sending done => some { q with sender := q.sender.send t q.buffer done }
  | .next => some { q with sender := q.sender.advance }

/-- Where `read_ahead_worker` stands: with the mutex before a turn, in `pread` of a
block, with the mutex behind it, or at its end. -/
inductive ReaderPlace where
  | top
  | reading (block : Fin 2) (offset want : Nat)
  | read (block : Fin 2) (interrupted : Bool)
  | ended
deriving DecidableEq

/-- `sm_pkg_read_ahead_t`, with the local variables of the two threads. -/
structure Ahead (W S : Type) where
  file : W
  blocks : Fin 2 → Block
  offset : Nat
  head : Fin 2
  pending : Nat
  stop : Bool
  done : Bool
  reader : ReaderPlace
  /-- The block that the loop sends. -/
  taken : Fin 2
  sender : Sender S

/-- One step of `read_ahead_worker`; none while it waits and when it has ended. -/
def readerStep (t : Transfer W S) (junk : Block) (s : Ahead W S) : Option (Ahead W S) :=
  match s.reader with
  | .top =>
    if s.stop || decide (t.last < s.offset) then some { s with done := true, reader := .ended }
    else if s.pending = 2 then none
    else
      let block := tailBlock s.head s.pending
      some { s with
        blocks := Function.update s.blocks block junk
        reader := .reading block s.offset (t.want s.offset) }
  | .reading block offset want =>
    match t.pread s.file offset want with
    | (file, none) => some { s with file := file, reader := .read block true }
    | (file, some answer) =>
      some { s with
        file := file
        blocks := Function.update s.blocks block answer
        reader := .read block false }
  | .read _ true => some { s with reader := .top }
  | .read block false =>
    match s.blocks block with
    | .error _ => some { s with pending := s.pending + 1, done := true, reader := .ended }
    | .ok data =>
      if data = [] then
        some { s with pending := s.pending + 1, done := true, reader := .ended }
      else
        some { s with
          pending := s.pending + 1, offset := s.offset + data.length, reader := .top }
  | .ended => none

/-- One step of the loop that takes the blocks, and of `stop_read_ahead`; none while it waits
and when only the end of the other thread is left. -/
def senderStep (t : Transfer W S) (s : Ahead W S) : Option (Ahead W S) :=
  match s.sender.place with
  | .top => some { s with sender := s.sender.top t }
  | .reading =>
    if s.pending = 0 then
      if s.done then some { s with sender := { s.sender with place := .finished false } }
      else none
    else some { s with taken := s.head, sender := s.sender.take (s.blocks s.head) }
  | .sending done => some { s with sender := s.sender.send t (s.blocks s.taken) done }
  | .next =>
    some { s with
      head := s.head + 1, pending := s.pending - 1, sender := s.sender.advance }
  | .finished _ => if s.stop then none else some { s with stop := true }

/-- One of the threads makes a step. -/
def Ahead.Moves (t : Transfer W S) (s s' : Ahead W S) : Prop :=
  (∃ junk, readerStep t junk s = some s') ∨ senderStep t s = some s'

/-- The state behind `start_read_ahead`. -/
def Ahead.start (file : W) (blocks : Fin 2 → Block) (offset : Nat) (socket : S) : Ahead W S where
  file := file
  blocks := blocks
  offset := offset
  head := 0
  pending := 0
  stop := false
  done := false
  reader := .top
  taken := 0
  sender := .start offset socket

/-- Both threads have ended. -/
def Ahead.Joined (s : Ahead W S) : Prop :=
  (∃ ok, s.sender.place = .finished ok) ∧ s.stop = true ∧ s.reader = .ended

end ShadowMount.PkgServer
