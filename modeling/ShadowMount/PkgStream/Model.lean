import Mathlib.Data.Fin.Basic
import Mathlib.Logic.Function.Basic
import ShadowMount.Foundation.Transition
import ShadowMount.Types

/-!
# Package streams

{lit}`sm_pkg_stream.c` serves reads of a remote package through a small cache of
blocks.  Readers ask for the block they need and wait until a client has uploaded
it; clients poll for blocks to upload and reply with their bytes.

Every critical section of the mutex is one step here.  A reader gives the mutex up
when it waits on the condition variable, so a read is cut into the parts between
two waits, and everything else may happen in between.  What {lit}`realloc` and
{lit}`pthread_cond_timedwait` answer is part of a step.  Identifiers and ticks are
64 bits wide in the source and go up by one for each request; they are numbers
without a bound here, on the assumption that there are fewer than 2^64 requests.
-/

namespace ShadowMount.PkgStream

open Foundation

abbrev Bytes := List UInt8

/-- The bytes of a file from an offset on. -/
def bytes (file : Nat → UInt8) (offset size : Nat) : Bytes :=
  (List.range size).map fun i => file (offset + i)

/-- `SM_PKG_STREAM_CHUNK`. -/
def chunk : Nat := 1024 * 1024

/-- `STREAM_SLOTS`. -/
def streamSlots : Nat := 32

def streamReadAhead : Nat := 8

def streamPrefetchPending : Nat := 16

/-- `SM_PKG_STREAM_CLIENTS`. -/
def streamClients : Nat := 4

/-- `sm_pkg_range_t`. -/
structure Range where
  id : Nat
  offset : Nat
  size : Nat
deriving DecidableEq

/-- `stream_slot_t`.  A slot whose range has no id is free. -/
structure Slot where
  range : Range
  data : Bytes
  claimed : Bool
  ready : Bool
  consumed : Bool
  client : Nat
  waiters : Nat
  lastUse : Nat
deriving DecidableEq

/-- A slot as `calloc` leaves it. -/
def Slot.zero : Slot where
  range := ⟨0, 0, 0⟩
  data := []
  claimed := false
  ready := false
  consumed := false
  client := 0
  waiters := 0
  lastUse := 0

/-- `struct sm_pkg_stream`, without its synchronisation objects. -/
structure Stream where
  total : Nat
  nextId : Nat
  tick : Nat
  status : Option Errno
  slots : Fin streamSlots → Slot

/-- A stream for a package of the given length, before any request. -/
def Stream.fresh (total : Nat) : Stream where
  total := total
  nextId := 0
  tick := 0
  status := none
  slots _ := Slot.zero

/-- `sm_pkg_stream_create`, when memory suffices. -/
def create (total : Nat) : Except Errno Stream :=
  if total = 0 ∨ 2 ^ 63 ≤ total then .error .EINVAL else .ok (Stream.fresh total)

namespace Stream

variable (s : Stream)

/-- Overwrite one slot. -/
def setSlot (i : Fin streamSlots) (slot : Slot) : Stream :=
  { s with slots := Function.update s.slots i slot }

/-- `sm_pkg_stream_fail`; a status that is not positive is `none`. -/
def fail (status : Option Errno) : Stream :=
  match status with
  | none => s
  | some e => if s.status.isNone then { s with status := some e } else s

/-- `sm_pkg_stream_stop`. -/
def stop : Stream := s.fail (some .ECANCELED)

/-- `find_segment_locked`. -/
def findSegment (offset : Nat) : Option (Fin streamSlots) :=
  (List.finRange streamSlots).find? fun i =>
    (s.slots i).range.id ≠ 0 && (s.slots i).range.offset = offset

/-- May a request take the slot of another block?  Never the header, an upload in
flight or a block that is waited for; and read-ahead never one that is still to be
consumed. -/
def evictable (demanded : Bool) (slot : Slot) : Bool :=
  slot.ready && slot.waiters = 0 && slot.range.offset ≠ 0 && (demanded || slot.consumed)

/-- The loop of `request_segment_locked` over the slots: the first free one,
else the least recently used one that may be evicted. -/
def chooseFrom (demanded : Bool) :
    List (Fin streamSlots) → Option (Fin streamSlots) → Option (Fin streamSlots)
  | [], best => best
  | i :: rest, best =>
    if (s.slots i).range.id = 0 then some i
    else if !evictable demanded (s.slots i) then chooseFrom demanded rest best
    else if best.all fun b => (s.slots i).lastUse < (s.slots b).lastUse then
      chooseFrom demanded rest (some i)
    else chooseFrom demanded rest best

/-- `request_segment_locked`.  The argument says which memory `realloc`
returns for the block at an offset, with whatever that memory holds. -/
def requestSegment (offset : Nat) (demanded : Bool) (realloc : Nat → Option Bytes) :
    Except Errno (Fin streamSlots) × Stream :=
  match s.findSegment offset with
  | some i => (.ok i, s)
  | none =>
    match s.chooseFrom demanded (List.finRange streamSlots) none with
    | none => (.error .EAGAIN, s)
    | some i =>
      match realloc offset with
      | none => (.error .ENOMEM, s)
      | some memory =>
        (.ok i, { s with
          nextId := s.nextId + 1
          tick := s.tick + 1
          slots := Function.update s.slots i { Slot.zero with
            range := ⟨s.nextId + 1, offset, min (s.total - offset) chunk⟩
            data := memory
            lastUse := s.tick + 1 } })

/-- The loop of `prefetch_segments_locked` over the blocks ahead. -/
def prefetchLoop (realloc : Nat → Option Bytes) : List Nat → Nat → Stream → Stream
  | [], _, s => s
  | next :: rest, pending, s =>
    if s.total ≤ next then s
    else if (s.findSegment next).isSome then prefetchLoop realloc rest pending s
    else if streamPrefetchPending ≤ pending then s
    else match s.requestSegment next false realloc with
      | (.ok _, s) => prefetchLoop realloc rest (pending + 1) s
      | (.error _, s) => s

/-- `prefetch_segments_locked`. -/
def prefetchSegments (offset : Nat) (realloc : Nat → Option Bytes) : Stream :=
  let pending := (List.finRange streamSlots).countP fun i =>
    (s.slots i).range.id ≠ 0 && !(s.slots i).ready
  prefetchLoop realloc ((List.range streamReadAhead).map fun i => offset + (i + 1) * chunk)
    pending s

/-- One pass of `next_request_locked`: the oldest request that nobody has
claimed, on the first pass among those that are waited for. -/
def oldestRequest (demanded : Bool) : Option (Fin streamSlots) :=
  (List.finRange streamSlots).foldl (fun best i =>
    let slot := s.slots i
    if slot.range.id = 0 || slot.claimed || slot.ready || (demanded && slot.waiters = 0) then best
    else if best.all fun b => slot.range.id < (s.slots b).range.id then some i else best) none

/-- `next_request_locked`. -/
def nextRequest : Option (Fin streamSlots) :=
  (s.oldestRequest true).orElse fun _ => s.oldestRequest false

/-- One round of `sm_pkg_stream_request`; `none` means that it waits for
the condition and tries again. -/
def request : Option (Except Errno Range) × Stream :=
  match s.status with
  | some e => (some (.error e), s)
  | none =>
    match s.nextRequest with
    | some i => (some (.ok (s.slots i).range),
        s.setSlot i { s.slots i with claimed := true })
    | none => (none, s)

/-- `sm_pkg_stream_try_request`: a known client gets back the range it holds. -/
def tryRequest (client : Nat) : Except Errno Range × Stream :=
  if streamClients < client then (.error .EINVAL, s)
  else match s.status with
    | some e => (.error e, s)
    | none =>
      let held := (List.finRange streamSlots).find? fun i =>
        (s.slots i).range.id ≠ 0 && !(s.slots i).ready && (s.slots i).claimed &&
          (s.slots i).client = client
      match if client = 0 then none else held with
      | some i => (.ok (s.slots i).range, s)
      | none =>
        match s.nextRequest with
        | some i => (.ok (s.slots i).range,
            s.setSlot i { s.slots i with claimed := true, client })
        | none => (.error .EAGAIN, s)

/-- The slot a reply is about. -/
def replySlot (id : Nat) : Option (Fin streamSlots) :=
  (List.finRange streamSlots).find? fun i => id ≠ 0 && (s.slots i).range.id = id

/-- `sm_pkg_stream_reply`. -/
def reply (id : Nat) (data : Bytes) : Option Errno × Stream :=
  match s.status with
  | some e => (some e, s)
  | none =>
    match s.replySlot id with
    | none => (some .ENOENT, s)
    | some i =>
      if data.length ≠ (s.slots i).range.size then (some .EINVAL, s)
      else if (s.slots i).ready then
        (if (s.slots i).data = data then none else some .EINVAL, s)
      else if !(s.slots i).claimed then (some .EINVAL, s)
      else (none, { s.setSlot i { s.slots i with
          data, ready := true, lastUse := s.tick + 1, client := 0 } with
        tick := s.tick + 1 })

end Stream

/-- Where a call of `sm_pkg_stream_read` stands. -/
inductive Phase where
  | idle
  /-- About to take the mutex at the head of the outer loop. -/
  | entering
  /-- Waiting for a slot. -/
  | blocked
  /-- Waiting for the block of a slot, counted in its waiters. -/
  | awaiting (i : Fin streamSlots)
  /-- The mutex is released; the stream is to be failed. -/
  | failing (status : Errno)
  | returned (status : Option Errno)
deriving DecidableEq

/-- A reader: the arguments of its call, what is left to read, and what has been
written to its buffer. -/
structure Reader where
  first : Nat
  wanted : Nat
  offset : Nat
  size : Nat
  out : Bytes
  phase : Phase
deriving DecidableEq

namespace Reader

def idle : Reader where
  first := 0
  wanted := 0
  offset := 0
  size := 0
  out := []
  phase := .idle

/-- The offset of the block that is needed next. -/
def start (r : Reader) : Nat := r.offset - r.offset % chunk

/-- How many bytes of that block are needed. -/
def length (r : Reader) : Nat := min (chunk - r.offset % chunk) r.size

/-- The beginning of a call. -/
def call (total offset size : Nat) : Reader :=
  let r : Reader := { first := offset, wanted := size, offset, size, out := [], phase := .entering }
  if total < offset ∨ total - offset < size then { r with phase := .returned (some .EINVAL) }
  else if size = 0 then { r with phase := .returned none }
  else r

/-- The end of a turn of the outer loop without data. -/
def leave (r : Reader) (s : Stream) (status : Option Errno) : Reader :=
  match s.status.orElse fun _ => status with
  | some e => { r with phase := .failing e }
  | none => r

/-- The end of a turn of the outer loop that copied a piece of a block. -/
def take (r : Reader) (piece : Bytes) : Reader :=
  let size := r.size - r.length
  { r with
    out := r.out ++ piece
    offset := r.offset + r.length
    size
    phase := if size = 0 then .returned none else .entering }

/-- The inner loop that waits for the block, and the copy after it. -/
def await (r : Reader) (s : Stream) (i : Fin streamSlots) (status : Option Errno) :
    Reader × Stream :=
  let slot := s.slots i
  if s.status.isNone && status.isNone then
    if slot.ready then
      (r.take ((slot.data.drop (r.offset % chunk)).take r.length),
        { s.setSlot i { slot with
            consumed := true, lastUse := s.tick + 1, waiters := slot.waiters - 1 } with
          tick := s.tick + 1 })
    else ({ r with phase := .awaiting i }, s)
  else (r.leave s status, s.setSlot i { slot with waiters := slot.waiters - 1 })

/-- The first loop of a turn, which looks for a slot, and what follows once there is
one. -/
def acquire (r : Reader) (s : Stream) (status : Option Errno) (realloc : Nat → Option Bytes) :
    Reader × Stream :=
  if s.status.isNone && status.isNone then
    match s.requestSegment r.start true realloc with
    | (.ok i, s) =>
      let s := s.setSlot i { s.slots i with waiters := (s.slots i).waiters + 1 }
      let s := if 64 * 1024 ≤ r.wanted then s.prefetchSegments r.start realloc else s
      r.await s i none
    | (.error .ENOMEM, s) => (r.leave s (some .ENOMEM), s)
    | (.error _, s) => ({ r with phase := .blocked }, s)
  else (r.leave s status, s)

/-- Let the reader run to its next wait or to the end of its critical section.  The
status is what the wait it was in returned. -/
def advance (r : Reader) (s : Stream) (status : Option Errno) (realloc : Nat → Option Bytes) :
    Reader × Stream :=
  match r.phase with
  | .idle => (r, s)
  | .entering => r.acquire s none realloc
  | .blocked => r.acquire s status realloc
  | .awaiting i => r.await s i status
  | .failing e => ({ r with phase := .returned (some e) }, s.fail (some e))
  | .returned _ => (r, s)

end Reader

/-- A stream and its readers. -/
structure State (n : Nat) where
  stream : Stream
  readers : Fin n → Reader

/-- Readers of a new stream. -/
def State.fresh (total n : Nat) : State n where
  stream := Stream.fresh total
  readers _ := Reader.idle

/-- One step of a reader or of a client. -/
inductive Step (n : Nat) where
  | call (r : Fin n) (offset size : Nat)
  | advance (r : Fin n) (status : Option Errno) (realloc : Nat → Option Bytes)
  | request
  | tryRequest (client : Nat)
  | reply (id : Nat) (data : Bytes)
  | fail (status : Option Errno)

/-- Is the reader free for another call? -/
def Phase.free : Phase → Bool
  | .idle => true
  | .returned _ => true
  | _ => false

variable {n : Nat}

/-- The state after a step. -/
def State.next (st : State n) : Step n → State n
  | .call r offset size =>
    if (st.readers r).phase.free then
      let reader := Reader.call st.stream.total offset size
      { st with readers := Function.update st.readers r reader }
    else st
  | .advance r status realloc =>
    let (reader, stream) := (st.readers r).advance st.stream status realloc
    { stream, readers := Function.update st.readers r reader }
  | .request => { st with stream := st.stream.request.2 }
  | .tryRequest client => { st with stream := (st.stream.tryRequest client).2 }
  | .reply id data => { st with stream := (st.stream.reply id data).2 }
  | .fail status => { st with stream := st.stream.fail status }

/-- The reply is accepted: it is about this slot, which was handed to a client and
waits for its bytes. -/
def Accepted (s : Stream) (id : Nat) (data : Bytes) (i : Fin streamSlots) : Prop :=
  s.status = none ∧ s.replySlot id = some i ∧ data.length = (s.slots i).range.size ∧
    (s.slots i).claimed = true ∧ (s.slots i).ready = false

instance (s : Stream) (id : Nat) (data : Bytes) (i : Fin streamSlots) :
    Decidable (Accepted s id data i) :=
  inferInstanceAs (Decidable (_ ∧ _))

/-- The id belongs to a request that was handed to a client and not yet answered. -/
def Outstanding (s : Stream) (id : Nat) : Prop :=
  id ≠ 0 ∧ ∃ i, (s.slots i).range.id = id ∧ (s.slots i).claimed = true ∧
    (s.slots i).ready = false

/-- Accepted replies carry the bytes of the file. -/
def Honest (file : Nat → UInt8) (st : State n) : Step n → Prop
  | .reply id data => ∀ i, Accepted st.stream id data i →
      data = bytes file (st.stream.slots i).range.offset (st.stream.slots i).range.size
  | _ => True

instance Honest.decidable (file : Nat → UInt8) (st : State n) :
    (step : Step n) → Decidable (Honest file st step)
  | .reply id data => inferInstanceAs (Decidable (∀ i, Accepted st.stream id data i →
      data = bytes file (st.stream.slots i).range.offset (st.stream.slots i).range.size))
  | .call _ _ _ => isTrue trivial
  | .advance _ _ _ => isTrue trivial
  | .request => isTrue trivial
  | .tryRequest _ => isTrue trivial
  | .fail _ => isTrue trivial

/-- All interleavings of the readers of a package with its clients, as long as the
accepted replies are right. -/
def system (file : Nat → UInt8) (total n : Nat) : System (State n) (Step n) where
  init st := create total = .ok st.stream ∧ st.readers = fun _ => Reader.idle
  step st step st' := st' = st.next step ∧ Honest file st step

end ShadowMount.PkgStream
