import Mathlib.Algebra.Order.Ring.Int
import Mathlib.Data.Fin.Basic
import Mathlib.Logic.Function.Basic
import ShadowMount.Foundation.Transition

/-!
# Pipelined SMB transfers

The transfer loop {lit}`smb_io` of {lit}`sm_vfs.c`.  A call cuts its buffer into blocks, keeps
up to eight of them in flight and refills a slot as soon as its block is complete.  Once a
reply was short, the queue is drained and the missing ranges are requested one after another.

The library completes a submitted block by a callback, in any order; which submissions it
refuses, and what each reply says, is up to the steps of a run.  The record of the replies is
not part of the program: it is what was really transferred.
-/

namespace ShadowMount.SmbIo

open Foundation

/-- `SMB_IO_REQUESTS`. -/
def ioRequests : Nat := 8

/-- `SMB_IO_BLOCK`. -/
def ioBlock : Nat := 1024 * 1024

/-- `SMB_IO_WRITE_BLOCK`. -/
def ioWriteBlock : Nat := 4 * 1024 * 1024

/-- `EIO`. -/
def eio : Nat := 5

/-- `smb_io_request_t`; the data pointer is a position in the caller's buffer. -/
structure Request where
  data : Nat
  offset : Nat
  length : Nat
  completed : Nat
deriving DecidableEq

/-- `smb_io_batch_t`, without the file and the deadline. -/
structure Batch where
  write : Bool
  pending : Nat
  error : Option Nat
  creditLimited : Bool
  offset : Nat
  size : Nat
  next : Nat
  block : Nat
deriving DecidableEq

/-- A reply without an error: so many bytes of the requested ones were transferred between
the buffer and the file. -/
structure Reply where
  data : Nat
  offset : Nat
  length : Nat
  count : Nat
deriving DecidableEq

/-- Where the call is. -/
inductive Phase where
  /-- In the first loop, with the slots that it still has to fill. -/
  | fill (slots : List (Fin ioRequests))
  /-- At the head of the second loop. -/
  | head
  /-- In the call that waits for replies. -/
  | service
  /-- Back at the caller, with the count or an error. -/
  | done (result : Option Nat)
deriving DecidableEq

/-- A call, the requests that the library holds, and the replies so far. -/
structure State where
  batch : Batch
  requests : Fin ioRequests → Request
  window : Nat
  phase : Phase
  flying : Fin ioRequests → Bool
  replies : List Reply

/-- The call fails with an error. -/
def State.fail (s : State) (e : Nat) : State := { s with batch := { s.batch with error := some e } }

/-- The library takes a request. -/
def State.launch (s : State) (i : Fin ioRequests) : State :=
  { s with
    batch := { s.batch with pending := s.batch.pending + 1 }
    flying := Function.update s.flying i true }

/-- The library gives a request back. -/
def State.land (s : State) (i : Fin ioRequests) : State :=
  { s with
    batch := { s.batch with pending := s.batch.pending - 1 }
    flying := Function.update s.flying i false }

/-- `smb_io_submit`, where the library may refuse the request. -/
def smbIoSubmit (i : Fin ioRequests) (refused : Option Nat) (s : State) : State × Option Nat :=
  match refused with
  | some e => (s, some e)
  | none => (s.launch i, none)

/-- The next block of the buffer. -/
def nextRequest (b : Batch) : Request where
  data := b.next
  offset := b.offset + b.next
  length := min (b.size - b.next) b.block
  completed := 0

/-- The next block is cut into a slot. -/
def State.cutNext (s : State) (i : Fin ioRequests) : State :=
  { s with
    requests := Function.update s.requests i (nextRequest s.batch)
    batch := { s.batch with next := s.batch.next + (nextRequest s.batch).length } }

/-- `smb_io_next`. -/
def smbIoNext (i : Fin ioRequests) (refused : Option Nat) (s : State) : State × Option Nat :=
  if s.batch.size ≤ s.batch.next then (s, none) else smbIoSubmit i refused (s.cutNext i)

/-- The bytes of a request that are still missing. -/
def Request.remaining (r : Request) : Nat := r.length - r.completed

/-- The record of a reply to a request. -/
def Request.reply (r : Request) (count : Nat) : Reply where
  data := r.data + r.completed
  offset := r.offset + r.completed
  length := r.remaining
  count := count

/-- The part of `smb_io_complete` that takes a count into account. -/
def accountReply (i : Fin ioRequests) (count : Nat) (s : State) : State :=
  let request := s.requests i
  { s with
    requests := Function.update s.requests i
      { request with completed := request.completed + count }
    batch := { s.batch with
      creditLimited :=
        s.batch.creditLimited || decide (0 < count) && decide (count < request.remaining)
      size :=
        if count = 0 then min s.batch.size (request.offset - s.batch.offset + request.completed)
        else s.batch.size }
    replies := request.reply count :: s.replies }

/-- `smb_io_complete`; only the first error is kept. -/
def smbIoComplete (i : Fin ioRequests) (status : Int) (refused : Option Nat) (s : State) : State :=
  if status < 0 then (s.land i).fail (s.batch.error.getD (-status).toNat)
  else if (s.requests i).remaining < status.toNat || status = 0 && s.batch.write then
    (s.land i).fail eio
  else
    let s := accountReply i status.toNat (s.land i)
    if s.batch.error.isNone && !s.batch.creditLimited then
      match smbIoNext i refused s with
      | (s, none) => s
      | (s, some e) => s.fail e
    else s

/-- The slots that a call uses. -/
def slots (window : Nat) : List (Fin ioRequests) := (List.finRange ioRequests).take window

/-- A request is cut at the end of the transfer. -/
def clip (b : Batch) (r : Request) : Request :=
  { r with length := min r.length (b.size - (r.offset - b.offset)) }

/-- The search for a request with missing bytes, which cuts requests on its way. -/
def findUnfinished (b : Batch) :
    List (Fin ioRequests) → (Fin ioRequests → Request) →
      (Fin ioRequests → Request) × Option (Fin ioRequests)
  | [], requests => (requests, none)
  | i :: rest, requests =>
    let request := requests i
    if request.length = 0 || decide (b.size ≤ request.offset - b.offset) then
      findUnfinished b rest requests
    else
      let requests := Function.update requests i (clip b request)
      if (clip b request).completed < (clip b request).length then (requests, some i)
      else findUnfinished b rest requests

/-- The end of `smb_io`. -/
def finish (s : State) : State :=
  { s with phase := .done (if s.batch.error.isSome then none else some s.batch.size) }

/-- After a submission outside of a callback. -/
def proceed (phase : Phase) (after : State × Option Nat) (failed : State → State) : State :=
  match after with
  | (s, none) => { s with phase := phase }
  | (s, some e) => failed (s.fail e)

/-- One turn of the first loop. -/
def fillSlot (refused : Option Nat) (s : State) : List (Fin ioRequests) → State
  | [] => { s with phase := .head }
  | i :: rest =>
    if s.batch.next < s.batch.size then
      proceed (.fill rest) (smbIoNext i refused s) fun s => { s with phase := .head }
    else { s with phase := .head }

/-- The head of the second loop. -/
def loopHead (refused : Option Nat) (s : State) : State :=
  if s.batch.pending ≠ 0 then { s with phase := .service }
  else if !s.batch.creditLimited || s.batch.error.isSome then finish s
  else
    let (requests, unfinished) := findUnfinished s.batch (slots s.window) s.requests
    let s := { s with requests := requests }
    match unfinished with
    | some i => proceed .service (smbIoSubmit i refused s) finish
    | none =>
      if s.batch.next < s.batch.size then
        proceed .service (smbIoNext ⟨0, by decide⟩ refused s) finish
      else finish s

/-- A step of a call and its surroundings. -/
inductive Step where
  | fill (refused : Option Nat)
  | head (refused : Option Nat)
  /-- The library completes a request. -/
  | reply (slot : Fin ioRequests) (status : Int) (refused : Option Nat)
  /-- The waiting call returns; an error stands for its own, for a stop and for a timeout. -/
  | poll (error : Option Nat)
deriving DecidableEq

/-- The state after a step; a step that is not due changes nothing. -/
def next (s : State) : Step → State
  | .fill refused =>
    match s.phase with
    | .fill rest => fillSlot refused s rest
    | _ => s
  | .head refused => if s.phase = .head then loopHead refused s else s
  | .reply i status refused =>
    if s.phase = .service ∧ s.flying i = true then smbIoComplete i status refused s else s
  | .poll error =>
    if s.phase = .service then
      match error with
      | none => { s with phase := .head }
      | some e => finish (s.fail e)
    else s

/-- What a call asks for, and what the connection allows. -/
structure Call where
  size : Nat
  offset : Nat
  writing : Bool
  /-- The negotiated limit of one request. -/
  maximum : Nat
  /-- Is the dialect no newer than `SMB2_VERSION_0202`? -/
  oldDialect : Bool
deriving DecidableEq

/-- The most that one call transfers. -/
def transferMax : Nat := ioBlock * ioRequests

/-- The size of a call, cut to the limit. -/
def Call.cut (c : Call) : Nat := min c.size transferMax

/-- The size of a block. -/
def Call.block (c : Call) : Nat :=
  let block := min c.maximum (if c.writing then ioWriteBlock else ioBlock)
  if c.oldDialect && decide (65536 < block) then 65536 else block

/-- The number of blocks in flight. -/
def Call.window (c : Call) : Nat := if 256 * 1024 ≤ c.cut then ioRequests else 1

/-- The tests at the start of `smb_io`. -/
def Call.entry (c : Call) : Phase :=
  if c.size = 0 then .done (some 0)
  else if 2 ^ 63 - 1 - c.cut < c.offset then .done none
  else if c.block = 0 then .done none
  else .fill (slots c.window)

/-- The start of `smb_io`. -/
def Call.start (c : Call) : State where
  batch := ⟨c.writing, 0, none, false, c.offset, c.cut, 0, c.block⟩
  requests := fun _ => ⟨0, 0, 0, 0⟩
  window := c.window
  phase := c.entry
  flying := fun _ => false
  replies := []

/-- All runs of a call. -/
def Call.system (c : Call) : System State Step := System.ofFunction c.start next

end ShadowMount.SmbIo
