import ShadowMount.Foundation.LittleEndian
import ShadowMount.PkgStream.Model

/-!
# The upload connection

{lit}`sm_pkg_ws.c` serves one WebSocket connection, on which a browser uploads the blocks of a
package.  Received bytes go to the end of a buffer; complete frames are taken from its front,
unmasked in place, and the fragments of a message are put together in a second buffer.

One turn of each loop is a step here.  What the calls of a turn answer, to the stream, the
sockets and the allocator, is part of the step, so a run of steps stands for every behaviour of
the surroundings.  A step tells what it took from the socket and what it made of it.
-/

namespace ShadowMount.PkgWs

open Foundation
open PkgStream (Range streamClients)

abbrev Bytes := PkgStream.Bytes

/-- `WS_MESSAGE_MAX`. -/
def messageMax : Nat := PkgStream.chunk + 8

/-- The size of the receive buffer. -/
def capacity : Nat := messageMax + 14

/-- What `sm_pkg_ws_decode` returns. -/
inductive Decoded where
  | incomplete
  | invalid
  | frame (opcode : Nat) (fin : Bool) (offset length consumed : Nat)
deriving DecidableEq

/-- The length of the payload and of the header before the mask. -/
inductive Header where
  | incomplete
  | invalid
  | known (count header : Nat)
deriving DecidableEq

/-- The number that the bytes of a length field stand for: each byte is shifted in from below. -/
def bigEndian (field : Bytes) : Nat := field.foldl (fun n b => n * 256 + b.toNat) 0

/-- The part of `sm_pkg_ws_decode` that reads the length. -/
def readLength (data : Bytes) : Header :=
  let count := (data.getD 1 0 &&& 127).toNat
  if count = 126 then
    if data.length < 4 then .incomplete
    else
      let count := bigEndian ((data.drop 2).take 2)
      if count < 126 then .invalid else .known count 4
  else if count = 127 then
    if data.length < 10 then .incomplete
    else
      let count := bigEndian ((data.drop 2).take 8)
      if count ≤ 65535 then .invalid else .known count 10
  else .known count 2

/-- The loop that unmasks a payload. -/
def unmask (mask payload : Bytes) : Bytes :=
  payload.mapIdx fun i b => b ^^^ mask.getD (i % 4) 0

/-- The bits that are reserved, the mask bit and the opcodes. -/
def headerRefused (data : Bytes) : Bool :=
  (data.getD 0 0 &&& 0x70) ≠ 0 || (data.getD 1 0 &&& 0x80) = 0 ||
    (data.getD 0 0 &&& 15).toNat ∉ [0, 1, 2, 8, 9, 10]

/-- The limits on the length of a payload. -/
def lengthRefused (opcode : Nat) (fin : Bool) (count : Nat) : Bool :=
  messageMax < count || (8 ≤ opcode && (!fin || 125 < count)) || (opcode = 8 && count = 1)

/-- `sm_pkg_ws_decode`: the result, and the bytes as it leaves them. -/
def decode (data : Bytes) : Decoded × Bytes :=
  if data.length < 2 then (.incomplete, data)
  else if headerRefused data then (.invalid, data)
  else
    let opcode := (data.getD 0 0 &&& 15).toNat
    let fin : Bool := (data.getD 0 0 &&& 128) ≠ 0
    match readLength data with
    | .incomplete => (.incomplete, data)
    | .invalid => (.invalid, data)
    | .known count header =>
      if lengthRefused opcode fin count then (.invalid, data)
      else if data.length < header + 4 + count then (.incomplete, data)
      else
        let mask := (data.drop header).take 4
        let payload := unmask mask ((data.drop (header + 4)).take count)
        (.frame opcode fin (header + 4) count (header + 4 + count),
          data.take (header + 4) ++ payload ++ data.drop (header + 4 + count))

/-- The two kinds of messages. -/
inductive Kind where
  | text | binary
deriving DecidableEq

/-- What comes out of the bytes. -/
inductive Yield where
  | message (kind : Kind) (payload : Bytes)
  | ping (payload : Bytes)
  | pong (payload : Bytes)
  | close (payload : Bytes)
deriving DecidableEq

/-- Why the loop ends. -/
inductive Stop where
  /-- More bytes came with the request than the buffer holds. -/
  | oversize
  /-- `running` is false. -/
  | stopped
  /-- The stream is cancelled, or refuses a request for another reason. -/
  | canceled | request
  /-- A frame cannot be sent. -/
  | send
  /-- `sm_pkg_ws_decode` finds an error. -/
  | invalid
  /-- A close frame. -/
  | closed
  /-- A text message that is no request for a larger window. -/
  | text
  /-- A fragment out of place, or a message that is too long. -/
  | fragment
  /-- No memory for fragments. -/
  | memory
  /-- A message without an id, or with the id of no open request. -/
  | short | unknown
  /-- The stream does not take the reply. -/
  | replied (e : Errno)
  /-- The buffer is full. -/
  | full
  /-- `poll` or `recv` fails, or the connection ends. -/
  | receive
deriving DecidableEq

/-- `close_code`, if a close frame is sent. -/
def Stop.closeCode : Stop → Option Nat
  | .oversize | .send | .receive => none
  | .stopped | .canceled | .closed => some 1000
  | .replied e => some (if e = .ECANCELED then 1000 else 1002)
  | .invalid | .text | .fragment | .short | .unknown => some 1002
  | .full => some 1009
  | .request | .memory => some 1011

/-- The status that the stream fails with. -/
def Stop.failure : Stop → Errno
  | .oversize | .invalid | .text | .fragment | .short | .unknown | .full => .EPROTO
  | .memory => .ENOMEM
  | .replied e => e
  | .stopped | .canceled | .request | .send | .closed | .receive => .ECONNRESET

/-- The local variables: the first `used` bytes of `input`, whether `message` is
there and its first `assembled` bytes, and the ids of the open requests. -/
structure Connection where
  input : Bytes
  allocated : Bool
  message : Bytes
  fragmented : Bool
  window : Nat
  pending : Fin streamClients → Nat
  refill : Bool

/-- What `sm_pkg_stream_try_request` answers. -/
inductive Claim where
  | canceled | again | failed
  | range (r : Range)
deriving DecidableEq

/-- What `recv` answers. -/
inductive Received where
  | interrupted | failed
  | bytes (data : Bytes)
deriving DecidableEq

/-- What `poll` answers on the socket and the wakeup descriptor. -/
inductive Polled where
  | interrupted | failed | hangup | woken
  | readable (received : Received)
deriving DecidableEq

/-- What the calls of one turn answer. -/
structure Answers where
  running : Bool
  claim : Fin streamClients → Claim
  rangeSent : Fin streamClients → Bool
  sent : Bool
  memory : Bool
  reply : Option Errno
  wake : Bool
  polled : Polled

/-- The bytes of a text. -/
def asciiBytes (text : String) : Bytes := text.toList.map fun c => UInt8.ofNat c.toNat

/-- The request for a larger window. -/
def windowRequest : Bytes := asciiBytes "\x7b\"op\":\"window\",\"size\":4\x7d"

/-- One turn of the loop over the clients. -/
def claimRange (a : Answers) (c : Connection) (client : Fin streamClients) :
    Except Stop Connection :=
  if c.pending client ≠ 0 then .ok c
  else match a.claim client with
    | .canceled => .error .canceled
    | .again => .ok c
    | .failed => .error .request
    | .range r =>
      if a.rangeSent client then .ok { c with pending := Function.update c.pending client r.id }
      else .error .send

/-- The loop over the clients of the window. -/
def claimRanges (a : Answers) (c : Connection) : Except Stop Connection :=
  ((List.finRange streamClients).filter fun i => decide (i.val < c.window)).foldlM
    (claimRange a) c

/-- What the loop does with a complete binary message. -/
def deliver (a : Answers) (c : Connection) (complete : Bytes) : Except Stop Connection :=
  if complete.length < 8 then .error .short
  else
    let id := ofLittleEndian (complete.take 8)
    match (List.finRange streamClients).find? fun slot => c.pending slot = id with
    | none => .error .unknown
    | some slot =>
      if id = 0 then .error .unknown
      else match a.reply with
        | some e => .error (.replied e)
        | none =>
          if a.sent then
            .ok { c with
              pending := Function.update c.pending slot 0, message := [], refill := true }
          else .error .send

/-- What the loop does with a fragment or a message that is not fragmented. -/
def takeFragment (a : Answers) (c : Connection) (opcode : Nat) (fin : Bool) (payload : Bytes) :
    List Yield × Except Stop Connection :=
  if (opcode = 2 && c.fragmented) || (opcode = 0 && !c.fragmented) ||
      decide (messageMax - c.message.length < payload.length) then ([], .error .fragment)
  else if c.fragmented || !fin then
    if !c.allocated && !a.memory then ([], .error .memory)
    else
      let complete := c.message ++ payload
      let c := { c with allocated := true, message := complete, fragmented := !fin }
      if fin then ([.message .binary complete], deliver a c complete) else ([], .ok c)
  else ([.message .binary payload], deliver a c payload)

/-- What the loop does with a frame. -/
def takeFrame (a : Answers) (c : Connection) (opcode : Nat) (fin : Bool) (payload : Bytes) :
    List Yield × Except Stop Connection :=
  if opcode = 8 then ([.close payload], .error .closed)
  else if opcode = 9 then ([.ping payload], if a.sent then .ok c else .error .send)
  else if opcode = 1 then
    if !fin || c.fragmented then ([], .error .fragment)
    else if payload ≠ windowRequest then ([.message .text payload], .error .text)
    else ([.message .text payload], .ok { c with window := streamClients, refill := true })
  else if opcode = 10 then ([.pong payload], .ok c)
  else takeFragment a c opcode fin payload

/-- Where the loops stand. -/
inductive Phase where
  | top
  | frames
  | wait
  | done (why : Stop)
deriving DecidableEq

structure Server where
  connection : Connection
  phase : Phase

/-- What a step tells: bytes from the socket, or what came out of them. -/
inductive Event where
  | received (data : Bytes)
  | yield (y : Yield)
deriving DecidableEq

/-- The state when the loop starts, with the bytes that came with the request. -/
def Server.start (initial : Bytes) : Server where
  connection := ⟨initial, false, [], false, 2, fun _ => 0, false⟩
  phase := if capacity < initial.length then .done .oversize else .top

/-- Go on with a connection, or end. -/
def Server.next (c : Connection) (phase : Phase) (result : Except Stop Connection) : Server :=
  match result with
  | .ok c => ⟨c, phase⟩
  | .error why => ⟨c, .done why⟩

/-- One turn of the loop that takes frames from the buffer. -/
def stepFrames (a : Answers) (c : Connection) : Server × List Event :=
  match decode c.input with
  | (.invalid, _) => (⟨c, .done .invalid⟩, [])
  | (.incomplete, _) => (⟨c, if c.refill then .top else .wait⟩, [])
  | (.frame opcode fin offset length consumed, input) =>
    let payload := (input.drop offset).take length
    let result := takeFrame a { c with input := input.drop consumed } opcode fin payload
    (.next c .frames result.2, result.1.map .yield)

/-- Is there a client without a request? -/
def available (c : Connection) : Bool :=
  (List.finRange streamClients).any fun i => decide (i.val < c.window) && c.pending i = 0

/-- Waiting for bytes or for the stream.  A call of `recv` takes as much as there is room
for. -/
def stepWait (a : Answers) (c : Connection) : Server × List Event :=
  if available c && c.input = [] && a.wake then (⟨c, .top⟩, [])
  else match a.polled with
    | .interrupted | .woken => (⟨c, .top⟩, [])
    | .failed | .hangup => (⟨c, .done .receive⟩, [])
    | .readable received =>
      if c.input.length = capacity then (⟨c, .done .full⟩, [])
      else match received with
        | .interrupted => (⟨c, .top⟩, [])
        | .failed => (⟨c, .done .receive⟩, [])
        | .bytes data =>
          let got := data.take (capacity - c.input.length)
          if got = [] then (⟨c, .done .receive⟩, [])
          else (⟨{ c with input := c.input ++ got }, .top⟩, [.received got])

/-- One turn. -/
def step (a : Answers) (s : Server) : Server × List Event :=
  match s.phase with
  | .top =>
    if !a.running then (⟨s.connection, .done .stopped⟩, [])
    else
      let c := { s.connection with refill := false }
      (.next c .frames (claimRanges a c), [])
  | .frames => stepFrames a s.connection
  | .wait => stepWait a s.connection
  | .done _ => (s, [])

/-- The loops of `sm_pkg_ws_serve`: the state after some turns, and what they told. -/
def run : List Answers → Server → Server × List Event
  | [], s => (s, [])
  | a :: rest, s =>
    let result := step a s
    let (s, events) := run rest result.1
    (s, result.2 ++ events)

/-- The bytes from the socket. -/
def received (events : List Event) : Bytes :=
  events.flatMap fun
    | .received data => data
    | .yield _ => []

/-- What came out of them. -/
def yielded (events : List Event) : List Yield :=
  events.filterMap fun
    | .received _ => none
    | .yield y => some y

end ShadowMount.PkgWs
