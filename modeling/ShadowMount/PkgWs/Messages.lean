import ShadowMount.PkgWs.Frames

/-!
# Messages

The sequences of frames that a client may send, the messages that they carry, and what the loops
of the connection make of them however the bytes arrive.

A message of either kind may be cut into fragments, with control frames between them.  The server
takes no fragments of a text message, and it ends the connection at a message that it refuses;
with these exceptions, what comes out depends on the frames that have arrived and on nothing else.

Main results:

- Theorem {lit}`websocket_decoding`: these, with the facts about single frames.
- Theorem {lit}`legal_refused`: legal sequences that the server does not take to their end.
-/

namespace ShadowMount.PkgWs

open Foundation
open PkgStream (streamClients)

variable {pending : Fin streamClients → Nat} {why : Stop} {c' : Connection}

/-! ## Sequences of frames -/

/-- The message that is open between two fragments. -/
abbrev Part := Option (Kind × Bytes)

/-- What a fragment adds to a message of which something has arrived. -/
def continueMessage (kind : Kind) (got : Bytes) (f : Frame) : Part × List Yield :=
  if f.fin then (none, [.message kind (got ++ f.payload)])
  else (some (kind, got ++ f.payload), [])

/-- The open message after a frame, and what the frame completes. -/
def assemble (part : Part) (f : Frame) : Part × List Yield :=
  match f.opcode with
  | .ping => (part, [.ping f.payload])
  | .pong => (part, [.pong f.payload])
  | .close => (part, [.close f.payload])
  | .text => continueMessage .text [] f
  | .binary => continueMessage .binary [] f
  | .continuation =>
    match part with
    | none => (none, [])
    | some (kind, got) => continueMessage kind got f

def partAfter (part : Part) (fs : List Frame) : Part :=
  fs.foldl (fun part f => (assemble part f).1) part

/-- What a sequence of frames carries. -/
def yields : Part → List Frame → List Yield
  | _, [] => []
  | part, f :: fs => (assemble part f).2 ++ yields (assemble part f).1 fs

/-- May the frame come here? -/
def Follows (part : Part) (f : Frame) : Prop :=
  match f.opcode, part with
  | .continuation, none => False
  | .continuation, some (_, got) => got.length + f.payload.length ≤ messageMax
  | .text, some _ | .binary, some _ => False
  | _, _ => True

/-- A sequence of frames that a client may send. -/
def Legal : Part → List Frame → Prop
  | _, [] => True
  | part, f :: fs => f.WellFormed ∧ Follows part f ∧ Legal (assemble part f).1 fs

/-- No text message is cut into fragments. -/
def WholeTexts (fs : List Frame) : Prop := ∀ f ∈ fs, f.opcode = .text → f.fin = true

def encodeAll (fs : List Frame) : Bytes := fs.flatMap Frame.encode

/-- The frames that are complete when so many bytes have arrived. -/
def arrived : List Frame → Nat → List Frame
  | [], _ => []
  | f :: fs, n =>
    if f.encode.length ≤ n then f :: arrived fs (n - f.encode.length) else []

theorem yields_append (part : Part) (fs gs : List Frame) :
    yields part (fs ++ gs) = yields part fs ++ yields (partAfter part fs) gs := by
  induction fs generalizing part with
  | nil => rfl
  | cons f fs ih =>
    rw [List.cons_append, yields, yields, ih, List.append_assoc]
    rfl

theorem legal_append {part : Part} {fs gs : List Frame} :
    Legal part (fs ++ gs) ↔ Legal part fs ∧ Legal (partAfter part fs) gs := by
  induction fs generalizing part with
  | nil => simp [Legal, partAfter]
  | cons f fs ih =>
    rw [List.cons_append, Legal, Legal, ih, and_assoc, and_assoc]
    rfl

theorem arrived_append {fs : List Frame} {n : Nat} (h : (encodeAll fs).length ≤ n)
    (gs : List Frame) :
    arrived (fs ++ gs) n = fs ++ arrived gs (n - (encodeAll fs).length) := by
  induction fs generalizing n with
  | nil => rfl
  | cons f fs ih =>
    have hsplit : (encodeAll (f :: fs)).length = f.encode.length + (encodeAll fs).length := by
      simp [encodeAll]
    rw [hsplit] at h ⊢
    rw [List.cons_append, arrived, if_pos (by omega), ih (by omega), Nat.sub_sub]
    rfl

/-! ## One frame in the loop -/

/-- The buffers of the loop hold the open message. -/
def Assembling (c : Connection) (part : Part) : Prop :=
  match part with
  | none => c.fragmented = false ∧ c.message = []
  | some (kind, got) => kind = .binary ∧ c.fragmented = true ∧ c.message = got

/-- Why a connection on which a legal sequence of frames arrives can have ended, after some turns
and with some requests open: one of the calls of these turns answered so, or what came out last is
a close frame or a message that is refused. -/
def Justified (turns : List Answers) (pending : Fin streamClients → Nat) (why : Stop)
    (ys : List Yield) : Prop :=
  match why with
  | .oversize | .invalid | .fragment | .full => False
  | .stopped => ∃ a ∈ turns, a.running = false
  | .canceled => ∃ a ∈ turns, ∃ client, a.claim client = .canceled
  | .request => ∃ a ∈ turns, ∃ client, a.claim client = .failed
  | .send => ∃ a ∈ turns, a.sent = false ∨ ∃ client, a.rangeSent client = false
  | .memory => ∃ a ∈ turns, a.memory = false
  | .receive => ∃ a ∈ turns, a.polled = .failed ∨ a.polled = .hangup ∨
      a.polled = .readable .failed ∨ a.polled = .readable (.bytes [])
  | .closed => ∃ p, ys.getLast? = some (.close p)
  | .text => ∃ p, p ≠ windowRequest ∧ ys.getLast? = some (.message .text p)
  | .short => ∃ p, p.length < 8 ∧ ys.getLast? = some (.message .binary p)
  | .unknown => ∃ p, 8 ≤ p.length ∧ ys.getLast? = some (.message .binary p) ∧
      (ofLittleEndian (p.take 8) = 0 ∨ ∀ slot, pending slot ≠ ofLittleEndian (p.take 8))
  | .replied e => ∃ p, 8 ≤ p.length ∧ ys.getLast? = some (.message .binary p) ∧
      ∃ a ∈ turns, a.reply = some e

theorem Justified.append {turns : List Answers} {ys : List Yield}
    (h : Justified turns pending why ys) (earlier : List Answers) (before : List Yield) :
    Justified (earlier ++ turns) pending why (before ++ ys) := by
  have hlast : ∀ {y : Yield}, ys.getLast? = some y → (before ++ ys).getLast? = some y := by
    intro y hy
    rw [List.getLast?_append, hy]
    rfl
  have hturn : ∀ {P : Answers → Prop}, (∃ a ∈ turns, P a) → ∃ a ∈ earlier ++ turns, P a :=
    fun ⟨a, ha, hP⟩ => ⟨a, List.mem_append_right _ ha, hP⟩
  cases why <;> simp only [Justified] at h ⊢
  case closed =>
    obtain ⟨p, hp⟩ := h
    exact ⟨p, hlast hp⟩
  case text | short =>
    obtain ⟨p, hp, hy⟩ := h
    exact ⟨p, hp, hlast hy⟩
  case unknown =>
    obtain ⟨p, hp, hy, hid⟩ := h
    exact ⟨p, hp, hlast hy, hid⟩
  case replied =>
    obtain ⟨p, hp, hy, hreply⟩ := h
    exact ⟨p, hp, hlast hy, hturn hreply⟩
  all_goals exact hturn h

theorem Justified.later {turns : List Answers} {ys : List Yield}
    (h : Justified turns pending why ys) (more : List Answers) :
    Justified (turns ++ more) pending why ys := by
  have hturn : ∀ {P : Answers → Prop}, (∃ a ∈ turns, P a) → ∃ a ∈ turns ++ more, P a :=
    fun ⟨a, ha, hP⟩ => ⟨a, List.mem_append_left _ ha, hP⟩
  cases why <;> simp only [Justified] at h ⊢
  case closed | text | short | unknown => exact h
  case replied =>
    obtain ⟨p, hp, hy, hreply⟩ := h
    exact ⟨p, hp, hy, hturn hreply⟩
  all_goals exact hturn h

variable {a : Answers} {c : Connection} {part : Part} {f : Frame}

theorem deliver_cases (a : Answers) (c : Connection) (complete : Bytes) :
    (∃ c', deliver a c complete = .ok c' ∧ c'.input = c.input ∧ c'.message = [] ∧
        c'.fragmented = c.fragmented) ∨
      ∃ why, deliver a c complete = .error why ∧
        Justified [a] c.pending why [.message .binary complete] := by
  unfold deliver
  dsimp only
  split
  · rename_i hshort
    exact .inr ⟨_, rfl, complete, hshort, rfl⟩
  · rename_i hlong
    have hlong := Nat.le_of_not_lt hlong
    split
    · rename_i hnone
      refine .inr ⟨_, rfl, complete, hlong, rfl, .inr fun slot => ?_⟩
      simpa using List.find?_eq_none.mp hnone slot (List.mem_finRange slot)
    · split
      · rename_i hzero
        exact .inr ⟨_, rfl, complete, hlong, rfl, .inl hzero⟩
      · split
        · rename_i e hreply
          exact .inr ⟨_, rfl, complete, hlong, rfl, a, List.mem_singleton_self a, hreply⟩
        · split
          · exact .inl ⟨_, rfl, rfl, rfl, rfl⟩
          · rename_i hsent
            exact .inr ⟨_, rfl, a, List.mem_singleton_self a,
              .inl (Bool.eq_false_iff.mpr hsent)⟩

/-- What the loop does with a legal frame: what the frame completes comes out, and the buffers
follow; or the loop ends for a reason. -/
structure Took (a : Answers) (c : Connection) (part : Part) (f : Frame)
    (result : List Yield × Except Stop Connection) : Prop where
  yields : result.1 <+: (assemble part f).2
  ok : ∀ c', result.2 = .ok c' → result.1 = (assemble part f).2 ∧ c'.input = c.input ∧
    Assembling c' (assemble part f).1
  error : ∀ why, result.2 = .error why → Justified [a] c.pending why result.1

theorem Took.ofOk {ys : List Yield} (hys : ys = (assemble part f).2) (hinput : c'.input = c.input)
    (hbuffers : Assembling c' (assemble part f).1) : Took a c part f (ys, .ok c') where
  yields := by
    simp only [hys, List.prefix_rfl]
  ok := by
    intro c'' h
    cases h
    exact ⟨hys, hinput, hbuffers⟩
  error := fun why h => nomatch h

theorem Took.ofError {ys : List Yield} (hys : ys <+: (assemble part f).2)
    (hwhy : Justified [a] c.pending why ys) : Took a c part f (ys, .error why) where
  yields := hys
  ok := fun c' h => nomatch h
  error := by
    intro why' h
    cases h
    exact hwhy

theorem took_deliver {complete : Bytes} {c₀ : Connection} (hinput : c.input = c₀.input)
    (hpending : c.pending = c₀.pending) (hfragmented : c.fragmented = false)
    (h : assemble part f = (none, [.message .binary complete])) :
    Took a c₀ part f ([.message .binary complete], deliver a c complete) := by
  rcases deliver_cases a c complete with ⟨c', hok, hinput', hmessage, hflag⟩ | ⟨why, herror, hwhy⟩
  · rw [hok]
    refine Took.ofOk (by rw [h]) (hinput'.trans hinput) ?_
    rw [h]
    exact ⟨hflag.trans hfragmented, hmessage⟩
  · rw [herror]
    exact Took.ofError (by simp only [h, List.prefix_rfl]) (hpending ▸ hwhy)

theorem took_fragment (hc : Assembling c part) (hlimit : f.payload.length ≤ messageMax)
    (hopcode : f.opcode = .binary ∨ f.opcode = .continuation) (hfollows : Follows part f) :
    Took a c part f (takeFragment a c f.opcode.code f.fin f.payload) := by
  have hplace : (decide (f.opcode.code = 2) && c.fragmented ||
      decide (f.opcode.code = 0) && !c.fragmented ||
      decide (messageMax - c.message.length < f.payload.length)) = false := by
    rcases hopcode with hop | hop <;> cases part <;>
      simp_all [Follows, Assembling, Opcode.code]
    omega
  -- Both kinds of frames add to what is in the buffer.
  have hassemble : assemble part f = continueMessage .binary c.message f := by
    unfold assemble
    rcases hopcode with hop | hop
    · rw [hop]
      cases part with
      | none =>
        rw [hc.2]
      | some open_ =>
        simp [Follows, hop] at hfollows
    · rw [hop]
      cases part with
      | none =>
        simp [Follows, hop] at hfollows
      | some open_ =>
        obtain ⟨kind, got⟩ := open_
        obtain ⟨rfl, -, rfl⟩ := hc
        rfl
  unfold takeFragment
  rw [hplace, if_neg (by decide)]
  split
  · split
    · rename_i hmemory
      rw [Bool.and_eq_true, Bool.not_eq_true', Bool.not_eq_true'] at hmemory
      exact Took.ofError List.nil_prefix ⟨a, List.mem_singleton_self a, hmemory.2⟩
    · dsimp only
      cases hfin : f.fin with
      | true =>
        rw [if_pos rfl]
        refine took_deliver rfl rfl rfl ?_
        rw [hassemble, continueMessage, if_pos hfin]
      | false =>
        rw [if_neg (by decide)]
        rw [continueMessage, if_neg (by rw [hfin]; decide)] at hassemble
        refine Took.ofOk (by rw [hassemble]) rfl ?_
        rw [hassemble]
        exact ⟨rfl, rfl, rfl⟩
  · rename_i hwhole
    simp only [Bool.or_eq_true, Bool.not_eq_true', not_or, Bool.not_eq_true,
      Bool.not_eq_false] at hwhole
    have hempty : c.message = [] := by
      cases part with
      | none => exact hc.2
      | some open_ =>
        rw [Assembling, hwhole.1] at hc
        exact absurd hc.2.1 (by decide)
    refine took_deliver rfl rfl hwhole.1 ?_
    rw [hassemble, continueMessage, if_pos hwhole.2, hempty]
    rfl

/-- A frame that is legal here is taken. -/
theorem took_frame (hc : Assembling c part) (hwell : f.WellFormed) (hfollows : Follows part f)
    (htext : f.opcode = .text → f.fin = true) :
    Took a c part f (takeFrame a c f.opcode.code f.fin f.payload) := by
  cases hop : f.opcode with
  | binary =>
    have hfragment := @took_fragment a c part f hc hwell.limit (.inl hop) hfollows
    rwa [hop] at hfragment
  | continuation =>
    have hfragment := @took_fragment a c part f hc hwell.limit (.inr hop) hfollows
    rwa [hop] at hfragment
  | close =>
    have hassemble : assemble part f = (part, [.close f.payload]) := by
      unfold assemble
      rw [hop]
    exact Took.ofError (by simp only [hassemble, List.prefix_rfl]) ⟨_, rfl⟩
  | ping =>
    have hassemble : assemble part f = (part, [.ping f.payload]) := by
      unfold assemble
      rw [hop]
    unfold takeFrame Opcode.code
    rw [if_neg (by decide), if_pos rfl]
    split
    · exact Took.ofOk (by rw [hassemble]) rfl (by rw [hassemble]; exact hc)
    · rename_i hsent
      exact Took.ofError (by simp only [hassemble, List.prefix_rfl])
        ⟨a, List.mem_singleton_self a, .inl (Bool.eq_false_iff.mpr hsent)⟩
  | pong =>
    have hassemble : assemble part f = (part, [.pong f.payload]) := by
      unfold assemble
      rw [hop]
    exact Took.ofOk (by rw [hassemble]) rfl (by rw [hassemble]; exact hc)
  | text =>
    have hfin := htext hop
    have hassemble : assemble part f = (none, [.message .text f.payload]) := by
      unfold assemble
      rw [hop]
      dsimp only
      rw [continueMessage, if_pos hfin]
      rfl
    have hnone : part = none := by
      cases part with
      | none => rfl
      | some open_ =>
        simp [Follows, hop] at hfollows
    subst hnone
    unfold takeFrame Opcode.code
    rw [if_neg (by decide), if_neg (by decide), if_pos rfl, hfin, hc.1, if_neg (by decide)]
    split
    · rename_i hother
      exact Took.ofError (by simp only [hassemble, List.prefix_rfl]) ⟨_, hother, rfl⟩
    · exact Took.ofOk (by rw [hassemble]) rfl (by rw [hassemble]; exact ⟨rfl, hc.2⟩)

/-! ## Steps -/

theorem claimRange_same {client : Fin streamClients} (h : claimRange a c client = .ok c') :
    c'.input = c.input ∧ c'.message = c.message ∧ c'.fragmented = c.fragmented ∧
      c'.refill = c.refill := by
  unfold claimRange at h
  split at h
  · cases h
    exact ⟨rfl, rfl, rfl, rfl⟩
  · split at h
    · cases h
    · cases h
      exact ⟨rfl, rfl, rfl, rfl⟩
    · cases h
    · split at h
      · cases h
        exact ⟨rfl, rfl, rfl, rfl⟩
      · cases h

theorem claimRange_error {client : Fin streamClients} (h : claimRange a c client = .error why) :
    Justified [a] pending why [] := by
  unfold claimRange at h
  split at h
  · cases h
  · split at h
    · rename_i hclaim
      cases h
      exact ⟨a, List.mem_singleton_self a, client, hclaim⟩
    · cases h
    · rename_i hclaim
      cases h
      exact ⟨a, List.mem_singleton_self a, client, hclaim⟩
    · split at h
      · cases h
      · rename_i hsent
        cases h
        exact ⟨a, List.mem_singleton_self a, .inr ⟨client, Bool.eq_false_iff.mpr hsent⟩⟩

/-- The requests leave the buffers alone. -/
theorem claimRanges_cases (a : Answers) (c : Connection) (pending : Fin streamClients → Nat) :
    (∃ c', claimRanges a c = .ok c' ∧ c'.input = c.input ∧ c'.message = c.message ∧
        c'.fragmented = c.fragmented ∧ c'.refill = c.refill) ∨
      ∃ why, claimRanges a c = .error why ∧ Justified [a] pending why [] := by
  unfold claimRanges
  generalize (List.finRange streamClients).filter (fun i => decide (i.val < c.window)) = clients
  induction clients generalizing c with
  | nil => exact .inl ⟨c, rfl, rfl, rfl, rfl, rfl⟩
  | cons client clients ih =>
    rw [List.foldlM_cons]
    cases hclaim : claimRange a c client with
    | error why => exact .inr ⟨why, rfl, claimRange_error hclaim⟩
    | ok c₁ =>
      obtain ⟨hinput, hmessage, hflag, hrefill⟩ := claimRange_same hclaim
      rcases ih c₁ with ⟨c', hok, hinput', hmessage', hflag', hrefill'⟩ | ⟨why, herror, hwhy⟩
      · exact .inl ⟨c', hok, hinput'.trans hinput, hmessage'.trans hmessage,
          hflag'.trans hflag, hrefill'.trans hrefill⟩
      · exact .inr ⟨why, herror, hwhy⟩

theorem Assembling.congr (h : Assembling c part) (hmessage : c'.message = c.message)
    (hflag : c'.fragmented = c.fragmented) : Assembling c' part := by
  cases part with
  | none => exact ⟨hflag.trans h.1, hmessage.trans h.2⟩
  | some open_ => exact ⟨h.1, hflag.trans h.2.1, hmessage.trans h.2.2⟩

/-- The connection while it runs: some frames were taken from the bytes that arrived, and what
they carry came out. -/
def Running (fs : List Frame) (c : Connection) (got : Bytes) (ys : List Yield) : Prop :=
  ∃ taken rest, fs = taken ++ rest ∧ got = encodeAll taken ++ c.input ∧ ys = yields none taken ∧
    Assembling c (partAfter none taken)

/-- What holds between two turns. -/
def Sound (fs : List Frame) (turns : List Answers) (s : Server) (got : Bytes) (ys : List Yield) :
    Prop :=
  match s.phase with
  | .done why =>
    ys <+: yields none (arrived fs got.length) ∧ Justified turns s.connection.pending why ys
  | .wait => Running fs s.connection got ys ∧ (decode s.connection.input).1 = .incomplete
  | .top | .frames => Running fs s.connection got ys

variable {fs : List Frame} {turns : List Answers} {got : Bytes} {ys : List Yield} {s : Server}

theorem Running.congr (h : Running fs c got ys) (hinput : c'.input = c.input)
    (hmessage : c'.message = c.message) (hflag : c'.fragmented = c.fragmented) :
    Running fs c' got ys := by
  obtain ⟨taken, rest, hfs, hgot, hys, hbuffers⟩ := h
  exact ⟨taken, rest, hfs, by rwa [hinput], hys, hbuffers.congr hmessage hflag⟩

theorem Running.isPrefix (h : Running fs c got ys) :
    ys <+: yields none (arrived fs got.length) := by
  obtain ⟨taken, rest, rfl, rfl, rfl, -⟩ := h
  rw [arrived_append (by simp), yields_append]
  exact List.prefix_append _ _

theorem Running.ends (h : Running fs c got ys) (hwhy : Justified [a] c.pending why [])
    (turns : List Answers) : Sound fs (turns ++ [a]) ⟨c, .done why⟩ got ys := by
  have hlast := hwhy.append turns ys
  rw [List.append_nil] at hlast
  exact ⟨h.isPrefix, hlast⟩

/-- What the buffer holds while a legal sequence arrives: the start of a frame only, or a frame
with bytes behind it. -/
theorem input_cases {taken rest : List Frame} {input : Bytes} (hlegal : Legal none (taken ++ rest))
    (harrived : encodeAll taken ++ input <+: encodeAll (taken ++ rest)) :
    (decode input = (.incomplete, input) ∧ arrived rest input.length = []) ∨
      ∃ f rest' more, rest = f :: rest' ∧ f.WellFormed ∧ Follows (partAfter none taken) f ∧
        input = f.encode ++ more := by
  obtain ⟨-, hrest⟩ := legal_append.mp hlegal
  have hinput : input <+: encodeAll rest := by
    unfold encodeAll at harrived ⊢
    rw [List.flatMap_append] at harrived
    exact List.prefix_append_right_inj _ |>.mp harrived
  cases rest with
  | nil =>
    rw [List.prefix_nil.mp hinput]
    exact .inl ⟨rfl, rfl⟩
  | cons f rest =>
    obtain ⟨hwell, hfollows, -⟩ := hrest
    have hencode : f.encode <+: encodeAll (f :: rest) := List.prefix_append _ _
    by_cases hcut : input.length < f.encode.length
    · have hpart := List.prefix_of_prefix_length_le hinput hencode (Nat.le_of_lt hcut)
      refine .inl ⟨decode_cut hwell hpart hcut, ?_⟩
      rw [arrived, if_neg (by omega)]
    · obtain ⟨more, hmore⟩ := List.prefix_of_prefix_length_le hencode hinput (by omega)
      exact .inr ⟨f, rest, more, rfl, hwell, hfollows, hmore.symm⟩

theorem encodeAll_append (fs gs : List Frame) :
    encodeAll (fs ++ gs) = encodeAll fs ++ encodeAll gs := List.flatMap_append

/-- One turn of the inner loop. -/
theorem sound_stepFrames (hlegal : Legal none fs) (htexts : WholeTexts fs)
    (harrived : got <+: encodeAll fs) (h : Running fs c got ys) :
    received (stepFrames a c).2 = [] ∧
      Sound fs (turns ++ [a]) (stepFrames a c).1 got (ys ++ yielded (stepFrames a c).2) := by
  obtain ⟨taken, rest, rfl, rfl, rfl, hbuffers⟩ := h
  rcases input_cases hlegal harrived with ⟨hcut, -⟩ | ⟨f, rest, more, rfl, hwell, hfollows, hinput⟩
  · have hrunning : Running (taken ++ rest) c (encodeAll taken ++ c.input) (yields none taken) :=
      ⟨taken, rest, rfl, rfl, rfl, hbuffers⟩
    unfold stepFrames
    rw [hcut]
    dsimp only
    refine ⟨rfl, ?_⟩
    rw [show yielded [] = [] from rfl, List.append_nil]
    split
    · exact hrunning
    · exact ⟨hrunning, by rw [hcut]⟩
  · have hdecode := decode_encode hwell more
    have hlength := length_encode hwell
    -- The decoder finds the frame, its payload and the bytes behind it.
    have hpayload : ((f.header ++ f.mask ++ f.payload ++ more).drop
        (f.header.length + 4)).take f.payload.length = f.payload := by
      rw [List.append_assoc, List.drop_left' (by rw [List.length_append, hwell.mask])]
      exact List.take_left' rfl
    have hbehind : (f.header ++ f.mask ++ f.payload ++ more).drop f.encode.length = more := by
      refine List.drop_left' ?_
      rw [hlength, List.length_append, List.length_append, hwell.mask]
    have htook := @took_frame a { c with input := more } _ f
      (hbuffers.congr rfl rfl) hwell hfollows (htexts f (by simp))
    have hyields : yields none taken ++ (assemble (partAfter none taken) f).2 =
        yields none (taken ++ [f]) := by
      rw [yields_append, yields, yields, List.append_nil]
    have hsplit : encodeAll (taken ++ [f]) = encodeAll taken ++ f.encode := by
      rw [encodeAll_append]
      simp [encodeAll]
    unfold stepFrames
    rw [hinput, hdecode]
    dsimp only
    rw [hpayload, hbehind]
    revert htook
    generalize takeFrame a { c with input := more } f.opcode.code f.fin f.payload = result
    intro htook
    have hevents : received (result.1.map .yield) = [] ∧
        yielded (result.1.map .yield) = result.1 := by
      constructor
      · simp [received, List.flatMap_map]
      · simp [yielded, List.filterMap_map]
    obtain ⟨out, outcome⟩ := result
    rw [hevents.2]
    refine ⟨hevents.1, ?_⟩
    cases outcome with
    | ok c' =>
      obtain ⟨hout, hinput', hbuffers'⟩ := htook.ok c' rfl
      refine ⟨taken ++ [f], rest, by simp, ?_, ?_, ?_⟩
      · have hrest : (Server.next c .frames (.ok c')).connection.input = more := hinput'
        rw [hsplit, hrest, List.append_assoc]
      · rw [hout]
        exact hyields
      · rw [partAfter, List.foldl_append]
        exact hbuffers'
    | error why =>
      refine ⟨?_, (htook.error why rfl).append turns _⟩
      have hfits : (encodeAll (taken ++ [f])).length ≤
          (encodeAll taken ++ (f.encode ++ more)).length := by
        rw [hsplit]
        simp
      have hall : taken ++ f :: rest = (taken ++ [f]) ++ rest := by simp
      rw [hall, arrived_append hfits, yields_append, ← hyields, List.append_assoc]
      exact List.prefix_append_right_inj _ |>.mpr
        (htook.yields.trans (List.prefix_append _ _))

theorem sound_stepWait (h : Running fs c got ys) (hcut : (decode c.input).1 = .incomplete) :
    yielded (stepWait a c).2 = [] ∧
      Sound fs (turns ++ [a]) (stepWait a c).1 (got ++ received (stepWait a c).2) ys := by
  have hroom := length_lt_capacity hcut
  have hquiet : got ++ received [] = got := List.append_nil got
  have hends : ∀ why : Stop, Justified [a] c.pending why [] →
      Sound fs (turns ++ [a]) ⟨c, .done why⟩ (got ++ received []) ys := by
    intro why hwhy
    rw [hquiet]
    exact h.ends hwhy turns
  unfold stepWait
  split
  · exact ⟨rfl, by rw [hquiet]; exact h⟩
  · split
    · exact ⟨rfl, by rw [hquiet]; exact h⟩
    · exact ⟨rfl, by rw [hquiet]; exact h⟩
    · rename_i hpolled
      exact ⟨rfl, hends .receive ⟨a, List.mem_singleton_self a, .inl hpolled⟩⟩
    · rename_i hpolled
      exact ⟨rfl, hends .receive ⟨a, List.mem_singleton_self a, .inr (.inl hpolled)⟩⟩
    · rename_i hpolled
      split
      · rename_i hfull
        exact absurd hfull (Nat.ne_of_lt hroom)
      · split
        · exact ⟨rfl, by rw [hquiet]; exact h⟩
        · exact ⟨rfl, hends .receive ⟨a, List.mem_singleton_self a,
            .inr (.inr (.inl hpolled))⟩⟩
        · rename_i data
          dsimp only
          split
          · rename_i hnothing
            have hend : data = [] := by
              rcases List.take_eq_nil_iff.mp hnothing with hzero | hnil
              · omega
              · exact hnil
            subst hend
            exact ⟨rfl, hends .receive ⟨a, List.mem_singleton_self a,
              .inr (.inr (.inr hpolled))⟩⟩
          · refine ⟨rfl, ?_⟩
            obtain ⟨taken, rest, hfs, hgot, hys, hbuffers⟩ := h
            refine ⟨taken, rest, hfs, ?_, hys, hbuffers⟩
            rw [hgot]
            simp [received]

/-- One turn keeps what holds between turns. -/
theorem Sound.step (hlegal : Legal none fs) (htexts : WholeTexts fs)
    (h : Sound fs turns s got ys) (a : Answers)
    (harrived : got ++ received (step a s).2 <+: encodeAll fs) :
    Sound fs (turns ++ [a]) (step a s).1 (got ++ received (step a s).2)
      (ys ++ yielded (step a s).2) := by
  have hgot : got <+: encodeAll fs := (List.prefix_append _ _).trans harrived
  obtain ⟨c, phase⟩ := s
  cases phase with
  | done why =>
    have hsame : PkgWs.step a ⟨c, .done why⟩ = (⟨c, .done why⟩, []) := rfl
    rw [hsame, show received [] = [] from rfl, show yielded [] = [] from rfl, List.append_nil,
      List.append_nil]
    exact ⟨h.1, h.2.later [a]⟩
  | frames =>
    obtain ⟨hquiet, hsound⟩ := @sound_stepFrames a c fs turns got ys hlegal htexts hgot h
    have hstep : PkgWs.step a ⟨c, .frames⟩ = stepFrames a c := rfl
    rw [hstep, hquiet, List.append_nil]
    exact hsound
  | wait =>
    obtain ⟨hquiet, hsound⟩ := @sound_stepWait a c fs turns got ys h.1 h.2
    have hstep : PkgWs.step a ⟨c, .wait⟩ = stepWait a c := rfl
    rw [hstep, hquiet, List.append_nil]
    exact hsound
  | top =>
    have hrunning : Running fs c got ys := h
    have hstep : (PkgWs.step a ⟨c, .top⟩).2 = [] := by
      unfold PkgWs.step
      dsimp only
      split <;> rfl
    rw [hstep]
    rw [show received [] = [] from rfl, show yielded [] = [] from rfl, List.append_nil,
      List.append_nil]
    unfold PkgWs.step
    dsimp only
    split
    · rename_i hstopped
      have hwhy : Justified [a] c.pending .stopped [] :=
        ⟨a, List.mem_singleton_self a, by simpa using hstopped⟩
      exact hrunning.ends hwhy turns
    · rcases claimRanges_cases a { c with refill := false } c.pending with
        ⟨c', hok, hinput, hmessage, hflag, -⟩ | ⟨why, herror, hwhy⟩
      · rw [hok]
        exact hrunning.congr hinput hmessage hflag
      · have hsame : Running fs { c with refill := false } got ys := hrunning.congr rfl rfl rfl
        rw [herror]
        exact hsame.ends hwhy turns

/-! ## Runs -/

@[simp]
theorem received_append (es es' : List Event) :
    received (es ++ es') = received es ++ received es' := List.flatMap_append

@[simp]
theorem yielded_append (es es' : List Event) :
    yielded (es ++ es') = yielded es ++ yielded es' := List.filterMap_append

theorem Sound.run (hlegal : Legal none fs) (htexts : WholeTexts fs) {answers : List Answers}
    (h : Sound fs turns s got ys)
    (harrived : got ++ received (run answers s).2 <+: encodeAll fs) :
    Sound fs (turns ++ answers) (run answers s).1 (got ++ received (run answers s).2)
      (ys ++ yielded (run answers s).2) := by
  induction answers generalizing s turns got ys with
  | nil => simpa [PkgWs.run, received, yielded] using h
  | cons a answers ih =>
    have hsplit : PkgWs.run (a :: answers) s =
        ((PkgWs.run answers (PkgWs.step a s).1).1,
          (PkgWs.step a s).2 ++ (PkgWs.run answers (PkgWs.step a s).1).2) := rfl
    rw [hsplit] at harrived ⊢
    rw [received_append, ← List.append_assoc] at harrived
    rw [received_append, yielded_append, ← List.append_assoc, ← List.append_assoc]
    have hfirst : got ++ received (PkgWs.step a s).2 <+: encodeAll fs :=
      (List.prefix_append _ _).trans harrived
    rw [show turns ++ a :: answers = (turns ++ [a]) ++ answers by simp]
    exact ih (h.step hlegal htexts a hfirst) harrived

theorem Sound.start {initial : Bytes} (hroom : initial.length ≤ capacity) :
    Sound fs [] (Server.start initial) initial [] := by
  unfold Server.start
  rw [if_neg (Nat.not_lt_of_le hroom)]
  exact ⟨[], fs, rfl, rfl, rfl, rfl, rfl⟩

theorem run_append (answers more : List Answers) (s : Server) :
    run (answers ++ more) s = ((run more (run answers s).1).1,
      (run answers s).2 ++ (run more (run answers s).1).2) := by
  induction answers generalizing s with
  | nil => rfl
  | cons a answers ih =>
    have hsplit : ∀ later, run (a :: later) s =
        ((run later (step a s).1).1, (step a s).2 ++ (run later (step a s).1).2) := fun _ => rfl
    rw [List.cons_append, hsplit, hsplit, ih, List.append_assoc]

/-! ## The end of the inner loop -/

/-- A frame is taken or stops the connection. -/
theorem takeFrame_cases (a : Answers) (c : Connection) (opcode : Nat) (fin : Bool)
    (payload : Bytes) :
    (∃ c', (takeFrame a c opcode fin payload).2 = .ok c' ∧ c'.input = c.input) ∨
      ∃ why, (takeFrame a c opcode fin payload).2 = .error why ∧ why ≠ .full := by
  have hdeliver : ∀ (c₁ : Connection) (complete : Bytes), c₁.input = c.input →
      (∃ c', deliver a c₁ complete = .ok c' ∧ c'.input = c.input) ∨
        ∃ why, deliver a c₁ complete = .error why ∧ why ≠ .full := by
    intro c₁ complete hsame
    rcases deliver_cases a c₁ complete with ⟨c', hok, hinput, -⟩ | ⟨why, herror, hwhy⟩
    · exact .inl ⟨c', hok, hinput.trans hsame⟩
    · refine .inr ⟨why, herror, ?_⟩
      rintro rfl
      exact hwhy
  have herror : ∀ why : Stop, why ≠ .full →
      (∃ c', (Except.error why : Except Stop Connection) = .ok c' ∧ c'.input = c.input) ∨
        ∃ why', (Except.error why : Except Stop Connection) = .error why' ∧ why' ≠ .full :=
    fun why hwhy => .inr ⟨why, rfl, hwhy⟩
  have hok : ∀ c₁ : Connection, c₁.input = c.input →
      (∃ c', (Except.ok c₁ : Except Stop Connection) = .ok c' ∧ c'.input = c.input) ∨
        ∃ why', (Except.ok c₁ : Except Stop Connection) = .error why' ∧ why' ≠ .full :=
    fun c₁ hsame => .inl ⟨c₁, rfl, hsame⟩
  unfold takeFrame
  split
  · exact herror _ (by decide)
  · split
    · dsimp only
      split
      · exact hok _ rfl
      · exact herror _ (by decide)
    · split
      · split
        · exact herror _ (by decide)
        · split
          · exact herror _ (by decide)
          · exact hok _ rfl
      · split
        · exact hok _ rfl
        · unfold takeFragment
          split
          · exact herror _ (by decide)
          · split
            · split
              · exact herror _ (by decide)
              · dsimp only
                split
                · exact hdeliver _ _ rfl
                · exact hok _ rfl
            · exact hdeliver _ _ rfl

/-- How many turns it takes at most until the loop waits: for each byte in the buffer a frame may
be taken and new requests made, which leads through both loops again. -/
def turnsLeft (s : Server) : Nat :=
  match s.phase with
  | .wait | .done _ => 0
  | .top => 3 * s.connection.input.length + 2
  | .frames => 3 * s.connection.input.length + if s.connection.refill then 3 else 1

theorem turnsLeft_eq_zero {s : Server} (h : turnsLeft s = 0) :
    s.phase = .wait ∨ ∃ why, s.phase = .done why := by
  unfold turnsLeft at h
  split at h
  · rename_i hphase
    exact .inl hphase
  · rename_i why hphase
    exact .inr ⟨why, hphase⟩
  · omega
  · split at h <;> omega

/-- Before the loop waits, every turn brings it nearer to that, and takes nothing from the
socket. -/
theorem turnsLeft_step {s : Server} (h : 0 < turnsLeft s) (a : Answers) :
    turnsLeft (step a s).1 < turnsLeft s ∧ received (step a s).2 = [] := by
  obtain ⟨c, phase⟩ := s
  cases phase with
  | wait => exact absurd h (Nat.lt_irrefl 0)
  | done why => exact absurd h (Nat.lt_irrefl 0)
  | top =>
    unfold PkgWs.step
    dsimp only
    split
    · exact ⟨h, rfl⟩
    · refine ⟨?_, rfl⟩
      rcases claimRanges_cases a { c with refill := false } c.pending with
        ⟨c', hok, hinput, -, -, hrefill⟩ | ⟨why, herror, -⟩
      · rw [hok]
        unfold Server.next turnsLeft
        dsimp only
        rw [hinput, hrefill]
        exact Nat.lt_succ_self _
      · rw [herror]
        exact h
  | frames =>
    have hstep : PkgWs.step a ⟨c, .frames⟩ = stepFrames a c := rfl
    rw [hstep]
    unfold stepFrames
    rcases decode_cases c.input with hcase | ⟨hcase, -⟩ |
      ⟨opcode, fin, offset, length, consumed, input, hcase, hlength, hsome, hfits⟩
    · rw [hcase]
      exact ⟨h, rfl⟩
    · rw [hcase]
      refine ⟨?_, rfl⟩
      unfold turnsLeft
      dsimp only
      cases c.refill with
      | true => exact Nat.lt_succ_self _
      | false => exact Nat.succ_pos _
    · rw [hcase]
      dsimp only
      -- What is left is shorter by the frame, whatever becomes of the requests.
      refine ⟨?_, by simp [received, List.flatMap_map]⟩
      rcases takeFrame_cases a { c with input := input.drop consumed } opcode fin
        ((input.drop offset).take length) with ⟨c', hok, hinput⟩ | ⟨why, hwhy, -⟩
      · rw [hok]
        have hleft : c'.input.length = c.input.length - consumed := by
          rw [hinput, List.length_drop, hlength]
        unfold Server.next turnsLeft
        dsimp only
        rw [hleft]
        split <;> split <;> omega
      · rw [hwhy]
        exact h

/-- The frames in the buffer are taken before anything is waited for: whatever the calls answer,
after some turns in which nothing is taken from the socket the loop waits, or it has ended. -/
theorem run_drains (s : Server) {more : List Answers} (hmore : turnsLeft s ≤ more.length) :
    ∃ k ≤ more.length, received (run (more.take k) s).2 = [] ∧
      ((run (more.take k) s).1.phase = .wait ∨
        ∃ why, (run (more.take k) s).1.phase = .done why) := by
  induction more generalizing s with
  | nil => exact ⟨0, le_rfl, rfl, turnsLeft_eq_zero (Nat.le_zero.mp hmore)⟩
  | cons a more ih =>
    by_cases hzero : turnsLeft s = 0
    · exact ⟨0, Nat.zero_le _, rfl, turnsLeft_eq_zero hzero⟩
    · obtain ⟨hless, hquiet⟩ := turnsLeft_step (Nat.pos_of_ne_zero hzero) a
      rw [List.length_cons] at hmore
      obtain ⟨k, hk, hnothing, hphase⟩ := ih (step a s).1 (by omega)
      refine ⟨k + 1, Nat.succ_le_succ hk, ?_, hphase⟩
      have hsplit : (run ((a :: more).take (k + 1)) s).2 =
          (step a s).2 ++ (run (more.take k) (step a s).1).2 := rfl
      rw [hsplit, received_append, hquiet, hnothing]
      rfl

/-! ## What comes out -/

/-- What comes out of a legal sequence of frames without fragments of texts, however its bytes
arrive and whatever the surroundings do: nothing but what the frames that have arrived carry, all
of it when the loop waits, and the loop ends only because of the surroundings, or at a close frame
or a message that is refused. -/
theorem serve_yields {initial : Bytes} {answers : List Answers} (hlegal : Legal none fs)
    (htexts : WholeTexts fs) (hroom : initial.length ≤ capacity)
    (harrived : initial ++ received (run answers (.start initial)).2 <+: encodeAll fs) :
    let s := (run answers (.start initial)).1
    let ys := yielded (run answers (.start initial)).2
    let here := arrived fs (initial ++ received (run answers (.start initial)).2).length
    ys <+: yields none here ∧ (s.phase = .wait → ys = yields none here) ∧
      ∀ why, s.phase = .done why → Justified answers s.connection.pending why ys := by
  have hsound := (@Sound.start fs initial hroom).run hlegal htexts harrived
  rw [List.nil_append] at hsound
  dsimp only
  revert hsound harrived
  generalize initial ++ received (run answers (.start initial)).2 = got
  generalize yielded (run answers (.start initial)).2 = ys
  generalize (run answers (.start initial)).1 = s
  intro harrived hsound
  obtain ⟨c, phase⟩ := s
  cases phase with
  | done why =>
    refine ⟨hsound.1, nofun, fun why' h => ?_⟩
    cases h
    exact hsound.2
  | wait =>
    refine ⟨hsound.1.isPrefix, fun _ => ?_, nofun⟩
    obtain ⟨⟨taken, rest, rfl, rfl, rfl, -⟩, hcut⟩ := hsound
    rcases input_cases hlegal harrived with ⟨-, hnone⟩ | ⟨f, rest', more, rfl, hwell, -, hinput⟩
    · have hlength : (encodeAll taken ++ c.input).length - (encodeAll taken).length =
          c.input.length := by
        rw [List.length_append]
        omega
      rw [arrived_append (by simp), hlength, hnone, List.append_nil]
    · dsimp only at hcut
      rw [hinput, decode_encode hwell] at hcut
      cases hcut
  | top =>
    have hrunning : Running fs c got ys := hsound
    exact ⟨hrunning.isPrefix, nofun, nofun⟩
  | frames =>
    have hrunning : Running fs c got ys := hsound
    exact ⟨hrunning.isPrefix, nofun, nofun⟩

/-- The frames that have arrived come out without another byte: some turns later, and no matter
what the calls answer in them, the loop waits and all that they carry has come out, or it has
ended. -/
theorem serve_drains {initial : Bytes} {answers more : List Answers} (hlegal : Legal none fs)
    (htexts : WholeTexts fs) (hroom : initial.length ≤ capacity)
    (harrived : initial ++ received (run answers (.start initial)).2 <+: encodeAll fs)
    (hmore : 3 * (run answers (.start initial)).1.connection.input.length + 3 ≤ more.length) :
    ∃ k ≤ more.length,
      let later := run (answers ++ more.take k) (.start initial)
      let here := arrived fs (initial ++ received (run answers (.start initial)).2).length
      received later.2 = received (run answers (.start initial)).2 ∧
        ((later.1.phase = .wait ∧ yielded later.2 = yields none here) ∨
          ∃ why, later.1.phase = .done why ∧
            Justified (answers ++ more.take k) later.1.connection.pending why
              (yielded later.2)) := by
  have hturns : turnsLeft (run answers (.start initial)).1 ≤ more.length := by
    unfold turnsLeft
    split
    · exact Nat.zero_le _
    · exact Nat.zero_le _
    · omega
    · split <;> omega
  obtain ⟨k, hk, hquiet, hphase⟩ := run_drains _ hturns
  have hstate : (run (more.take k) (run answers (.start initial)).1).1 =
      (run (answers ++ more.take k) (.start initial)).1 := by
    rw [run_append]
  have hsame : received (run (answers ++ more.take k) (.start initial)).2 =
      received (run answers (.start initial)).2 := by
    rw [run_append, received_append, hquiet, List.append_nil]
  have hlater := @serve_yields fs initial (answers ++ more.take k) hlegal htexts hroom
    (hsame.symm ▸ harrived)
  dsimp only at hlater
  rw [hsame] at hlater
  rw [hstate] at hphase
  refine ⟨k, hk, hsame, ?_⟩
  rcases hphase with hwait | ⟨why, hdone⟩
  · exact .inl ⟨hwait, hlater.2.1 hwait⟩
  · exact .inr ⟨why, hdone, hlater.2.2 why hdone⟩

/-! ## The full buffer -/

/-- The loop waits only when there is no frame in the buffer. -/
def Drained (s : Server) : Prop :=
  s.phase ≠ .done .full ∧ (s.phase = .wait → (decode s.connection.input).1 = .incomplete)

/-- Whatever the bytes are, the buffer is not found full. -/
theorem Drained.step (h : Drained s) (a : Answers) : Drained (step a s).1 := by
  have htop : ∀ c', Drained ⟨c', .top⟩ := fun c' => ⟨nofun, nofun⟩
  have hframes : ∀ c', Drained ⟨c', .frames⟩ := fun c' => ⟨nofun, nofun⟩
  have hdone : ∀ c' why, why ≠ .full → Drained ⟨c', .done why⟩ := by
    intro c' why hwhy
    refine ⟨fun h => ?_, nofun⟩
    cases h
    exact hwhy rfl
  obtain ⟨c, phase⟩ := s
  cases phase with
  | done why => exact h
  | top =>
    unfold PkgWs.step
    dsimp only
    split
    · exact hdone _ _ (by decide)
    · rcases claimRanges_cases a { c with refill := false } c.pending with
        ⟨c', hok, -⟩ | ⟨why, hwhy, hend⟩
      · rw [hok]
        exact hframes c'
      · rw [hwhy]
        refine hdone _ _ ?_
        rintro rfl
        exact hend
  | frames =>
    unfold PkgWs.step stepFrames
    dsimp only
    split
    · exact hdone _ _ (by decide)
    · rename_i hdecode
      dsimp only
      split
      · exact htop c
      · exact ⟨nofun, fun _ => congrArg Prod.fst hdecode⟩
    · rename_i opcode fin offset length consumed input hdecode
      dsimp only
      rcases takeFrame_cases a { c with input := input.drop consumed } opcode fin
        ((input.drop offset).take length) with ⟨c', hok, -⟩ | ⟨why, hwhy, hend⟩
      · rw [hok]
        exact hframes c'
      · rw [hwhy]
        exact hdone _ _ hend
  | wait =>
    have hroom := length_lt_capacity (h.2 rfl)
    unfold PkgWs.step stepWait
    dsimp only at hroom ⊢
    split
    · exact htop c
    · split
      · exact htop c
      · exact htop c
      · exact hdone _ _ (by decide)
      · exact hdone _ _ (by decide)
      · split
        · rename_i hfull
          exact absurd hfull (Nat.ne_of_lt hroom)
        · split
          · exact htop c
          · exact hdone _ _ (by decide)
          · split
            · exact hdone _ _ (by decide)
            · exact htop _

/-- Whatever arrives, the buffer is never found full. -/
theorem run_drained (initial : Bytes) (answers : List Answers) :
    Drained (run answers (.start initial)).1 := by
  have hall : ∀ (answers : List Answers) (s : Server), Drained s → Drained (run answers s).1 := by
    intro answers
    induction answers with
    | nil => exact fun s h => h
    | cons a answers ih => exact fun s h => ih _ (h.step a)
  refine hall answers (.start initial) ?_
  unfold Server.start Drained
  dsimp only
  split
  · exact ⟨by decide, nofun⟩
  · exact ⟨by decide, nofun⟩

/-- What is offered to a loop that waits is taken, as far as there is room, and there is some. -/
theorem Drained.takes (h : Drained s) (hwait : s.phase = .wait) {a : Answers} {data : Bytes}
    (hwake : a.wake = false) (hpolled : a.polled = .readable (.bytes data)) (hdata : data ≠ []) :
    s.connection.input.length < capacity ∧
      received (PkgWs.step a s).2 = data.take (capacity - s.connection.input.length) := by
  have hroom := length_lt_capacity (h.2 hwait)
  refine ⟨hroom, ?_⟩
  have hsome : data.take (capacity - s.connection.input.length) ≠ [] := by
    intro hnothing
    rcases List.take_eq_nil_iff.mp hnothing with hzero | hnil
    · omega
    · exact hdata hnil
  unfold PkgWs.step stepWait
  rw [hwait]
  dsimp only
  rw [hwake, Bool.and_false, if_neg (by decide), hpolled]
  dsimp only
  rw [if_neg (Nat.ne_of_lt hroom), if_neg hsome]
  simp [received]

/-! ## The decoder -/

/-- What the decoder and the loops make of the frames of a client.  A frame is decoded with whatever
is behind it; of a part of one nothing is, and the buffer is left alone; a length that is not
minimal is refused.  Of a legal sequence without fragments of texts, what comes out depends only on
how many of its bytes have arrived, until the surroundings, a close frame or a message that is
refused end the connection; and it does come out, after some turns that take nothing from the
socket.  For no bytes at all is the buffer found full: a loop that waits has room, and takes what is
offered. -/
theorem websocket_decoding :
    (∀ f : Frame, f.WellFormed → ∀ rest : Bytes, decode (f.encode ++ rest) =
      (.frame f.opcode.code f.fin (f.header.length + 4) f.payload.length f.encode.length,
        f.header ++ f.mask ++ f.payload ++ rest)) ∧
    (∀ f : Frame, f.WellFormed → ∀ data : Bytes, data <+: f.encode →
      data.length < f.encode.length → decode data = (.incomplete, data)) ∧
    (∀ data : Bytes, (decode data).1 = .incomplete → (decode data).2 = data) ∧
    (∀ data : Bytes,
      (4 ≤ data.length ∧ data.getD 1 0 &&& 127 = 126 ∧
        bigEndian ((data.drop 2).take 2) < 126) ∨
      (10 ≤ data.length ∧ data.getD 1 0 &&& 127 = 127 ∧
        bigEndian ((data.drop 2).take 8) ≤ 65535) → decode data = (.invalid, data)) ∧
    (∀ (fs : List Frame) (initial : Bytes) (answers : List Answers), Legal none fs →
      WholeTexts fs → initial.length ≤ capacity →
      initial ++ received (run answers (.start initial)).2 <+: encodeAll fs →
      let s := (run answers (.start initial)).1
      let ys := yielded (run answers (.start initial)).2
      let here := arrived fs (initial ++ received (run answers (.start initial)).2).length
      ys <+: yields none here ∧ (s.phase = .wait → ys = yields none here) ∧
        (∀ why, s.phase = .done why → Justified answers s.connection.pending why ys) ∧
        ∀ more : List Answers, 3 * s.connection.input.length + 3 ≤ more.length →
          ∃ k ≤ more.length,
            let later := run (answers ++ more.take k) (.start initial)
            received later.2 = received (run answers (.start initial)).2 ∧
              ((later.1.phase = .wait ∧ yielded later.2 = yields none here) ∨
                ∃ why, later.1.phase = .done why ∧
                  Justified (answers ++ more.take k) later.1.connection.pending why
                    (yielded later.2))) ∧
    (∀ (initial : Bytes) (answers : List Answers),
      let s := (run answers (.start initial)).1
      s.phase ≠ .done .full ∧
        (s.phase = .wait → ∀ (a : Answers) (data : Bytes), a.wake = false →
          a.polled = .readable (.bytes data) → data ≠ [] →
          s.connection.input.length < capacity ∧
            received (step a s).2 = data.take (capacity - s.connection.input.length))) := by
  refine ⟨fun _ h rest => decode_encode h rest, fun _ h _ hpart hcut => decode_cut h hpart hcut,
    fun _ h => decode_snd (.inl h), fun _ h => decode_not_minimal h, ?_, ?_⟩
  · intro fs initial answers hlegal htexts hroom harrived
    obtain ⟨hpart, hall, hends⟩ := serve_yields hlegal htexts hroom harrived
    exact ⟨hpart, hall, hends, fun _ hmore => serve_drains hlegal htexts hroom harrived hmore⟩
  · intro initial answers
    have hdrained := run_drained initial answers
    exact ⟨hdrained.1, fun hwait _ _ hwake hpolled hdata =>
      hdrained.takes hwait hwake hpolled hdata⟩

/-- A frame for the examples below, with a mask. -/
def masked (fin : Bool) (opcode : Opcode) (payload : Bytes) : Frame :=
  ⟨fin, opcode, [0x37, 0xfa, 0x21, 0x3d], payload⟩

/-- Surroundings in which nothing fails and nothing happens. -/
def quietAnswers : Answers where
  running := true
  claim := fun _ => .again
  rangeSent := fun _ => true
  sent := true
  memory := true
  reply := none
  wake := false
  polled := .woken

theorem masked_wellFormed {fin : Bool} {opcode : Opcode} {payload : Bytes}
    (hlength : payload.length ≤ 125) (hcontrol : opcode.control = true → fin = true)
    (hclose : opcode ≠ .close) : (masked fin opcode payload).WellFormed := by
  have hmax : messageMax = 1048584 := rfl
  exact ⟨rfl, by unfold masked; dsimp only; omega, fun h => ⟨hcontrol h, hlength⟩,
    fun h => absurd h hclose⟩

/-- A reply in two fragments with a ping between them, cut in the mask of the first frame and in
the payload of the last: nothing of it comes out at first; then a turn takes the rest of the bytes,
and in some of the next all of it comes out, whatever the calls answer in them. -/
theorem websocket_decoding_two_fragments :
    let fs := [masked false .binary [7, 0, 0], masked true .ping [1, 2],
      masked true .continuation [0, 0, 0, 0, 0, 80, 75]]
    let asked := { quietAnswers with
      claim := fun client => if client.val = 0 then .range ⟨7, 0, 2⟩ else .again }
    let rest := { quietAnswers with polled := .readable (.bytes ((encodeAll fs).drop 5)) }
    let first := run [asked, quietAnswers] (.start ((encodeAll fs).take 5))
    let second := run [asked, quietAnswers, rest] (.start ((encodeAll fs).take 5))
    (first.1.phase = .wait ∧ yielded first.2 = []) ∧
      second.1.phase = .top ∧ yielded second.2 = [] ∧
        ∀ more : List Answers, 3 * (encodeAll fs).length + 3 ≤ more.length →
          ∃ k ≤ more.length,
            let later := run ([asked, quietAnswers, rest] ++ more.take k)
              (.start ((encodeAll fs).take 5))
            (later.1.phase = .wait ∧ yielded later.2 =
                [.ping [1, 2], .message .binary [7, 0, 0, 0, 0, 0, 0, 0, 80, 75]]) ∨
              ∃ why, later.1.phase = .done why ∧
                Justified ([asked, quietAnswers, rest] ++ more.take k) later.1.connection.pending
                  why (yielded later.2) := by
  intro fs asked rest first second
  have hlegal : Legal none fs :=
    ⟨masked_wellFormed (by decide) (by decide) (by decide), trivial,
      masked_wellFormed (by decide) (by decide) (by decide), trivial,
      masked_wellFormed (by decide) (by decide) (by decide),
      (by decide : (3 + 7 ≤ 1048584)), trivial⟩
  have htexts : WholeTexts fs := by
    unfold WholeTexts
    decide
  have hgot : received second.2 = (encodeAll fs).drop 5 := by decide +kernel
  have hbytes : (encodeAll fs).take 5 ++ received second.2 = encodeAll fs := by
    rw [hgot, List.take_append_drop]
  obtain ⟨-, -, -, -, hserved, -⟩ := websocket_decoding
  refine ⟨?_, by decide +kernel, by decide +kernel, fun more hmore => ?_⟩
  · obtain ⟨-, hwait, -⟩ := hserved fs ((encodeAll fs).take 5) [asked, quietAnswers] hlegal htexts
      (by decide +kernel) (by decide +kernel)
    have hphase : first.1.phase = .wait := by decide +kernel
    refine ⟨hphase, (hwait hphase).trans (by decide +kernel)⟩
  · obtain ⟨-, -, -, hlater⟩ := hserved fs ((encodeAll fs).take 5) [asked, quietAnswers, rest]
      hlegal htexts (by decide +kernel) (hbytes.symm ▸ List.prefix_rfl)
    have hinput : second.1.connection.input = encodeAll fs := by decide +kernel
    obtain ⟨k, hk, -, hend⟩ := hlater more (by rw [hinput]; exact hmore)
    refine ⟨k, hk, hend.imp_left fun hwait => ⟨hwait.1, hwait.2.trans ?_⟩⟩
    rw [hbytes]
    decide +kernel

/-- Legal sequences that the server does not take to their end: the request for a larger window in
two fragments, of which nothing comes out, and another text before a ping. -/
theorem legal_refused :
    let fragments := [masked false .text (windowRequest.take 9),
      masked true .continuation (windowRequest.drop 9)]
    let other := [masked true .text (asciiBytes "hello"), masked true .ping []]
    let served (fs : List Frame) :=
      run (List.replicate 5 quietAnswers) (.start (encodeAll fs))
    (Legal none fragments ∧ yields none fragments = [.message .text windowRequest] ∧
      (served fragments).1.phase = .done .fragment ∧ yielded (served fragments).2 = []) ∧
    (Legal none other ∧
      yields none other = [.message .text (asciiBytes "hello"), .ping []] ∧
      (served other).1.phase = .done .text ∧
      yielded (served other).2 = [.message .text (asciiBytes "hello")]) := by
  refine ⟨⟨?_, by decide +kernel, by decide +kernel, by decide +kernel⟩,
    ⟨?_, by decide +kernel, by decide +kernel, by decide +kernel⟩⟩
  · exact ⟨masked_wellFormed (by decide) (by decide) (by decide), trivial,
      masked_wellFormed (by decide) (by decide) (by decide),
      (by decide : ((windowRequest.take 9).length + (windowRequest.drop 9).length ≤ 1048584)),
      trivial⟩
  · exact ⟨masked_wellFormed (by decide) (by decide) (by decide), trivial,
      masked_wellFormed (by decide) (by decide) (by decide), trivial, trivial⟩

end ShadowMount.PkgWs
