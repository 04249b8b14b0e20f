/-
  Length-prefixed frames over a byte stream.

  * `framing_spec`: a reader whose limit holds a prefix returns exactly the payloads that were
    written, however their bytes arrive and whenever it polls.

  `Link` says where the bytes of one direction are: behind `unread` stand the buffer of the
  reader and the chunks of its inbox, in this order. `nextFrame` is the same reader over the
  bytes alone, and `readLengthPrefixed` refines it. Sums of two buffer lengths stay below
  `usize::MAX`.
-/
import Mathlib.Data.Finset.Basic
import Terlan.Lib.Bytes
import Terlan.Lib.Method
import Terlan.Tcp.Runtime

namespace Terlan.Tcp

open Terlan.Lib Terlan.TermFormat VmTcpRuntime List

/-! ## Errors -/

inductive VmFramingError where
  | framingEof
  | framingOverflow
  | invalidFrame
  | backpressureExceeded
  | closed
  | cancelled
deriving DecidableEq

/-- `map_tcp_error`. -/
def classifyTcpError (error : String) : VmFramingError :=
  if error ∈ ["VM TCP stream is cancelled", "VM TCP peer stream is cancelled"] then .cancelled
  else if error ∈ ["VM TCP stream is closed", "VM TCP peer stream is closed"] then .closed
  else if error = "VM TCP peer inbox is full" then .backpressureExceeded
  else .invalidFrame

/-! ## The reader -/

structure VmInMemoryFrameReader where
  stream : VmTcpStream
  buffer : Bytes
  bufferLimit : Nat

namespace VmInMemoryFrameReader

def new (stream : VmTcpStream) (bufferLimit : Nat) : Except VmFramingError VmInMemoryFrameReader :=
  if bufferLimit = 0 then .error .invalidFrame else .ok ⟨stream, [], bufferLimit⟩

def remainingCapacity (reader : VmInMemoryFrameReader) : Nat :=
  max (reader.bufferLimit - reader.buffer.length) 1

def pushBytes (reader : VmInMemoryFrameReader) (bytes : Bytes) :
    Except VmFramingError VmInMemoryFrameReader :=
  if reader.buffer.length + bytes.length > reader.bufferLimit then .error .framingOverflow
  else .ok { reader with buffer := reader.buffer ++ bytes }

end VmInMemoryFrameReader

/-- A reader and the runtime that its methods are given. -/
structure Port where
  reader : VmInMemoryFrameReader
  tcp : VmTcpRuntime

abbrev PortM (α : Type) := Method VmFramingError Port α

namespace Port

/-- The loop of `fill_until`. -/
def fill (target : Nat) (port : Port) : Port × Except VmFramingError Unit :=
  if port.reader.buffer.length < target then
    match _h : port.tcp.receive port.reader.stream port.reader.remainingCapacity with
    | .error e => (port, .error (classifyTcpError e))
    | .ok (none, tcp) => (⟨port.reader, tcp⟩, .ok ())
    | .ok (some bytes, tcp) =>
      match _pushed : port.reader.pushBytes bytes with
      | .error e => (⟨port.reader, tcp⟩, .error e)
      | .ok reader => fill target ⟨reader, tcp⟩
  else (port, .ok ())
termination_by port.tcp.waiting port.reader.stream
decreasing_by
  have same : reader.stream = port.reader.stream := by
    unfold VmInMemoryFrameReader.pushBytes at _pushed
    split at _pushed
    next => cases _pushed
    next => rw [← Except.ok.inj _pushed]
  rw [same]
  exact receive_lighter _h

def fillUntil (target : Nat) : PortM Unit := .ofCall (fill target)

def pendingOrEof {α : Type} (port : Port) : Except VmFramingError (Option α) := do
  let info ← (port.tcp.stream port.reader.stream).mapError classifyTcpError
  failIf (info.closed = true) .closed
  failIf (info.cancelled = true) .cancelled
  let peerClosed ← (port.tcp.peerWriteClosed port.reader.stream).mapError classifyTcpError
  failIf (peerClosed = true) .framingEof
  return none

/-- `take`, after draining what is in front. -/
def drain (n : Nat) : PortM Unit :=
  modify fun port => { port with reader.buffer := port.reader.buffer.drop n }

/-- `read_length_prefixed` behind its second `fill_until`. -/
def takeFrame (len : Nat) : PortM (Option Bytes) := do
  let port ← get
  if port.reader.buffer.length < 4 + len then liftM (port.pendingOrEof : Except _ (Option Bytes))
  else do
    drain (4 + len)
    return some ((port.reader.buffer.drop 4).take len)

/-- `read_length_prefixed` behind its first `fill_until`. -/
def readBody : PortM (Option Bytes) := do
  let port ← get
  if port.reader.buffer.length < 4 then liftM (port.pendingOrEof : Except _ (Option Bytes))
  else do
    let len := ofBeBytes (port.reader.buffer.take 4)
    liftM (failIf (len > port.reader.bufferLimit - 4) VmFramingError.framingOverflow)
    fillUntil (4 + len)
    takeFrame len

def readLengthPrefixed : PortM (Option Bytes) := do
  fillUntil 4
  readBody

end Port

/-! ## The writer -/

/-- The bytes of one frame, where the writer accepts the payload. -/
def frame (bufferLimit : Nat) (payload : Bytes) : Except VmFramingError Bytes := do
  failIf (payload.length > bufferLimit - 4) .framingOverflow
  failIf (payload.length ≥ 2 ^ 32) .framingOverflow
  return beBytes 4 payload.length ++ payload

/-! ## One direction of a connection -/

/-- The sending handle `a`, the reader's handle `b`, and the bytes between them. -/
structure Link (a b : VmTcpStream) (limit : Nat) (closed : Bool) (unread : Bytes) (port : Port) :
    Prop where
  distinct : a ≠ b
  stream : port.reader.stream = b
  capacity : port.reader.bufferLimit = limit
  bounded : port.reader.buffer.length ≤ limit
  far : ∃ state, port.tcp.streams[a.id]? = some state ∧ state.peer = some b ∧
    state.writeClosed = closed
  near : ∃ state, port.tcp.streams[b.id]? = some state ∧ state.peer = some a ∧
    state.closed = false ∧ state.cancelled = false ∧
    port.reader.buffer ++ state.inbox.flatten = unread

variable {a b : VmTcpStream} {limit : Nat} {closed : Bool} {unread : Bytes} {port : Port}

section

variable (link : Link a b limit closed unread port)
include link

theorem Link.buffer_front :
    port.reader.buffer <+: unread := by
  obtain ⟨state, _, _, _, _, eq⟩ := link.near
  exact ⟨_, eq⟩

theorem Link.peer_closed :
    port.tcp.peerWriteClosed port.reader.stream = .ok closed := by
  obtain ⟨near, found, peer, _⟩ := link.near
  obtain ⟨far, found', _, shut⟩ := link.far
  rw [link.stream]
  refine except_bind_ok_iff.mpr ⟨near, stream_ok_iff.mpr found,
    except_bind_ok_iff.mpr ⟨a, peerOf_ok_iff.mpr peer, except_bind_ok_iff.mpr
      ⟨far, stream_ok_iff.mpr found', ?_⟩⟩⟩
  exact congrArg Except.ok shut

theorem Link.pending {α : Type} :
    (port.pendingOrEof : Except VmFramingError (Option α)) =
      if closed then .error .framingEof else .ok none := by
  obtain ⟨near, found, peer, opened, live, _⟩ := link.near
  have here : port.tcp.stream port.reader.stream = .ok near := by
    rw [link.stream]
    exact stream_ok_iff.mpr found
  unfold Port.pendingOrEof
  rw [here, link.peer_closed, Except.mapError, Except.mapError]
  change (failIf (near.closed = true) _ >>= _) = _
  rw [opened, live]
  cases closed with
  | true | false => rfl

end

/-! ## Filling the buffer -/

variable {target : Nat}

theorem fill_done (enough : target ≤ port.reader.buffer.length) :
    port.fill target = (port, .ok ()) := by
  rw [Port.fill, if_neg (by omega)]

variable {tcp : VmTcpRuntime}

theorem fill_none (short : port.reader.buffer.length < target)
    (received : port.tcp.receive port.reader.stream port.reader.remainingCapacity =
      .ok (none, tcp)) : port.fill target = (⟨port.reader, tcp⟩, .ok ()) := by
  rw [Port.fill, if_pos short]
  split
  next e eq => rw [received] at eq; cases eq
  next tcp' eq => rw [received] at eq; cases eq; rfl
  next bytes tcp' eq => rw [received] at eq; cases eq

theorem fill_some {bytes : Bytes} (short : port.reader.buffer.length < target)
    (received : port.tcp.receive port.reader.stream port.reader.remainingCapacity =
      .ok (some bytes, tcp)) :
    port.fill target =
      match port.reader.pushBytes bytes with
      | .error e => (⟨port.reader, tcp⟩, .error e)
      | .ok reader => Port.fill target ⟨reader, tcp⟩ := by
  rw [Port.fill, if_pos short]
  split
  next e eq => rw [received] at eq; cases eq
  next tcp' eq => rw [received] at eq; cases eq
  next bytes' tcp' eq =>
    rw [received] at eq
    cases eq
    split
    next e pushed => rw [pushed]
    next reader pushed => rw [pushed]

theorem capacity_ne_zero (reader : VmInMemoryFrameReader) : reader.remainingCapacity ≠ 0 := by
  unfold VmInMemoryFrameReader.remainingCapacity
  omega

/-- Filling a buffer moves bytes from the inbox behind it until there are enough or none. -/
theorem fill_link {port : Port} (link : Link a b limit closed unread port)
    (fits : target ≤ limit) : ∃ port', port.fill target = (port', .ok ()) ∧
      Link a b limit closed unread port' ∧
      (target ≤ port'.reader.buffer.length ∨ port'.reader.buffer = unread) := by
  by_cases short : port.reader.buffer.length < target
  · obtain ⟨state, found, peer, opened, live, eq⟩ := link.near
    have found' := found
    rw [← link.stream] at found'
    cases chunks : state.inbox with
    | nil =>
      refine ⟨port, fill_none short (receive_empty (capacity_ne_zero _) found' live
        chunks), link, .inr ?_⟩
      rw [← eq, chunks, flatten_nil, append_nil]
    | cons bytes rest =>
      have received := receive_chunk (capacity_ne_zero port.reader) found' live chunks
      have space : port.reader.remainingCapacity = limit - port.reader.buffer.length := by
        unfold VmInMemoryFrameReader.remainingCapacity
        rw [link.capacity]
        omega
      have taken := length_take_le (limit - port.reader.buffer.length) bytes
      have within : ¬port.reader.buffer.length +
          (bytes.take port.reader.remainingCapacity).length > port.reader.bufferLimit := by
        rw [space, link.capacity]
        omega
      have next : Link a b limit closed unread
          ⟨⟨port.reader.stream,
              port.reader.buffer ++ bytes.take port.reader.remainingCapacity,
              port.reader.bufferLimit⟩,
            port.tcp.put port.reader.stream (afterReceive state
              (remaining port.reader.remainingCapacity bytes rest))⟩ := by
        refine ⟨link.distinct, link.stream, link.capacity, ?_, ?_, ?_⟩
        · change (_ ++ _ : Bytes).length ≤ limit
          rw [length_append, space]
          have := link.bounded
          omega
        · obtain ⟨far, there, facts⟩ := link.far
          refine ⟨far, ?_, facts⟩
          rw [put_other _ _ (by rw [link.stream]; exact link.distinct.symm)]
          exact there
        · refine ⟨afterReceive state
            (remaining port.reader.remainingCapacity bytes rest), ?_, peer, opened,
            live, ?_⟩
          · rw [← link.stream]
            exact put_same ..
          · change (_ ++ _) ++ (remaining _ _ _).flatten = _
            rw [append_assoc, take_remaining, ← chunks, eq]
      obtain ⟨port', filled, link', done⟩ := fill_link next fits
      refine ⟨port', ?_, link', done⟩
      have pushed : port.reader.pushBytes (bytes.take port.reader.remainingCapacity) =
          .ok ⟨port.reader.stream, _, port.reader.bufferLimit⟩ := if_neg within
      rw [fill_some short received, pushed]
      exact filled
  · exact ⟨port, fill_done (by omega), link, .inl (by omega)⟩
termination_by port.tcp.waiting port.reader.stream
decreasing_by exact receive_lighter received

/-! ## Reading a frame -/

/-- The reader over the bytes alone: its result and the bytes that stay unread. -/
def nextFrame (limit : Nat) (closed : Bool) (unread : Bytes) :
    Except VmFramingError (Option Bytes) × Bytes :=
  let idle := if closed then .error .framingEof else .ok none
  if unread.length < 4 then (idle, unread)
  else
    let len := ofBeBytes (unread.take 4)
    if len > limit - 4 then (.error .framingOverflow, unread)
    else if unread.length < 4 + len then (idle, unread)
    else (.ok (some ((unread.drop 4).take len)), unread.drop (4 + len))

theorem Link.drained (link : Link a b limit closed unread port) {n : Nat}
    (within : n ≤ port.reader.buffer.length) : Link a b limit closed (unread.drop n)
      { port with reader.buffer := port.reader.buffer.drop n } := by
  refine ⟨link.distinct, link.stream, link.capacity, ?_, link.far, ?_⟩
  · exact ((drop_sublist ..).length_le).trans link.bounded
  · obtain ⟨state, found, peer, opened, live, eq⟩ := link.near
    refine ⟨state, found, peer, opened, live, ?_⟩
    rw [← eq, drop_append_of_le_length within]

/-- Whether enough bytes are in the buffer is whether enough are unread. -/
theorem Link.filled_iff (link : Link a b limit closed unread port)
    (done : target ≤ port.reader.buffer.length ∨ port.reader.buffer = unread) :
    port.reader.buffer.length < target ↔ unread.length < target := by
  have le := link.buffer_front.length_le
  rcases done with enough | all
  · omega
  · rw [all]

theorem take_of_front {front whole : Bytes} (h : front <+: whole) {n : Nat}
    (within : n ≤ front.length) : whole.take n = front.take n := by
  obtain ⟨rest, rfl⟩ := h
  exact take_append_of_le_length within

/-- However the bytes lie in chunks, the reader does what the reader over the bytes does. -/
theorem read_link (link : Link a b limit closed unread port) (prefixFits : 4 ≤ limit) :
    ∃ port', Port.readLengthPrefixed.call port = (port', (nextFrame limit closed unread).1) ∧
      Link a b limit closed (nextFrame limit closed unread).2 port' := by
  obtain ⟨port₁, filled, link₁, done⟩ := fill_link link prefixFits
  have start : Port.readLengthPrefixed.call port = Port.readBody.call port₁ := by
    rw [Port.readLengthPrefixed, Port.fillUntil, call_bind, call_ofCall, filled]
  rw [start, Port.readBody, call_get_bind, call_ite]
  unfold nextFrame
  by_cases few : unread.length < 4
  · rw [if_pos ((link₁.filled_iff done).mpr few), call_lift, link₁.pending]
    simp only [few, if_true]
    exact ⟨port₁, rfl, link₁⟩
  have four : 4 ≤ port₁.reader.buffer.length := by
    have := link₁.filled_iff done
    omega
  rw [if_neg (by omega)]
  simp only [few, if_false]
  rw [take_of_front link₁.buffer_front four, call_check_bind, link₁.capacity]
  by_cases large : ofBeBytes (port₁.reader.buffer.take 4) > limit - 4
  · rw [failIf, if_pos large]
    simp only [large, if_true]
    exact ⟨port₁, rfl, link₁⟩
  obtain ⟨port₂, filled', link₂, done'⟩ :=
    fill_link link₁ (show 4 + ofBeBytes (port₁.reader.buffer.take 4) ≤ limit by omega)
  rw [failIf, if_neg large]
  simp only [large, if_false]
  have fillUntil : (Port.fillUntil _).call port₁ = (port₂, .ok ()) := filled'
  simp only [call_bind_of_ok fillUntil, Port.takeFrame, call_get_bind, call_ite]
  by_cases short : unread.length < 4 + ofBeBytes (port₁.reader.buffer.take 4)
  · rw [if_pos ((link₂.filled_iff done').mpr short), call_lift, link₂.pending]
    simp only [short, if_true]
    exact ⟨port₂, rfl, link₂⟩
  have all : 4 + ofBeBytes (port₁.reader.buffer.take 4) ≤ port₂.reader.buffer.length := by
    have := link₂.filled_iff done'
    omega
  rw [if_neg (by omega)]
  simp only [short, if_false]
  refine ⟨_, ?_, link₂.drained all⟩
  have body : (unread.drop 4).take (ofBeBytes (port₁.reader.buffer.take 4)) =
      (port₂.reader.buffer.drop 4).take (ofBeBytes (port₁.reader.buffer.take 4)) := by
    rw [take_drop, take_drop, take_of_front link₂.buffer_front all]
  rw [body]
  rfl

/-! ## Runs -/

structure Session where
  port : Port
  sent : Bytes
  received : List Bytes

def Session.poll (s : Session) : Port × Except VmFramingError (Option Bytes) :=
  Port.readLengthPrefixed.call s.port

def delivered : Except VmFramingError (Option Bytes) → List Bytes
  | .ok (some payload) => [payload]
  | _ => []

/-- What can happen to a connection and to the reader at its end. The sent bytes may be cut
anywhere, and the runtime may be used for anything else, the other direction included. -/
inductive Step (a : VmTcpStream) : Session → Session → Prop where
  | send {s : Session} {bytes : Bytes} {n : Nat} {tcp : VmTcpRuntime}
      (accepted : s.port.tcp.send a bytes = .ok (n, tcp)) :
      Step a s ⟨⟨s.port.reader, tcp⟩, s.sent ++ bytes, s.received⟩
  | closeWrite {s : Session} {tcp : VmTcpRuntime} (accepted : s.port.tcp.closeWrite a = .ok tcp) :
      Step a s ⟨⟨s.port.reader, tcp⟩, s.sent, s.received⟩
  | poll {s : Session} : Step a s ⟨s.poll.1, s.sent, s.received ++ delivered s.poll.2⟩
  | elsewhere {s : Session} {tcp : VmTcpRuntime}
      (sender : ∀ state, s.port.tcp.streams[a.id]? = some state →
        ∃ state', tcp.streams[a.id]? = some state' ∧ state'.peer = state.peer ∧
          state'.writeClosed = state.writeClosed)
      (reader : ∀ state, s.port.tcp.streams[s.port.reader.stream.id]? = some state →
        ∃ state', tcp.streams[s.port.reader.stream.id]? = some state' ∧
          state'.peer = state.peer ∧ state'.inbox = state.inbox ∧ state'.closed = state.closed ∧
          state'.cancelled = state.cancelled) :
      Step a s ⟨⟨s.port.reader, tcp⟩, s.sent, s.received⟩

/-- An open connection with nothing on its way to `b`. -/
def Connected (a b : VmTcpStream) (tcp : VmTcpRuntime) : Prop :=
  a ≠ b ∧ (∃ far, tcp.streams[a.id]? = some far ∧ far.peer = some b) ∧
    ∃ near, tcp.streams[b.id]? = some near ∧ near.peer = some a ∧ near.closed = false ∧
      near.cancelled = false ∧ near.inbox = []

/-- What a new reader with this limit and the sender at the other end lead to. -/
def Run (limit : Nat) (a b : VmTcpStream) (s : Session) : Prop :=
  ∃ tcp reader, Connected a b tcp ∧ VmInMemoryFrameReader.new b limit = .ok reader ∧
    Relation.ReflTransGen (Step a) ⟨⟨reader, tcp⟩, [], []⟩ s

/-- The frames of some payloads, one behind the other. -/
def wire (payloads : List Bytes) : Bytes :=
  payloads.flatMap fun payload => beBytes 4 payload.length ++ payload

/-- The invariant of a run: what was sent is what was returned, framed again, and what is
between the two ends. -/
def Conserved (limit : Nat) (a b : VmTcpStream) (s : Session) : Prop :=
  ∃ closed unread, Link a b limit closed unread s.port ∧ s.sent = wire s.received ++ unread ∧
    ∀ payload ∈ s.received, payload.length < 256 ^ 4

/-- A frame that is read spells the bytes that it takes. -/
theorem nextFrame_spells (limit : Nat) (closed : Bool) (unread : Bytes) :
    unread = wire (delivered (nextFrame limit closed unread).1) ++
      (nextFrame limit closed unread).2 := by
  have idle : delivered (if closed then .error .framingEof else .ok none) = [] := by
    cases closed <;> rfl
  unfold nextFrame
  by_cases few : unread.length < 4
  · simp only [few, if_true, idle]
    rfl
  simp only [few, if_false]
  by_cases large : ofBeBytes (unread.take 4) > limit - 4
  · simp only [large, if_true]
    rfl
  simp only [large, if_false]
  by_cases short : unread.length < 4 + ofBeBytes (unread.take 4)
  · simp only [short, if_true, idle]
    rfl
  simp only [short, if_false, delivered, wire, flatMap_cons, flatMap_nil,
    append_nil]
  have width : (unread.take 4).length = 4 := by
    rw [length_take]
    omega
  have len : ((unread.drop 4).take (ofBeBytes (unread.take 4))).length =
      ofBeBytes (unread.take 4) := by
    rw [length_take, length_drop]
    omega
  rw [len, beBytes_ofBeBytes width, append_assoc, ← drop_drop,
    take_append_drop, take_append_drop]

theorem delivered_small (limit : Nat) (closed : Bool) (unread payload : Bytes)
    (h : payload ∈ delivered (nextFrame limit closed unread).1) : payload.length < 256 ^ 4 := by
  have idle : delivered (if closed then .error .framingEof else .ok none) = [] := by
    cases closed <;> rfl
  unfold nextFrame at h
  by_cases few : unread.length < 4
  · simp only [few, if_true, idle] at h
    cases h
  simp only [few, if_false] at h
  by_cases large : ofBeBytes (unread.take 4) > limit - 4
  · simp only [large, if_true] at h
    cases h
  simp only [large, if_false] at h
  by_cases short : unread.length < 4 + ofBeBytes (unread.take 4)
  · simp only [short, if_true, idle] at h
    cases h
  simp only [short, if_false, delivered, mem_singleton] at h
  have bound := ofBeBytes_lt (unread.take 4)
  have width : (unread.take 4).length = 4 := by
    rw [length_take]
    omega
  rw [width] at bound
  rw [h, length_take]
  omega

theorem wire_append (front back : List Bytes) : wire (front ++ back) = wire front ++ wire back :=
  flatMap_append

theorem conserved_step (prefixFits : 4 ≤ limit) {s s' : Session} (conserved : Conserved limit a b s)
    (step : Step a s s') : Conserved limit a b s' := by
  obtain ⟨closed, unread, link, balance, small⟩ := conserved
  obtain ⟨far, found, peered, shut⟩ := link.far
  obtain ⟨near, found', peered', opened, live, bytes⟩ := link.near
  cases step with
  | @send chunk n tcp accepted =>
    obtain ⟨state, peer, peerState, at_a, at_peer, there, rfl⟩ := send_ok accepted
    cases found.symm.trans at_a
    cases peered.symm.trans at_peer
    cases found'.symm.trans there
    refine ⟨closed, unread ++ chunk, ⟨link.distinct, link.stream, link.capacity, link.bounded,
      ⟨far, ?_, peered, shut⟩, _, put_same .., peered', opened, live, ?_⟩, ?_, small⟩
    · rw [put_other _ _ link.distinct.symm]
      exact found
    · change s.port.reader.buffer ++ (near.inbox ++ [chunk]).flatten = _
      rw [flatten_append, ← append_assoc, bytes, flatten_singleton]
    · rw [balance, append_assoc]
  | closeWrite accepted =>
    obtain ⟨state, at_a, rfl⟩ := closeWrite_ok accepted
    cases found.symm.trans at_a
    refine ⟨true, unread, ⟨link.distinct, link.stream, link.capacity, link.bounded,
      ⟨_, put_same .., peered, rfl⟩, near, ?_, peered', opened, live, bytes⟩, balance, small⟩
    rw [put_other _ _ link.distinct]
    exact found'
  | poll =>
    obtain ⟨port, read, link'⟩ := read_link link prefixFits
    have polled : s.poll = (port, (nextFrame limit closed unread).1) := read
    refine ⟨closed, _, by rw [polled]; exact link', ?_, fun payload member => ?_⟩
    · rw [polled, wire_append, append_assoc, ← nextFrame_spells]
      exact balance
    · rcases mem_append.mp member with old | new
      · exact small payload old
      · rw [polled] at new
        exact delivered_small limit closed unread payload new
  | elsewhere sender reader =>
    obtain ⟨far', at_a, samePeer, sameShut⟩ := sender far found
    obtain ⟨near', at_b, samePeer', sameInbox, sameClosed, sameLive⟩ :=
      reader near (by rw [link.stream]; exact found')
    refine ⟨closed, unread, ⟨link.distinct, link.stream, link.capacity, link.bounded,
      ⟨far', at_a, samePeer.trans peered, sameShut.trans shut⟩, near', ?_,
      samePeer'.trans peered', sameClosed.trans opened, sameLive.trans live, ?_⟩, balance, small⟩
    · rw [← link.stream]
      exact at_b
    · rw [sameInbox]
      exact bytes

theorem conserved_run (prefixFits : 4 ≤ limit) {s : Session} (run : Run limit a b s) :
    Conserved limit a b s := by
  obtain ⟨tcp, reader, ⟨distinct, ⟨far, found, peered⟩, near, found', peered', opened, live, empty⟩,
    created, steps⟩ := run
  unfold VmInMemoryFrameReader.new at created
  rw [if_neg (by omega)] at created
  cases created
  induction steps with
  | refl =>
    refine ⟨far.writeClosed, [], ⟨distinct, rfl, rfl, Nat.zero_le _, ⟨far, found, peered, rfl⟩,
      near, found', peered', opened, live, ?_⟩, rfl, fun _ member => (by cases member)⟩
    rw [empty]
    rfl
  | tail _ step ih => exact conserved_step prefixFits ih step

/-! ## What a reader returns -/

theorem frame_ok {payload bytes : Bytes} (h : frame limit payload = .ok bytes) :
    payload.length ≤ limit - 4 ∧ payload.length < 256 ^ 4 ∧
      bytes = beBytes 4 payload.length ++ payload := by
  obtain ⟨small, h⟩ := check_bind_ok_iff.mp h
  obtain ⟨word, h⟩ := check_bind_ok_iff.mp h
  have small := failIf_ok_iff.mp small
  have word := failIf_ok_iff.mp word
  exact ⟨by omega, by omega, (Except.ok.inj h).symm⟩

theorem frames_eq {payloads frames : List Bytes} (h : payloads.mapM (frame limit) = .ok frames) :
    frames = payloads.map fun payload => beBytes 4 payload.length ++ payload := by
  have each := mapM_ok_iff.mp h
  clear h
  induction each with
  | nil => rfl
  | cons first _ ih => rw [map_cons, ih, (frame_ok first).2.2]

theorem frames_small {payloads frames : List Bytes} (h : payloads.mapM (frame limit) = .ok frames) :
    ∀ payload ∈ payloads, payload.length ≤ limit - 4 ∧ payload.length < 256 ^ 4 := by
  have each := mapM_ok_iff.mp h
  clear h
  induction each with
  | nil => exact fun _ member => by cases member
  | cons first _ ih =>
    obtain ⟨fits, small, _⟩ := frame_ok first
    exact forall_mem_cons.mpr ⟨⟨fits, small⟩, ih⟩

theorem length_wire_cons (payload : Bytes) (payloads : List Bytes) :
    (wire (payload :: payloads)).length = 4 + payload.length + (wire payloads).length := by
  rw [wire, flatMap_cons, length_append, length_append, length_beBytes]
  rfl

/-- Frames are a code: bytes that start with some frames have those payloads in front. -/
theorem wire_front {front payloads : List Bytes} {rest : Bytes}
    (small : ∀ payload ∈ front, payload.length < 256 ^ 4)
    (small' : ∀ payload ∈ payloads, payload.length < 256 ^ 4)
    (h : wire front ++ rest <+: wire payloads) :
    ∃ later, payloads = front ++ later ∧ rest <+: wire later := by
  induction front generalizing payloads with
  | nil => exact ⟨payloads, rfl, h⟩
  | cons payload front ih =>
    cases payloads with
    | nil =>
      have := h.length_le
      rw [length_append, length_wire_cons] at this
      change _ ≤ 0 at this
      omega
    | cons other payloads =>
      obtain ⟨tail, eq⟩ := h
      simp only [wire, flatMap_cons, append_assoc] at eq
      obtain ⟨lengths, behind⟩ := append_inj eq (by simp)
      have same := beBytes_injective (small payload mem_cons_self)
        (small' other mem_cons_self) lengths
      obtain ⟨rfl, others⟩ := append_inj behind same
      obtain ⟨later, rfl, rest⟩ := ih (fun p member => small p (mem_cons_of_mem _ member))
        (fun p member => small' p (mem_cons_of_mem _ member))
        ⟨tail, by rw [append_assoc]; exact others⟩
      exact ⟨later, rfl, rest⟩

/-- The reader over bytes that are the start of some frames. -/
theorem nextFrame_wire {later : List Bytes} (fits : ∀ payload ∈ later, payload.length ≤ limit - 4)
    (small : ∀ payload ∈ later, payload.length < 256 ^ 4) (h : unread <+: wire later) :
    (nextFrame limit closed unread).1 =
      match later.head? with
      | some payload =>
        if 4 + payload.length ≤ unread.length then .ok (some payload)
        else if closed then .error .framingEof else .ok none
      | none => if closed then .error .framingEof else .ok none := by
  unfold nextFrame
  by_cases few : unread.length < 4
  · simp only [few, if_true]
    cases later with
    | nil => rfl
    | cons payload later => exact (if_neg (by omega)).symm
  · simp only [few, if_false]
    cases later with
    | nil =>
      have := h.length_le
      change _ ≤ 0 at this
      omega
    | cons payload later =>
      rw [wire, flatMap_cons, append_assoc] at h
      obtain ⟨tail, eq⟩ := h
      have four : unread.take 4 = beBytes 4 payload.length := by
        have := congrArg (List.take 4) eq
        rw [take_append_of_le_length (by omega),
          take_append_of_le_length (by rw [length_beBytes])] at this
        rw [this, take_of_length_le (by rw [length_beBytes])]
      rw [four, ofBeBytes_beBytes (small payload mem_cons_self)]
      have fit := fits payload mem_cons_self
      simp only [show ¬payload.length > limit - 4 by omega, if_false, head?_cons]
      by_cases short : unread.length < 4 + payload.length
      · simp only [short, if_true, show ¬4 + payload.length ≤ unread.length by omega, if_false]
      simp only [short, if_false, show 4 + payload.length ≤ unread.length by omega, if_true]
      have whole : beBytes 4 payload.length ++ payload <+: unread := by
        refine prefix_of_prefix_length_le ?_ ⟨tail, eq⟩ ?_
        · rw [← append_assoc]
          exact prefix_append _ _
        · rw [length_append, length_beBytes]
          omega
      have body : (unread.drop 4).take payload.length = payload := by
        rw [take_drop, take_of_front whole (by rw [length_append, length_beBytes]),
          take_of_length_le (by rw [length_append, length_beBytes])]
        exact drop_left' (length_beBytes ..)
      rw [body]

/-- The bytes that were sent and not yet returned. -/
def Session.outstanding (s : Session) : Bytes := s.sent.drop (wire s.received).length

/-- What a poll returns while no frame is complete. -/
def Session.idle (s : Session) : Except VmFramingError (Option Bytes) :=
  match s.port.tcp.peerWriteClosed s.port.reader.stream with
  | .ok true => .error .framingEof
  | _ => .ok none

/-- What the next poll is to return when these frames are being sent. -/
def Session.due (s : Session) (payloads frames : List Bytes) :
    Except VmFramingError (Option Bytes) :=
  match payloads[s.received.length]? with
  | some payload =>
    if (frames.take (s.received.length + 1)).flatten.length ≤ s.sent.length then .ok (some payload)
    else s.idle
  | none => s.idle

/-- The promise of a limit, in every state of every run. -/
structure Faithful (limit : Nat) : Prop where
  bounded : ∀ a b s, Run limit a b s → s.port.reader.buffer.length ≤ limit
  lossless : ∀ a b s payloads frames, Run limit a b s → payloads.mapM (frame limit) = .ok frames →
    s.sent <+: frames.flatten → s.received <+: payloads ∧ s.poll.2 = s.due payloads frames
  rejecting : ∀ a b s, Run limit a b s → 4 ≤ s.outstanding.length →
    limit - 4 < ofBeBytes (s.outstanding.take 4) → s.poll.2 = .error .framingOverflow

theorem outstanding_eq {s : Session} {unread : Bytes}
    (balance : s.sent = wire s.received ++ unread) : s.outstanding = unread := by
  rw [Session.outstanding, balance, drop_left]

theorem faithful_of_four (prefixFits : 4 ≤ limit) : Faithful limit := by
  refine ⟨fun a b s run => ?_, fun a b s payloads frames run accepted sent => ?_,
    fun a b s run four large => ?_⟩
  · obtain ⟨closed, unread, link, _⟩ := conserved_run prefixFits run
    exact link.bounded
  · obtain ⟨closed, unread, link, balance, small⟩ := conserved_run prefixFits run
    obtain ⟨port, read, _⟩ := read_link link prefixFits
    have framed := frames_eq accepted
    have small' := frames_small accepted
    have flat : frames.flatten = wire payloads := by
      rw [framed]
      rfl
    rw [flat, balance] at sent
    obtain ⟨later, rfl, start⟩ := wire_front small (fun p member => (small' p member).2) sent
    refine ⟨prefix_append _ _, ?_⟩
    have polled : s.poll.2 = (nextFrame limit closed unread).1 := congrArg Prod.snd read
    have idle : s.idle = if closed then .error .framingEof else .ok none := by
      rw [Session.idle, link.peer_closed]
      cases closed <;> rfl
    rw [polled, nextFrame_wire
      (fun p member => (small' p (mem_append_right _ member)).1)
      (fun p member => (small' p (mem_append_right _ member)).2) start, Session.due,
      getElem?_append_right (Nat.le_refl _), Nat.sub_self, ← head?_eq_getElem?, idle]
    cases later with
    | nil => rfl
    | cons payload later =>
      have taken : (frames.take (s.received.length + 1)).flatten.length =
          (wire s.received).length + (4 + payload.length) := by
        rw [framed, ← map_take, take_length_add_append]
        change (wire (s.received ++ [payload])).length = _
        rw [wire_append, length_append, length_wire_cons]
        rfl
      rw [head?_cons, taken, balance, length_append]
      simp only [Nat.add_le_add_iff_left]
  · obtain ⟨closed, unread, link, balance, _⟩ := conserved_run prefixFits run
    obtain ⟨port, read, _⟩ := read_link link prefixFits
    rw [outstanding_eq balance] at four large
    change (Port.readLengthPrefixed.call s.port).2 = _
    rw [read, nextFrame]
    simp only [show ¬unread.length < 4 by omega, if_false, show _ > limit - 4 from large, if_true]

/-! ## Limits without room for a prefix -/

/-- Two handles, each the peer of the other. -/
def pair : VmTcpRuntime :=
  ⟨((∅ : Std.ExtTreeMap UInt64 StreamState).insert 1
      ⟨some ⟨2⟩, [], usizeMax, [], [], false, false, false⟩).insert 2
      ⟨some ⟨1⟩, [], usizeMax, [], [], false, false, false⟩⟩

theorem pair_near : pair.streams[(2 : UInt64)]? =
    some ⟨some ⟨1⟩, [], usizeMax, [], [], false, false, false⟩ :=
  getElem?_insert_self_eq ..

theorem pair_far : pair.streams[(1 : UInt64)]? =
    some ⟨some ⟨2⟩, [], usizeMax, [], [], false, false, false⟩ := by
  unfold pair
  rw [getElem?_insert_of_ne _ _ (by decide)]
  exact getElem?_insert_self_eq ..

theorem connected_pair : Connected ⟨1⟩ ⟨2⟩ pair :=
  ⟨by decide, ⟨_, pair_far, rfl⟩, _, pair_near, rfl, rfl, rfl, rfl⟩

/-- Four bytes that wait do not fit into a smaller buffer: the one behind the last place is
lost. -/
theorem poll_small {state : StreamState} (small : limit < 4)
    (positive : 0 < limit) (found : tcp.streams[b.id]? = some state)
    (live : state.cancelled = false) (inbox : state.inbox = [[0, 0, 0, 0]]) :
    (Port.readLengthPrefixed.call ⟨⟨b, [], limit⟩, tcp⟩).2 = .error .framingOverflow := by
  have space : (⟨b, [], limit⟩ : VmInMemoryFrameReader).remainingCapacity = limit := by
    change max (limit - 0) 1 = limit
    omega
  have first := receive_chunk (capacity_ne_zero ⟨b, [], limit⟩) found live inbox
  rw [space] at first
  have width : (([0, 0, 0, 0] : Bytes).take limit).length = limit := by
    rw [length_take]
    exact Nat.min_eq_left (by change limit ≤ 4; omega)
  have pushed : (⟨b, [], limit⟩ : VmInMemoryFrameReader).pushBytes
      (([0, 0, 0, 0] : Bytes).take limit) = .ok ⟨b, ([0, 0, 0, 0] : Bytes).take limit, limit⟩ := by
    refine if_neg ?_
    change ¬0 + _ > limit
    rw [width]
    omega
  have left : remaining limit [0, 0, 0, 0] [] = [([0, 0, 0, 0] : Bytes).drop limit] :=
    if_pos small
  have full : (⟨b, ([0, 0, 0, 0] : Bytes).take limit, limit⟩ :
      VmInMemoryFrameReader).remainingCapacity = 1 := by
    change max (limit - (([0, 0, 0, 0] : Bytes).take limit).length) 1 = 1
    rw [width]
    omega
  have second := @receive_chunk
    (tcp.put b (afterReceive state (remaining limit [0, 0, 0, 0] [])))
    b _ _ _ _ (capacity_ne_zero ⟨b, ([0, 0, 0, 0] : Bytes).take limit, limit⟩)
    (put_same ..) live left
  rw [full] at second
  have overflow : (⟨b, ([0, 0, 0, 0] : Bytes).take limit, limit⟩ : VmInMemoryFrameReader).pushBytes
      ((([0, 0, 0, 0] : Bytes).drop limit).take 1) = .error .framingOverflow := by
    refine if_pos ?_
    change (([0, 0, 0, 0] : Bytes).take limit).length + _ > limit
    rw [width, length_take, length_drop]
    change limit + min 1 (4 - limit) > limit
    omega
  have filled : (Port.fill 4 ⟨⟨b, [], limit⟩, tcp⟩).2 = .error .framingOverflow := by
    rw [fill_some (by change 0 < 4; decide) (by rw [space]; exact first), pushed]
    change (Port.fill 4 _).2 = _
    rw [fill_some (by change (([0, 0, 0, 0] : Bytes).take limit).length < 4; omega)
      (by rw [full]; exact second), overflow]
  unfold Port.readLengthPrefixed Port.fillUntil
  rw [call_bind, call_ofCall]
  revert filled
  rcases Port.fill 4 ⟨⟨b, [], limit⟩, tcp⟩ with ⟨port, e | x⟩
  · exact fun eq => by
      cases eq
      rfl
  · exact fun eq => by cases eq

theorem framing_unfaithful (positive : 0 < limit) (small : limit < 4) : ¬Faithful limit := by
  intro faithful
  have sent : pair.send ⟨1⟩ [0, 0, 0, 0] = .ok (4, pair.put ⟨2⟩
      ⟨some ⟨1⟩, [[0, 0, 0, 0]], usizeMax, [], [], false, false, false⟩) := by
    refine except_bind_ok_iff.mpr ⟨_, stream_ok_iff.mpr pair_far, ?_⟩
    refine check_bind_ok_iff.mpr ⟨rfl, check_bind_ok_iff.mpr ⟨rfl, check_bind_ok_iff.mpr ⟨rfl, ?_⟩⟩⟩
    refine except_bind_ok_iff.mpr ⟨⟨2⟩, rfl, ?_⟩
    refine except_bind_ok_iff.mpr ⟨_, stream_ok_iff.mpr pair_near, ?_⟩
    rfl
  have run : Run limit ⟨1⟩ ⟨2⟩ ⟨⟨⟨⟨2⟩, [], limit⟩, _⟩, [0, 0, 0, 0], []⟩ :=
    ⟨pair, ⟨⟨2⟩, [], limit⟩, connected_pair, if_neg (by omega), .single (.send sent)⟩
  have due := (faithful.lossless _ _ _ [[]] [[0, 0, 0, 0]] run (by
    rw [mapM_cons, frame]
    rfl) (prefix_refl _)).2
  rw [Session.poll, poll_small (by omega) positive (put_same ..) rfl rfl] at due
  cases due

/-- A reader keeps the promise exactly when a prefix fits into its buffer. An empty payload is
accepted whatever the limit. -/
theorem framing_spec (positive : 0 < limit) : Faithful limit ↔ 4 ≤ limit := by
  refine ⟨fun faithful => ?_, faithful_of_four⟩
  by_contra small
  exact framing_unfaithful positive (by omega) faithful

/-- A buffer of 1024 bytes. -/
theorem framing_spec_kilobyte : Faithful 1024 := (framing_spec (by decide)).mpr (by decide)

/-- With a buffer of one byte an accepted payload is lost. -/
theorem framing_loses_empty : frame 1 [] = .ok [0, 0, 0, 0] ∧ ¬Faithful 1 :=
  ⟨rfl, framing_unfaithful (by decide) (by decide)⟩

end Terlan.Tcp
