/-
  Byte streams of the virtual machine: two handles are each other's peer, and what one sends
  waits as chunks in the inbox of the other.

  Modelled are the calls that move bytes or close a side. Wake intents are dropped, as `send`
  and `receive` drop them; waiters are drained where the source drains them.
-/
import Terlan.Lib.Checked
import Terlan.Lib.TreeMap
import Terlan.TermFormat.Value

namespace Terlan.Tcp

open List
open Std (ExtTreeMap)
open Terlan.Lib Terlan.TermFormat

/-! ## Streams -/

structure VmTcpStream where
  id : UInt64
deriving DecidableEq

structure StreamState where
  peer : Option VmTcpStream
  inbox : List Bytes
  inboxLimit : Nat
  readWaiters : List UInt64
  writeWaiters : List (UInt64 × VmTcpStream)
  writeClosed : Bool
  closed : Bool
  cancelled : Bool

structure VmTcpRuntime where
  streams : ExtTreeMap UInt64 StreamState

namespace VmTcpRuntime

def stream (tcp : VmTcpRuntime) (stream : VmTcpStream) : Except String StreamState :=
  match tcp.streams[stream.id]? with
  | some state => .ok state
  | none => .error "VM TCP stream handle is unknown"

def put (tcp : VmTcpRuntime) (stream : VmTcpStream) (state : StreamState) : VmTcpRuntime :=
  ⟨tcp.streams.insert stream.id state⟩

def peerOf (state : StreamState) : Except String VmTcpStream :=
  match state.peer with
  | some peer => .ok peer
  | none => .error "VM TCP stream has no connected peer"

def send (tcp : VmTcpRuntime) (stream : VmTcpStream) (bytes : Bytes) :
    Except String (Nat × VmTcpRuntime) := do
  let state ← tcp.stream stream
  failIf (state.cancelled = true) "VM TCP stream is cancelled"
  failIf (state.closed = true) "VM TCP stream is closed"
  failIf (state.writeClosed = true) "VM TCP stream write side is closed"
  let peer ← peerOf state
  let peerState ← tcp.stream peer
  failIf (peerState.cancelled = true) "VM TCP peer stream is cancelled"
  failIf (peerState.closed = true) "VM TCP peer stream is closed"
  failIf (min (peerState.inbox.flatten.length + bytes.length) usizeMax > peerState.inboxLimit)
    "VM TCP peer inbox is full"
  return (bytes.length,
    tcp.put peer { peerState with inbox := peerState.inbox ++ [bytes], readWaiters := [] })

/-- What is left of the inbox when at most `maxBytes` of its first chunk are taken. -/
def remaining (maxBytes : Nat) (bytes : Bytes) (rest : List Bytes) : List Bytes :=
  if bytes.length > maxBytes then bytes.drop maxBytes :: rest else rest

def afterReceive (state : StreamState) (inbox : List Bytes) : StreamState :=
  { state with
    inbox := inbox
    writeWaiters := if inbox.flatten.length < state.inboxLimit then [] else state.writeWaiters }

def receive (tcp : VmTcpRuntime) (stream : VmTcpStream) (maxBytes : Nat) :
    Except String (Option Bytes × VmTcpRuntime) := do
  failIf (maxBytes = 0) "VM TCP receive max_bytes must be greater than 0"
  let state ← tcp.stream stream
  failIf (state.cancelled = true) "VM TCP stream is cancelled"
  match state.inbox with
  | [] => return (none, tcp)
  | bytes :: rest =>
    return (some (bytes.take maxBytes),
      tcp.put stream (afterReceive state (remaining maxBytes bytes rest)))

def closeWrite (tcp : VmTcpRuntime) (stream : VmTcpStream) : Except String VmTcpRuntime := do
  let state ← tcp.stream stream
  failIf (state.cancelled = true) "VM TCP stream is cancelled"
  failIf (state.closed = true) "VM TCP stream is closed"
  return tcp.put stream { state with writeClosed := true }

def peerWriteClosed (tcp : VmTcpRuntime) (stream : VmTcpStream) : Except String Bool := do
  let state ← tcp.stream stream
  let peer ← peerOf state
  let peerState ← tcp.stream peer
  return peerState.writeClosed

/-! ## What the calls do -/

variable {tcp tcp' : VmTcpRuntime} {s : VmTcpStream}

variable {state : StreamState}

theorem stream_ok_iff : tcp.stream s = .ok state ↔ tcp.streams[s.id]? = some state := by
  unfold stream
  cases tcp.streams[s.id]? with
  | none | some => simp

theorem peerOf_ok_iff {peer : VmTcpStream} : peerOf state = .ok peer ↔ state.peer = some peer := by
  unfold peerOf
  cases state.peer with
  | none | some => simp

theorem put_same (tcp : VmTcpRuntime) (s : VmTcpStream) (state : StreamState) :
    (tcp.put s state).streams[s.id]? = some state :=
  getElem?_insert_self_eq tcp.streams s.id state

theorem put_other (tcp : VmTcpRuntime) {s other : VmTcpStream} (state : StreamState)
    (ne : s ≠ other) : (tcp.put s state).streams[other.id]? = tcp.streams[other.id]? := by
  refine getElem?_insert_of_ne tcp.streams state fun eq => ne ?_
  cases s
  cases other
  exact congrArg VmTcpStream.mk eq

theorem send_ok {bytes : Bytes} {n : Nat} (h : tcp.send s bytes = .ok (n, tcp')) :
    ∃ state peer peerState, tcp.streams[s.id]? = some state ∧ state.peer = some peer ∧
      tcp.streams[peer.id]? = some peerState ∧ tcp' = tcp.put peer
        { peerState with inbox := peerState.inbox ++ [bytes], readWaiters := [] } := by
  obtain ⟨state, found, h⟩ := except_bind_ok_iff.mp h
  obtain ⟨_, h⟩ := check_bind_ok_iff.mp h
  obtain ⟨_, h⟩ := check_bind_ok_iff.mp h
  obtain ⟨_, h⟩ := check_bind_ok_iff.mp h
  obtain ⟨peer, peered, h⟩ := except_bind_ok_iff.mp h
  obtain ⟨peerState, found', h⟩ := except_bind_ok_iff.mp h
  obtain ⟨_, h⟩ := check_bind_ok_iff.mp h
  obtain ⟨_, h⟩ := check_bind_ok_iff.mp h
  obtain ⟨_, h⟩ := check_bind_ok_iff.mp h
  cases h
  exact ⟨state, peer, peerState, stream_ok_iff.mp found, peerOf_ok_iff.mp peered,
    stream_ok_iff.mp found', rfl⟩

theorem closeWrite_ok (h : tcp.closeWrite s = .ok tcp') : ∃ state, tcp.streams[s.id]? = some state ∧
      tcp' = tcp.put s { state with writeClosed := true } := by
  obtain ⟨state, found, h⟩ := except_bind_ok_iff.mp h
  obtain ⟨_, h⟩ := check_bind_ok_iff.mp h
  obtain ⟨_, h⟩ := check_bind_ok_iff.mp h
  exact ⟨state, stream_ok_iff.mp found, (Except.ok.inj h).symm⟩

/-- Taking from a chunk loses no byte and keeps their order. -/
theorem take_remaining (maxBytes : Nat) (bytes : Bytes) (rest : List Bytes) :
    bytes.take maxBytes ++ (remaining maxBytes bytes rest).flatten = (bytes :: rest).flatten := by
  unfold remaining
  rw [flatten_cons]
  split
  next => rw [flatten_cons, ← append_assoc, take_append_drop]
  next short => rw [take_of_length_le (by omega)]

variable {maxBytes : Nat}

theorem receive_empty (positive : maxBytes ≠ 0)
    (found : tcp.streams[s.id]? = some state) (live : state.cancelled = false)
    (empty : state.inbox = []) : tcp.receive s maxBytes = .ok (none, tcp) := by
  refine check_bind_ok_iff.mpr ⟨failIf_ok_iff.mpr positive, except_bind_ok_iff.mpr
    ⟨state, stream_ok_iff.mpr found, check_bind_ok_iff.mpr ⟨failIf_ok_iff.mpr ?_, ?_⟩⟩⟩
  · rw [live]
    decide
  · rw [empty]
    rfl

theorem receive_chunk {bytes : Bytes} {rest : List Bytes}
    (positive : maxBytes ≠ 0) (found : tcp.streams[s.id]? = some state)
    (live : state.cancelled = false) (chunk : state.inbox = bytes :: rest) :
    tcp.receive s maxBytes = .ok (some (bytes.take maxBytes),
      tcp.put s (afterReceive state (remaining maxBytes bytes rest))) := by
  refine check_bind_ok_iff.mpr ⟨failIf_ok_iff.mpr positive, except_bind_ok_iff.mpr
    ⟨state, stream_ok_iff.mpr found, check_bind_ok_iff.mpr ⟨failIf_ok_iff.mpr ?_, ?_⟩⟩⟩
  · rw [live]
    decide
  · rw [chunk]
    rfl

/-- The bytes and chunks that wait in an inbox. -/
def weight (inbox : List Bytes) : Nat := inbox.flatten.length + inbox.length

def waiting (tcp : VmTcpRuntime) (s : VmTcpStream) : Nat :=
  match tcp.streams[s.id]? with
  | some state => weight state.inbox
  | none => 0

theorem weight_remaining (positive : maxBytes ≠ 0) (bytes : Bytes)
    (rest : List Bytes) : weight (remaining maxBytes bytes rest) < weight (bytes :: rest) := by
  unfold weight remaining
  split
  next long =>
    rw [flatten_cons, flatten_cons, length_append, length_append,
      length_drop, length_cons, length_cons]
    omega
  next =>
    rw [flatten_cons, length_append, length_cons]
    omega

theorem receive_lighter {bytes : Bytes}
    (h : tcp.receive s maxBytes = .ok (some bytes, tcp')) : waiting tcp' s < waiting tcp s := by
  obtain ⟨positive, h⟩ := check_bind_ok_iff.mp h
  obtain ⟨state, found, h⟩ := except_bind_ok_iff.mp h
  obtain ⟨_, h⟩ := check_bind_ok_iff.mp h
  split at h
  next => cases h
  next chunk rest eq =>
    cases h
    unfold waiting
    rw [put_same, stream_ok_iff.mp found]
    change weight (remaining maxBytes chunk rest) < weight state.inbox
    rw [eq]
    exact weight_remaining (failIf_ok_iff.mp positive) chunk rest

end VmTcpRuntime

end Terlan.Tcp
