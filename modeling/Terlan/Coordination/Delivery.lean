/-
  Two transport sessions and the network between them.

  A direction is the pair of a sender and its peer. `Ledger` relates the two ends of a
  direction to its history: the frames that the sender emitted, the frames that the peer
  accepted, and the frames on their way. Every event keeps it (`call_ledger`), so every run
  does, and the frames accepted are a prefix of the frames emitted.
-/
import Terlan.Coordination.Session

namespace Terlan.Coordination

open Terlan.Lib Terlan.TermFormat VmDistributedTransportSession List Function
open Std (ExtTreeSet)

/-! ## The network -/

inductive Side where
  | left
  | right
deriving DecidableEq

def Side.peer : Side → Side
  | .left => .right
  | .right => .left

/-- Both sessions, and the frames on their way to each of them. -/
structure Network where
  session : Side → VmDistributedTransportSession
  inFlight : Side → List VmDistributedTransportFrame

inductive NetworkEvent where
  | send (side : Side) (capability : String) (payload : ReplValue) (refs : List TetfVmRef)
      (declaredAtoms : List String) (delivery : VmDistributionDelivery)
  | deliver (side : Side) (index : Nat) (declaredAtoms : List String)
  | lose (side : Side) (index : Nat)
  | duplicate (side : Side) (index : Nat)
  | acknowledge (side : Side) (messageId : UInt64)
  | disconnect (side : Side) (reason : VmDistributedDisconnectReason) (tick : UInt64)
  | reconnect (side : Side) (remote : VmCoordinationProfile) (tick : UInt64)

inductive NetworkReply where
  | emitted (side : Side) (frame : VmDistributedTransportFrame)
  | accepted (side : Side) (frame : VmDistributedTransportFrame)
  | other

namespace Network

def new (left right : VmDistributedTransportSession) : Network where
  session := fun
    | .left => left
    | .right => right
  inFlight := fun _ => []

def setSession (network : Network) (side : Side) (session : VmDistributedTransportSession) :
    Network :=
  { network with session := Function.update network.session side session }

def setInFlight (network : Network) (side : Side) (frames : List VmDistributedTransportFrame) :
    Network :=
  { network with inFlight := Function.update network.inFlight side frames }

/-- One event. Any frame on its way may be next to arrive, so frames overtake each other. -/
def call (network : Network) : NetworkEvent → Network × NetworkReply
  | .send side capability payload refs declaredAtoms delivery =>
    match (encodeMessage capability payload refs declaredAtoms
        delivery).call (network.session side) with
    | (session, .ok frame) =>
      ((network.setSession side session).setInFlight side.peer
        (frame :: network.inFlight side.peer), .emitted side frame)
    | (session, .error _) => (network.setSession side session, .other)
  | .deliver side index declaredAtoms =>
    match (network.inFlight side)[index]? with
    | none => (network, .other)
    | some frame =>
      let network := network.setInFlight side ((network.inFlight side).eraseIdx index)
      match (acceptInboundFrame frame declaredAtoms).call
          (network.session side) with
      | (session, .ok .accepted) => (network.setSession side session, .accepted side frame)
      | (session, _) => (network.setSession side session, .other)
  | .lose side index =>
    (network.setInFlight side ((network.inFlight side).eraseIdx index), .other)
  | .duplicate side index =>
    match (network.inFlight side)[index]? with
    | none => (network, .other)
    | some frame => (network.setInFlight side (frame :: network.inFlight side), .other)
  | .acknowledge side messageId =>
    let (session, _) :=
      (acknowledge messageId).call (network.session side)
    (network.setSession side session, .other)
  | .disconnect side reason tick =>
    (network.setSession side ((network.session side).disconnect reason tick).1, .other)
  | .reconnect side remote tick =>
    let (session, _) :=
      (reconnect remote tick).call (network.session side)
    (network.setSession side session, .other)

end Network

/-- The frames that a side emitted, oldest first. -/
def emittedBy (side : Side) (history : List (NetworkEvent × NetworkReply)) :
    List VmDistributedTransportFrame :=
  history.filterMap fun
    | (_, .emitted by_ frame) => if by_ = side then some frame else none
    | _ => none

/-- The frames that a side accepted, oldest first. -/
def acceptedBy (side : Side) (history : List (NetworkEvent × NetworkReply)) :
    List VmDistributedTransportFrame :=
  history.filterMap fun
    | (_, .accepted by_ frame) => if by_ = side then some frame else none
    | _ => none

/-! ## What one call does to a session -/

section Session

variable (session : VmDistributedTransportSession)

/-- The session as far as message ids go: nothing was emitted or accepted, and no
acknowledgement became pending. -/
structure SameIds (session session' : VmDistributedTransportSession) : Prop where
  next : session'.nextMessageId = session.nextMessageId
  accepted : session'.acceptedInboundMessageIds = session.acceptedInboundMessageIds
  nextInbound : session'.nextInboundMessageId = session.nextInboundMessageId
  pending : ∀ id ∈ session'.pendingAcks, id ∈ session.pendingAcks

theorem SameIds.refl : SameIds session session := ⟨rfl, rfl, rfl, fun _ => id⟩

theorem reserve_ok {allocator : VmMessageIdAllocator} {messageId : UInt64}
    (h : allocator.reserve = .ok messageId) : messageId.toNat = allocator.next.toNat + 1 := by
  unfold VmMessageIdAllocator.reserve at h
  split at h
  next room =>
    cases h
    rw [UInt64.toNat_add]
    exact Nat.mod_eq_of_lt room
  next => cases h

/-- An emitted frame takes the next id. A failed call changes nothing. -/
theorem encodeMessage_cases (capability : String) (payload : ReplValue) (refs : List TetfVmRef)
    (declaredAtoms : List String) (delivery : VmDistributionDelivery) :
    (∃ error, (encodeMessage capability payload refs declaredAtoms
        delivery).call session = (session, .error error)) ∨
      ∃ frame session', (encodeMessage capability payload refs
          declaredAtoms delivery).call session = (session', .ok frame) ∧
        frame.messageId.toNat = session.nextMessageId.next.toNat + 1 ∧
          session'.nextMessageId = ⟨frame.messageId⟩ ∧
            session'.acceptedInboundMessageIds = session.acceptedInboundMessageIds ∧
              session'.nextInboundMessageId = session.nextInboundMessageId ∧
                ∀ id ∈ session'.pendingAcks, id = frame.messageId ∨ id ∈ session.pendingAcks := by
  unfold encodeMessage
  rw [call_get_bind, call_check_bind]
  cases session.requireConnected with
  | error error => exact .inl ⟨error, rfl⟩
  | ok connected =>
  dsimp only
  rw [call_check_bind]
  cases reserved : session.nextMessageId.reserve with
  | error error => exact .inl ⟨error, rfl⟩
  | ok messageId =>
  dsimp only
  rw [call_check_bind]
  cases VmCoordinationEnvelope.new messageId session.localProfile session.remote capability with
  | error error => exact .inl ⟨error, rfl⟩
  | ok envelope =>
  dsimp only
  rw [call_check_bind]
  cases mapSizeError envelope.traceId (encodeTetfDistributionEnvelopeBounded
      (envelope.toTetfDistributionEnvelope refs payload) declaredAtoms
        session.maxMessageBytes) with
  | error error => exact .inl ⟨error, rfl⟩
  | ok bytes =>
  dsimp only
  rw [call_modify_bind]
  refine .inr ?_
  by_cases acked : delivery = .needsAck
  · rw [if_pos acked, call_modify_bind]
    refine ⟨_, _, rfl, reserve_ok reserved, rfl, rfl, rfl, ?_⟩
    intro id mem
    rw [ExtTreeSet.mem_insert, Std.compare_eq_iff_eq] at mem
    exact mem.imp_left Eq.symm
  · rw [if_neg acked]
    exact ⟨_, _, rfl, reserve_ok reserved, rfl, rfl, rfl, fun id mem => .inr mem⟩

theorem encodeMessage_failed {capability : String} {payload : ReplValue} {refs : List TetfVmRef}
    {declaredAtoms : List String} {delivery : VmDistributionDelivery} {error : String}
    (h : ((encodeMessage capability payload refs declaredAtoms
      delivery).call session).2 = .error error) :
    ((encodeMessage capability payload refs declaredAtoms delivery).call session).1 = session := by
  rcases encodeMessage_cases session capability payload refs declaredAtoms delivery with
    ⟨_, eq⟩ | ⟨_, _, eq, -⟩
  · rw [eq]
  · rw [eq] at h
    cases h

/-- A frame is accepted when it carries the expected id for the first time. Any other outcome
changes nothing. -/
theorem acceptInboundFrame_cases (frame : VmDistributedTransportFrame)
    (declaredAtoms : List String) :
    (∃ result, (acceptInboundFrame frame declaredAtoms).call session =
        (session, result) ∧ result ≠ .ok .accepted) ∨
      ∃ session', (acceptInboundFrame frame declaredAtoms).call
          session = (session', .ok .accepted) ∧
        frame.messageId ∉ session.acceptedInboundMessageIds ∧
          frame.messageId = session.nextInboundMessageId ∧
            session'.nextMessageId = session.nextMessageId ∧
              session'.pendingAcks = session.pendingAcks ∧ session'.acceptedInboundMessageIds =
                    session.acceptedInboundMessageIds.insert frame.messageId ∧
                  session'.nextInboundMessageId =
                    stepOverAccepted session'.acceptedInboundMessageIds
                      session'.acceptedInboundMessageIds.size session.nextInboundMessageId := by
  unfold acceptInboundFrame
  rw [call_get_bind, call_check_bind]
  cases session.requireConnected with
  | error error => exact .inl ⟨_, rfl, by simp⟩
  | ok connected =>
  dsimp only
  rw [call_check_bind]
  cases session.validateInboundFrame frame declaredAtoms with
  | error error => exact .inl ⟨_, rfl, by simp⟩
  | ok valid =>
  dsimp only
  split
  next => exact .inl ⟨_, rfl, by simp⟩
  next fresh =>
    split
    next => exact .inl ⟨_, rfl, by simp⟩
    next expected =>
      exact .inr ⟨_, rfl, fun mem => fresh (ExtTreeSet.contains_iff_mem.mpr mem),
        not_not.mp expected, rfl, rfl, rfl, rfl⟩

theorem acknowledge_sameIds (messageId : UInt64) : SameIds session
      ((acknowledge messageId).call session).1 := by
  unfold acknowledge
  rw [call_get_bind, call_check_bind]
  cases session.requireConnected with
  | error error => exact .refl session
  | ok connected =>
  dsimp only
  split
  next => exact ⟨rfl, rfl, rfl, fun id mem => ExtTreeSet.mem_of_mem_erase mem⟩
  next => exact .refl session

theorem disconnect_sameIds (reason : VmDistributedDisconnectReason) (tick : UInt64) :
    SameIds session (session.disconnect reason tick).1 := ⟨rfl, rfl, rfl, fun _ => id⟩

theorem reconnect_sameIds (remote : VmCoordinationProfile) (tick : UInt64) :
    SameIds session ((reconnect remote tick).call session).1 := by
  unfold reconnect
  rw [call_get_bind, call_check_bind]
  split
  next =>
    rw [call_check_bind]
    split
    next =>
      rw [call_check_bind]
      split
      next =>
        split
        next => exact .refl session
        next => exact ⟨rfl, rfl, rfl, fun _ => id⟩
      next => exact .refl session
    next => exact .refl session
  next => exact .refl session

end Session

/-! ## One direction -/

/-- Both ends of a direction against its history. -/
structure Ledger (sender receiver : VmDistributedTransportSession)
    (inFlight emitted accepted : List VmDistributedTransportFrame) : Prop where
  emittedIds : emitted.map (·.messageId.toNat) = List.range' 1 emitted.length
  next : sender.nextMessageId.next.toNat = emitted.length
  pending : ∀ id ∈ sender.pendingAcks, id ∈ emitted.map (·.messageId)
  onTheWay : ∀ frame ∈ inFlight, frame ∈ emitted
  delivered : accepted <+: emitted
  acceptedIds : ∀ id, id ∈ receiver.acceptedInboundMessageIds ↔
    1 ≤ id.toNat ∧ id.toNat ≤ accepted.length
  nextInbound : receiver.nextInboundMessageId = UInt64.ofNat (accepted.length + 1)

namespace Ledger

variable {sender sender' receiver receiver' : VmDistributedTransportSession}
  {inFlight inFlight' emitted accepted : List VmDistributedTransportFrame}

section

variable (h : Ledger sender receiver inFlight emitted accepted)
include h

theorem sender_same (next_eq : sender'.nextMessageId = sender.nextMessageId)
    (pending : ∀ id ∈ sender'.pendingAcks, id ∈ sender.pendingAcks) :
    Ledger sender' receiver inFlight emitted accepted :=
  { h with
    next := by rw [next_eq, h.next]
    pending := fun id mem => h.pending id (pending id mem) }

theorem receiver_same
    (accepted_eq : receiver'.acceptedInboundMessageIds = receiver.acceptedInboundMessageIds)
    (next_eq : receiver'.nextInboundMessageId = receiver.nextInboundMessageId) :
    Ledger sender receiver' inFlight emitted accepted :=
  { h with
    acceptedIds := by rw [accepted_eq]; exact h.acceptedIds
    nextInbound := by rw [next_eq, h.nextInbound] }

theorem inFlight_of (subset : ∀ frame ∈ inFlight', frame ∈ inFlight) :
    Ledger sender receiver inFlight' emitted accepted :=
  { h with onTheWay := fun frame mem => h.onTheWay frame (subset frame mem) }

end

variable {frame : VmDistributedTransportFrame}

theorem emit (h : Ledger sender receiver inFlight emitted accepted)
    (id : frame.messageId.toNat = sender.nextMessageId.next.toNat + 1)
    (next : sender'.nextMessageId = ⟨frame.messageId⟩)
    (pending : ∀ id ∈ sender'.pendingAcks, id = frame.messageId ∨ id ∈ sender.pendingAcks) :
    Ledger sender' receiver (frame :: inFlight) (emitted ++ [frame]) accepted where
  emittedIds := by
    rw [map_append, h.emittedIds, length_append, length_singleton,
      range'_concat, map_singleton, id, h.next, Nat.one_mul, Nat.add_comm 1]
  next := by
    rw [next, length_append, length_singleton, id, h.next]
  pending := by
    intro id mem
    rw [map_append, mem_append]
    rcases pending id mem with rfl | mem
    · exact .inr (by simp)
    · exact .inl (h.pending id mem)
  onTheWay := by
    intro other mem
    rw [mem_append]
    rcases mem_cons.mp mem with rfl | mem
    · exact .inr mem_cons_self
    · exact .inl (h.onTheWay other mem)
  delivered := h.delivered.trans (prefix_append _ _)
  acceptedIds := h.acceptedIds
  nextInbound := h.nextInbound

/-- Fewer frames are emitted than there are ids. -/
theorem accepted_lt (h : Ledger sender receiver inFlight emitted accepted) :
    accepted.length < 2 ^ 64 := by
  have := h.delivered.length_le
  have := sender.nextMessageId.next.toNat_lt
  have := h.next
  omega

/-- The id of an emitted frame is its position. -/
theorem getElem?_emitted
    (h : Ledger sender receiver inFlight emitted accepted) (mem : frame ∈ emitted) :
    1 ≤ frame.messageId.toNat ∧ emitted[frame.messageId.toNat - 1]? = some frame := by
  obtain ⟨i, inside, rfl⟩ := mem_iff_getElem.mp mem
  have id : emitted[i].messageId.toNat = 1 + 1 * i := by
    have bound : i < (emitted.map (·.messageId.toNat)).length := by simpa using inside
    have entry : (emitted.map (·.messageId.toNat))[i] = 1 + 1 * i := by
      simp only [h.emittedIds, getElem_range']
    rwa [getElem_map] at entry
  refine ⟨by omega, ?_⟩
  rw [id, Nat.one_mul, Nat.add_sub_cancel_left]
  exact getElem?_eq_getElem inside

/-- The id behind `k` accepted ones is none of them, even where the numbers wrap around. -/
theorem next_fresh {ids : ExtTreeSet UInt64} {k : Nat} (bound : k < 2 ^ 64)
    (members : ∀ id : UInt64, id ∈ ids ↔ 1 ≤ id.toNat ∧ id.toNat ≤ k) :
    UInt64.ofNat (k + 1) ∉ ids := by
  rw [members, UInt64.toNat_ofNat']
  by_cases wraps : k + 1 = 2 ^ 64
  · rw [wraps, Nat.mod_self]
    omega
  · rw [Nat.mod_eq_of_lt (by omega)]
    omega

/-- The loop behind an accepted id makes one step. -/
theorem stepOver_next {ids : ExtTreeSet UInt64} {k : Nat} (bound : k + 1 < 2 ^ 64)
    (members : ∀ id : UInt64, id ∈ ids ↔ 1 ≤ id.toNat ∧ id.toNat ≤ k + 1) :
    stepOverAccepted ids ids.size (UInt64.ofNat (k + 1)) = UInt64.ofNat (k + 1 + 1) := by
  have isMember : UInt64.ofNat (k + 1) ∈ ids := by
    rw [members, UInt64.toNat_ofNat', Nat.mod_eq_of_lt bound]
    omega
  have contains : ids.contains (UInt64.ofNat (k + 1)) = true :=
    ExtTreeSet.contains_iff_mem.mpr isMember
  have stops : ¬ ids.contains (UInt64.ofNat (k + 1 + 1)) = true := fun contained =>
    next_fresh bound members (ExtTreeSet.contains_iff_mem.mp contained)
  have step : UInt64.ofNat (k + 1) + 1 = UInt64.ofNat (k + 1 + 1) :=
    (UInt64.ofNat_add (k + 1) 1).symm
  cases size : ids.size with
  | zero =>
    have empty : ids = ∅ := ExtTreeSet.eq_empty_iff_size_eq_zero.mpr size
    rw [empty] at isMember
    exact absurd isMember ExtTreeSet.not_mem_empty
  | succ fuel =>
    rw [stepOverAccepted, if_pos contains, step]
    cases fuel with
    | zero => rfl
    | succ fuel => rw [stepOverAccepted, if_neg stops]

theorem accept (h : Ledger sender receiver inFlight emitted accepted) (mem : frame ∈ emitted)
    (expected : frame.messageId = receiver.nextInboundMessageId)
    (accepted_eq : receiver'.acceptedInboundMessageIds =
      receiver.acceptedInboundMessageIds.insert frame.messageId)
    (next_eq : receiver'.nextInboundMessageId = stepOverAccepted receiver'.acceptedInboundMessageIds
        receiver'.acceptedInboundMessageIds.size receiver.nextInboundMessageId) :
    Ledger sender receiver' inFlight emitted (accepted ++ [frame]) := by
  obtain ⟨positive, position⟩ := h.getElem?_emitted mem
  have bound := h.accepted_lt
  rw [h.nextInbound] at expected
  have id : frame.messageId.toNat = accepted.length + 1 := by
    have id := congrArg UInt64.toNat expected
    rw [UInt64.toNat_ofNat'] at id
    by_cases wraps : accepted.length + 1 = 2 ^ 64
    · rw [wraps, Nat.mod_self] at id
      omega
    · rw [id, Nat.mod_eq_of_lt (by omega)]
  have room : accepted.length + 1 < 2 ^ 64 := by
    have := frame.messageId.toNat_lt
    omega
  rw [id, Nat.add_sub_cancel] at position
  have acceptedIds : ∀ id, id ∈ receiver'.acceptedInboundMessageIds ↔
      1 ≤ id.toNat ∧ id.toNat ≤ accepted.length + 1 := by
    intro other
    rw [accepted_eq, ExtTreeSet.mem_insert, Std.compare_eq_iff_eq, h.acceptedIds]
    constructor
    · rintro (rfl | ⟨_, _⟩) <;> omega
    · rintro ⟨_, _⟩
      by_cases last : other.toNat = accepted.length + 1
      · exact .inl (UInt64.toNat_inj.mp (by rw [id, last]))
      · exact .inr (by omega)
  refine { h with delivered := ?_, acceptedIds := ?_, nextInbound := ?_ }
  · obtain ⟨inside, eq⟩ := List.getElem?_eq_some_iff.mp position
    have taken := prefix_iff_eq_take.mp h.delivered
    rw [prefix_iff_eq_take, length_append, length_singleton,
      ← take_append_getElem inside, ← taken, eq]
  · rw [length_append, length_singleton]
    exact acceptedIds
  · rw [length_append, length_singleton, next_eq, h.nextInbound]
    exact stepOver_next room acceptedIds

end Ledger

/-! ## Runs -/

/-- The ledger of the direction that starts at `side`. -/
def Network.Direction (network : Network) (side : Side)
    (history : List (NetworkEvent × NetworkReply)) : Prop :=
  Ledger (network.session side) (network.session side.peer) (network.inFlight side.peer)
    (emittedBy side history) (acceptedBy side.peer history)

theorem Side.peer_peer (side : Side) : side.peer.peer = side := by
  cases side <;> rfl

theorem Side.peer_ne (side : Side) : side.peer ≠ side := by
  cases side <;> decide

theorem Side.eq_or_peer (side other : Side) : side = other ∨ side = other.peer := by
  cases side <;> cases other <;> decide

section Histories

variable {history : List (NetworkEvent × NetworkReply)} {event : NetworkEvent} {network : Network}
  {side : Side}

theorem emittedBy_concat (side : Side) (reply : NetworkReply) :
    emittedBy side (history ++ [(event, reply)]) =
      emittedBy side history ++ emittedBy side [(event, reply)] :=
  filterMap_append

theorem acceptedBy_concat (side : Side) (reply : NetworkReply) :
    acceptedBy side (history ++ [(event, reply)]) =
      acceptedBy side history ++ acceptedBy side [(event, reply)] :=
  filterMap_append

section

variable (h : network.Direction side history)
include h

/-- Events that neither emit nor accept. -/
theorem Network.Direction.other :
    network.Direction side (history ++ [(event, .other)]) := by
  unfold Network.Direction at h ⊢
  rw [emittedBy_concat, acceptedBy_concat]
  simpa [emittedBy, acceptedBy] using h

/-- A session that keeps its ids keeps both directions. -/
theorem Network.Direction.setSession {at_ : Side} {session' : VmDistributedTransportSession}
    (same : SameIds (network.session at_) session') :
    (network.setSession at_ session').Direction side history := by
  unfold Network.Direction Network.setSession at *
  dsimp only
  rcases side.eq_or_peer at_ with rfl | rfl
  · rw [update_self, update_of_ne side.peer_ne]
    exact h.sender_same same.next same.pending
  · rw [at_.peer_peer] at h ⊢
    rw [update_self, update_of_ne at_.peer_ne]
    exact h.receiver_same same.accepted same.nextInbound

/-- The network may hold any of the frames it held before. -/
theorem Network.Direction.setInFlight {at_ : Side} {frames : List VmDistributedTransportFrame}
    (subset : ∀ frame ∈ frames, frame ∈ network.inFlight at_) :
    (network.setInFlight at_ frames).Direction side history := by
  unfold Network.Direction Network.setInFlight at *
  dsimp only
  by_cases own : side.peer = at_
  · subst own
    rw [update_self]
    exact h.inFlight_of subset
  · rw [update_of_ne own]
    exact h

/-- An arriving frame that the session accepts is the next one of its peer. -/
theorem deliver_accepted {at_ : Side} {frame : VmDistributedTransportFrame}
    {frames : List VmDistributedTransportFrame} {session' : VmDistributedTransportSession}
    (mem : frame ∈ network.inFlight at_) (subset : ∀ frame ∈ frames, frame ∈ network.inFlight at_)
    (expected : frame.messageId = (network.session at_).nextInboundMessageId)
    (next : session'.nextMessageId = (network.session at_).nextMessageId)
    (pending : session'.pendingAcks = (network.session at_).pendingAcks)
    (ids : session'.acceptedInboundMessageIds =
      (network.session at_).acceptedInboundMessageIds.insert frame.messageId)
    (nextInbound : session'.nextInboundMessageId =
      stepOverAccepted session'.acceptedInboundMessageIds
        session'.acceptedInboundMessageIds.size (network.session at_).nextInboundMessageId) :
    ((network.setInFlight at_ frames).setSession at_ session').Direction side
      (history ++ [(event, .accepted at_ frame)]) := by
  have left := h.setInFlight subset
  unfold Network.Direction Network.setInFlight Network.setSession at *
  rw [emittedBy_concat, acceptedBy_concat]
  dsimp only at *
  rcases side.eq_or_peer at_ with rfl | rfl
  · rw [update_self, update_of_ne side.peer_ne]
    simp only [emittedBy, acceptedBy, filterMap_cons, filterMap_nil,
      if_neg side.peer_ne.symm, append_nil]
    exact left.sender_same next fun id mem => by rwa [pending] at mem
  · rw [at_.peer_peer] at left h ⊢
    rw [update_self, update_of_ne at_.peer_ne]
    simp only [emittedBy, acceptedBy, filterMap_cons, filterMap_nil, if_true,
      append_nil]
    exact left.accept (h.onTheWay frame mem) expected ids nextInbound

end

/-- Step lemma for an arriving frame. -/
theorem deliver_direction (at_ : Side) (index : Nat) (declaredAtoms : List String)
    (h : network.Direction side history) :
    (network.call (.deliver at_ index declaredAtoms)).1.Direction side
      (history ++ [(event, (network.call (.deliver at_ index declaredAtoms)).2)]) := by
  cases arriving : (network.inFlight at_)[index]? with
  | none =>
    simp only [Network.call, arriving]
    exact h.other
  | some frame =>
    have mem : frame ∈ network.inFlight at_ := mem_of_getElem? arriving
    have subset : ∀ frame ∈ (network.inFlight at_).eraseIdx index, frame ∈ network.inFlight at_ :=
      fun _ => mem_of_mem_eraseIdx
    simp only [Network.call, arriving]
    change (match (acceptInboundFrame frame declaredAtoms).call
      (network.session at_) with
        | (session, .ok .accepted) => _
        | (session, _) => _ : Network × NetworkReply).1.Direction side
          (history ++ [(event, (match (acceptInboundFrame frame
            declaredAtoms).call (network.session at_) with
              | (session, .ok .accepted) => _
              | (session, _) => _ : Network × NetworkReply).2)])
    rcases acceptInboundFrame_cases (network.session at_) frame declaredAtoms with
      ⟨result, eq, refused⟩ | ⟨session', eq, -, expected, next, pending, ids, nextInbound⟩
    · rw [eq]
      split
      next same => cases same; exact absurd rfl refused
      next same => cases same; exact ((h.setInFlight subset).setSession (.refl _)).other
    · rw [eq]
      exact deliver_accepted h mem subset expected next pending ids nextInbound

/-- Step lemma: an event keeps the ledgers. -/
theorem call_direction (event : NetworkEvent) (h : network.Direction side history) :
    (network.call event).1.Direction side (history ++ [(event, (network.call event).2)]) := by
  cases event with
  | send at_ capability payload refs declaredAtoms delivery =>
    rcases encodeMessage_cases (network.session at_) capability payload refs declaredAtoms
      delivery with ⟨error, eq⟩ | ⟨frame, session', eq, id, next, accepted, nextInbound, pending⟩
    · simp only [Network.call, eq]
      exact (h.setSession (.refl _)).other
    simp only [Network.call, eq]
    unfold Network.Direction Network.setInFlight Network.setSession at *
    rw [emittedBy_concat, acceptedBy_concat]
    dsimp only
    rcases side.eq_or_peer at_ with rfl | rfl
    · rw [update_self, update_self, update_of_ne side.peer_ne]
      simp only [emittedBy, acceptedBy, filterMap_cons, filterMap_nil, if_true,
        append_nil]
      exact h.emit id next pending
    · rw [at_.peer_peer] at h ⊢
      rw [update_self, update_of_ne at_.peer_ne,
        update_of_ne at_.peer_ne.symm]
      simp only [emittedBy, acceptedBy, filterMap_cons, filterMap_nil,
        if_neg at_.peer_ne.symm, append_nil]
      exact h.receiver_same accepted nextInbound
  | deliver at_ index declaredAtoms => exact deliver_direction at_ index declaredAtoms h
  | lose at_ index => exact (h.setInFlight fun _ => mem_of_mem_eraseIdx).other
  | duplicate at_ index =>
    cases again : (network.inFlight at_)[index]? with
    | none =>
      simp only [Network.call, again]
      exact h.other
    | some frame =>
      simp only [Network.call, again]
      refine (h.setInFlight fun other mem => ?_).other
      rcases mem_cons.mp mem with rfl | mem
      · exact mem_of_getElem? again
      · exact mem
  | acknowledge at_ messageId =>
    exact (h.setSession (acknowledge_sameIds (network.session at_) messageId)).other
  | disconnect at_ reason tick =>
    exact (h.setSession (disconnect_sameIds (network.session at_) reason tick)).other
  | reconnect at_ remote tick =>
    exact (h.setSession (reconnect_sameIds (network.session at_) remote tick)).other

end Histories

/-- Two sessions that were just opened have emitted and accepted nothing. -/
theorem new_direction {localProfile remote localProfile' remote' : VmCoordinationProfile}
    {maxMessageBytes maxMessageBytes' : Nat} {left right : VmDistributedTransportSession}
    (openLeft : openSession localProfile remote maxMessageBytes = .ok left)
    (openRight : openSession localProfile' remote' maxMessageBytes' = .ok right) (side : Side) :
    (Network.new left right).Direction side [] := by
  have opened : ∀ {localProfile remote maxMessageBytes session},
      openSession localProfile remote maxMessageBytes = .ok session →
        session.nextMessageId = ⟨0⟩ ∧ session.pendingAcks = ∅ ∧
          session.acceptedInboundMessageIds = ∅ ∧ session.nextInboundMessageId = 1 := by
    intro localProfile remote maxMessageBytes session h
    unfold openSession at h
    split at h
    · cases h
    split at h
    next => cases h
    next => cases h; exact ⟨rfl, rfl, rfl, rfl⟩
  have fresh : ∀ sender receiver : VmDistributedTransportSession,
      sender.nextMessageId = ⟨0⟩ → sender.pendingAcks = ∅ →
        receiver.acceptedInboundMessageIds = ∅ → receiver.nextInboundMessageId = 1 →
          Ledger sender receiver [] [] [] := by
    intro sender receiver next pending ids nextInbound
    refine ⟨rfl, by rw [next]; rfl, ?_, by simp, prefix_rfl, ?_, by rw [nextInbound]; rfl⟩
    · intro id mem
      rw [pending] at mem
      exact absurd mem ExtTreeSet.not_mem_empty
    · intro id
      rw [ids]
      refine iff_of_false ExtTreeSet.not_mem_empty ?_
      rintro ⟨positive, none⟩
      exact absurd (Nat.le_trans positive none) (by decide)
  obtain ⟨next, pending, ids, nextInbound⟩ := opened openLeft
  obtain ⟨next', pending', ids', nextInbound'⟩ := opened openRight
  cases side with
  | left => exact fresh left right next pending ids' nextInbound'
  | right => exact fresh right left next' pending' ids nextInbound

/-- Run lemma: every run keeps the ledgers. -/
theorem run_direction {network : Network} {side : Side} (events : List NetworkEvent)
    (h : network.Direction side []) : (replay Network.call network events).1.Direction side
      (replay Network.call network events).2 :=
  replay_invariant Network.call (fun network history => network.Direction side history)
    (fun _ _ event h => call_direction event h) network [] events h

/-- The accepted frames of a direction against the emitted ones. -/
structure ExactlyOnceInOrder (emitted accepted : List VmDistributedTransportFrame) : Prop where
  /-- The ids count up from the start of the session. -/
  inOrder : accepted.map (·.messageId.toNat) = List.range' 1 accepted.length
  once : (accepted.map (·.messageId)).Nodup
  /-- Every accepted frame was emitted, and none before it was left out. -/
  delivered : accepted <+: emitted

theorem Ledger.exactlyOnceInOrder {sender receiver : VmDistributedTransportSession}
    {inFlight emitted accepted : List VmDistributedTransportFrame}
    (h : Ledger sender receiver inFlight emitted accepted) :
    ExactlyOnceInOrder emitted accepted := by
  have inOrder : accepted.map (·.messageId.toNat) = List.range' 1 accepted.length := by
    have taken := prefix_iff_eq_take.mp h.delivered
    have shorter := h.delivered.length_le
    conv_lhs => rw [taken, map_take, h.emittedIds, take_range'_of_length_ge shorter]
  refine ⟨inOrder, ?_, h.delivered⟩
  have nodup : ((accepted.map (·.messageId)).map UInt64.toNat).Nodup := by
    rw [map_map]
    change (accepted.map (·.messageId.toNat)).Nodup
    rw [inOrder]
    exact nodup_range'
  exact nodup.of_map _

/-- In every run of two sessions over a network that loses, repeats and reorders frames,
with any disconnects and reconnects, each session accepts the frames of its peer once and in
order, each acknowledgement it waits for is of a frame it emitted, and a failed call to
`encode_message` leaves its session as it was. -/
theorem exactly_once_in_order {localProfile remote localProfile' remote' : VmCoordinationProfile}
    {maxMessageBytes maxMessageBytes' : Nat} {left right : VmDistributedTransportSession}
    (openLeft : openSession localProfile remote maxMessageBytes =
      .ok left)
    (openRight : openSession localProfile' remote' maxMessageBytes' =
      .ok right) (events : List NetworkEvent) (side : Side) :
    let run := replay Network.call (.new left right) events
    ExactlyOnceInOrder (emittedBy side run.2) (acceptedBy side.peer run.2) ∧
      (∀ id ∈ (run.1.session side).pendingAcks, id ∈ (emittedBy side run.2).map (·.messageId)) ∧
        ∀ capability payload refs declaredAtoms delivery error,
          let call := (encodeMessage capability payload refs
            declaredAtoms delivery).call (run.1.session side)
          call.2 = .error error → call.1 = run.1.session side := by
  intro run
  have ledger := run_direction events (new_direction openLeft openRight side)
  exact ⟨ledger.exactlyOnceInOrder, ledger.pending,
    fun _ _ _ _ _ _ => encodeMessage_failed (run.1.session side)⟩

theorem chat_fields {nodeId : String} (named : isBlank nodeId = false) :
    ∀ value ∈ ["app", "vm", nodeId, "cluster", "1"], isBlank value = false := by
  have fixed : ∀ value ∈ ["app", "vm", "cluster", "1"], isBlank value = false := by decide
  simp only [forall_mem_cons] at fixed ⊢
  exact ⟨fixed.1, fixed.2.1, named, fixed.2.2.1, fixed.2.2.2.1, by simp⟩

theorem chat_epoch : (1 : UInt64) ≠ 0 := by decide

theorem chat_capabilities :
    ∀ value ∈ (ExtTreeSet.ofList ["chat"] : ExtTreeSet String).toList, isBlank value = false := by
  decide

/-- A node that takes chat messages. -/
def chatProfile (nodeId : String) (named : isBlank nodeId = false) : VmCoordinationProfile where
  appId := "app"
  vmId := "vm"
  nodeId := nodeId
  clusterId := "cluster"
  epoch := 1
  runtimeVersion := "1"
  capabilities := ExtTreeSet.ofList ["chat"]
  fields_nonblank := chat_fields named
  epoch_nonzero := chat_epoch
  capabilities_nonblank := chat_capabilities

/-- The second of two messages overtakes the first, and the first arrives twice. -/
theorem exactly_once_in_order_overtaken :
    let a := chatProfile "node-a" (by decide)
    let b := chatProfile "node-b" (by decide)
    ∃ left right,
      openSession a b 512 = .ok left ∧
      openSession b a 512 = .ok right ∧
      let run := replay Network.call (.new left right)
        [.send .left "chat" .unit [] [] .needsAck, .send .left "chat" (.bool true) [] [] .atMostOnce,
          .duplicate .right 1, .deliver .right 1 [], .deliver .right 0 [], .deliver .right 0 []]
      ExactlyOnceInOrder (emittedBy .left run.2) (acceptedBy .right run.2) ∧
        ∀ id ∈ (run.1.session .left).pendingAcks, id ∈ (emittedBy .left run.2).map (·.messageId) := by
  intro a b
  refine ⟨_, _, rfl, rfl, ?_⟩
  have guarantee := @exactly_once_in_order a b b a 512 512 _ _ rfl rfl
    [.send .left "chat" .unit [] [] .needsAck, .send .left "chat" (.bool true) [] [] .atMostOnce,
      .duplicate .right 1, .deliver .right 1 [], .deliver .right 0 [], .deliver .right 0 []] .left
  exact ⟨guarantee.1, guarantee.2.1⟩

end Terlan.Coordination
