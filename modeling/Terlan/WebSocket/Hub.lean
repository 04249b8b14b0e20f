/-
  The hub that pairs WebSocket sessions. A session joins a route: the first one waits, the
  second one is matched with it, and a room that is kept for its players can be joined again
  by either. Source callbacks run between the start of an admission and its completion, and
  between the snapshot and the publication of a room transition, without the lock of the hub;
  each method here is what one critical section does, and a run is any order of them.

  A session owns the sending end of a bounded channel. The connection at the other end takes
  messages and goes away at any time, and the message to the peer of a session that left is
  sent after the lock is released, so these are steps of their own.
-/
import Mathlib.Data.List.Sort
import Terlan.Lib.Machine
import Terlan.Lib.Method
import Terlan.Lib.Replay
import Terlan.Lib.TreeMap

namespace Terlan.WebSocket

open Terlan.Lib
open Std (ExtTreeMap TransOrd LawfulEqOrd TransCmp)

abbrev ServiceError := String

/-! ## Channels -/

/-- Both ends of `sync_channel(bound)`. -/
structure SyncChannel where
  bound : Nat
  queued : List String
  receiving : Bool

inductive TrySendError where
  | full
  | disconnected

def syncChannel (bound : Nat) : SyncChannel := ⟨bound, [], true⟩

def SyncChannel.trySend (channel : SyncChannel) (payload : String) :
    Except TrySendError SyncChannel :=
  if ¬ channel.receiving then .error .disconnected
  else if channel.bound ≤ channel.queued.length then .error .full
  else .ok { channel with queued := channel.queued ++ [payload] }

/-- The text of a failed send. -/
def TrySendError.text : TrySendError → ServiceError
  | .full => "error[serve.websocket.backpressure]: outbound session queue is full"
  | .disconnected => "error[serve.websocket.transport]: outbound session is disconnected"

def sendHubPayload (sender : SyncChannel) (payload : String) : Except ServiceError SyncChannel :=
  (sender.trySend payload).mapError TrySendError.text

/-! ## Time -/

/-- Nanoseconds of the monotonic clock. -/
abbrev Instant := Nat

/-- The first time that an `Instant`, with its seconds in an `i64`, cannot hold. -/
def instantEnd : Nat := 2 ^ 63 * 10 ^ 9

/-- `Instant::checked_add`. -/
def instantCheckedAdd (now : Instant) (duration : Nat) : Option Instant :=
  if now + duration < instantEnd then some (now + duration) else none

/-! ## Plans -/

structure WebSocketRestoration where
  retentionMs : UInt64
  retainedRoomCapacity : Nat

structure WebSocketPairing where
  waiting : String
  firstMatched : String
  secondMatched : String
  peerLeft : String
  restoration : Option WebSocketRestoration

/-! ## State -/

structure WebSocketHubSession where
  outbound : SyncChannel
  pair : Option UInt64
  role : Int
  peerLeft : String

structure WebSocketHubPair where
  first : Option UInt64
  second : Option UInt64
  firstRequest : String
  secondRequest : String
  state : String
  revision : UInt64
  route : String
  roomId : Option String
  retention : Option Nat
  retainedRoomCapacity : Nat
  expiresAt : Option Instant

/-- The key of the room index: a route and a room of it. -/
structure RoomKey where
  route : String
  roomId : String
deriving DecidableEq

instance : Ord RoomKey where
  compare := compareLex (compareOn (·.route)) (compareOn (·.roomId))

theorem RoomKey.compare_def : compare (α := RoomKey) =
    compareLex (compareOn (·.route)) (compareOn (·.roomId)) :=
  rfl

instance : TransOrd RoomKey := inferInstanceAs (TransCmp (compareLex _ _))

instance : LawfulEqOrd RoomKey where
  eq_of_compare {a b} h := by
    obtain ⟨route, roomId⟩ := a
    obtain ⟨route', roomId'⟩ := b
    simp only [RoomKey.compare_def, compareLex_eq_eq, compareOn] at h
    rw [LawfulEqOrd.eq_of_compare h.1, LawfulEqOrd.eq_of_compare h.2]

structure WebSocketHubState where
  nextId : UInt64 := 0
  nextRoom : Int := 0
  waiting : ExtTreeMap String UInt64 := ∅
  rooms : ExtTreeMap RoomKey UInt64 := ∅
  sessions : ExtTreeMap UInt64 WebSocketHubSession := ∅
  pairs : ExtTreeMap UInt64 WebSocketHubPair := ∅

def i64Max : Int := 9223372036854775807

inductive WebSocketHubAdmission where
  | waiting
  | matched (pairId : UInt64) (sequence : Int) (firstRequest secondRequest : String)
  | restored (roomId state : String) (role : Int) (firstRequest secondRequest : String)
      (revision : UInt64)
deriving DecidableEq

structure WebSocketHubLease where
  id : UInt64
  admission : WebSocketHubAdmission
deriving DecidableEq

/-! ## Pairs -/

namespace WebSocketHubPair

/-- The pair of a session that waits. -/
def waitingFor (id : UInt64) (route requestTarget : String) : WebSocketHubPair :=
  { first := some id
    second := none
    firstRequest := requestTarget
    secondRequest := ""
    state := ""
    revision := 0
    route
    roomId := none
    retention := none
    retainedRoomCapacity := 0
    expiresAt := none }

/-- The pair of two sessions that were matched. -/
def matched (waitingId id : UInt64) (route firstRequest requestTarget : String)
    (pairing : WebSocketPairing) : WebSocketHubPair :=
  { first := some waitingId
    second := some id
    firstRequest
    secondRequest := requestTarget
    state := ""
    revision := 0
    route
    roomId := none
    retention := pairing.restoration.map fun restoration => restoration.retentionMs.toNat * 10 ^ 6
    retainedRoomCapacity :=
      pairing.restoration.elim 0 WebSocketRestoration.retainedRoomCapacity
    expiresAt := none }

/-- Whether the seat of a role has a player: `first` for role 1, `second` for the other. -/
def seatTaken (pair : WebSocketHubPair) (role : Int) : Bool :=
  if role = 1 then pair.first.isSome else pair.second.isSome

def takeSeat (pair : WebSocketHubPair) (role : Int) (id : UInt64) : WebSocketHubPair :=
  let pair :=
    if role = 1 then { pair with first := some id } else { pair with second := some id }
  { pair with revision := pair.revision + 1, expiresAt := none }

/-- The pair without one of its players. -/
def vacate (pair : WebSocketHubPair) (id : UInt64) : WebSocketHubPair :=
  { pair with
    revision := saturatingAdd pair.revision 1
    first := if pair.first = some id then none else pair.first
    second := if pair.second = some id then none else pair.second }

/-- The seat that is left. -/
def peer (pair : WebSocketHubPair) : Option UInt64 := pair.first.or pair.second

def restorable (pair : WebSocketHubPair) : Bool :=
  pair.retention.isSome && pair.roomId.isSome

end WebSocketHubPair

namespace WebSocketHubState

/-! ## Rooms that end -/

def removePair (state : WebSocketHubState) (pairId : UInt64) : WebSocketHubState :=
  match state.pairs[pairId]? with
  | none => state
  | some pair =>
    let state := { state with pairs := state.pairs.erase pairId }
    match pair.roomId with
    | none => state
    | some roomId => { state with rooms := state.rooms.erase ⟨pair.route, roomId⟩ }

/-- The pairs whose retention has ended. -/
def expired (state : WebSocketHubState) (now : Instant) : List UInt64 :=
  state.pairs.toList.filterMap fun entry =>
    (entry.2.expiresAt.filter fun expiresAt => decide (expiresAt ≤ now)).map fun _ => entry.1

def reapExpiredRooms (state : WebSocketHubState) (now : Instant) : WebSocketHubState :=
  (state.expired now).foldl removePair state

/-- The pairs of a route without a player, each with the end of its retention. -/
def retained (state : WebSocketHubState) (route : String) : List (Option Instant × UInt64) :=
  state.pairs.toList.filterMap fun entry =>
    if entry.2.route = route ∧ entry.2.first = none ∧ entry.2.second = none then
      some (entry.2.expiresAt, entry.1)
    else none

/-- The order of tuples, with `None` below every `Some`. -/
def RetainedLe : Option Instant × UInt64 → Option Instant × UInt64 → Prop
  | (none, id), (none, id') => id ≤ id'
  | (none, _), (some _, _) => True
  | (some _, _), (none, _) => False
  | (some time, id), (some time', id') => time < time' ∨ time = time' ∧ id ≤ id'

instance : DecidableRel RetainedLe
  | (none, id), (none, id') => inferInstanceAs (Decidable (id ≤ id'))
  | (none, _), (some _, _) => .isTrue trivial
  | (some _, _), (none, _) => .isFalse id
  | (some time, id), (some time', id') =>
    inferInstanceAs (Decidable (time < time' ∨ time = time' ∧ id ≤ id'))

/-- The rooms that a route gives up: those that end first. -/
def excess (state : WebSocketHubState) (route : String) (capacity : Nat) : List UInt64 :=
  let retained := (state.retained route).insertionSort RetainedLe
  (retained.take (retained.length - capacity)).map Prod.snd

def enforceRetainedCapacity (state : WebSocketHubState) (route : String) (capacity : Nat) :
    WebSocketHubState :=
  (state.excess route capacity).foldl removePair state

/-! ## Sending -/

def setOutbound (state : WebSocketHubState) (id : UInt64) (session : WebSocketHubSession)
    (outbound : SyncChannel) : WebSocketHubState :=
  { state with sessions := state.sessions.insert id { session with outbound } }

/-- A send to the session of a seat; an empty seat and a session that is gone get nothing. -/
def sendTo (recipient : Option UInt64) (payload : String) :
    Method ServiceError WebSocketHubState Unit := do
  let state ← get
  match recipient with
  | none => return
  | some id =>
    match state.sessions[id]? with
    | none => return
    | some session =>
      let outbound ← sendHubPayload session.outbound payload
      modify (setOutbound · id session outbound)

/-! ## Joining -/

def allocateId : Method ServiceError WebSocketHubState UInt64 := do
  let state ← get
  match checkedAdd state.nextId 1 with
  | none => throw "error[serve.websocket.hub]: session identifiers exhausted"
  | some id =>
    modify fun state => { state with nextId := id }
    return id

/-- A session that comes back to a seat of its room. -/
def joinRestored (id : UInt64) (route : String) (capacity : Nat) (pairing : WebSocketPairing)
    (roomId : String) (role : Int) : Method ServiceError WebSocketHubState WebSocketHubLease := do
  let state ← get
  match state.rooms[(⟨route, roomId⟩ : RoomKey)]? with
  | none => throw "error[serve.websocket.restore]: room not found"
  | some pairId =>
    match state.pairs[pairId]? with
    | none => throw "error[serve.websocket.restore]: room state disappeared"
    | some pair =>
      if pair.revision.toNat = u64Max then
        throw "error[serve.websocket.restore]: room revision exhausted"
      else if pair.seatTaken role then
        throw "error[serve.websocket.restore]: player is already connected"
      else
        let taken := pair.takeSeat role id
        modify fun state =>
          { state with
            pairs := state.pairs.insert pairId taken
            sessions := state.sessions.insert id
              ⟨syncChannel capacity, some pairId, role, pairing.peerLeft⟩ }
        return ⟨id, .restored roomId taken.state role taken.firstRequest taken.secondRequest
          taken.revision⟩

/-- Registers a session that found nobody on its route. -/
def admitWaiting (state : WebSocketHubState) (id : UInt64) (route requestTarget : String)
    (pairing : WebSocketPairing) (outbound : SyncChannel) : WebSocketHubState :=
  { state with
    sessions := state.sessions.insert id ⟨outbound, none, 1, pairing.peerLeft⟩
    waiting := state.waiting.insert route id
    pairs := state.pairs.insert id (.waitingFor id route requestTarget) }

/-- Registers a session and seats it beside the one that waits. -/
def admitMatched (state : WebSocketHubState) (waitingId id : UInt64)
    (first : WebSocketHubSession) (route firstRequest requestTarget : String)
    (pairing : WebSocketPairing) (outbound : SyncChannel) : WebSocketHubState :=
  { state with
    nextRoom := if pairing.restoration.isSome then state.nextRoom + 1 else state.nextRoom
    waiting := state.waiting.erase route
    sessions := (state.sessions.insert id ⟨outbound, some waitingId, 2, pairing.peerLeft⟩).insert
      waitingId { first with pair := some waitingId }
    pairs := state.pairs.insert waitingId
      (.matched waitingId id route firstRequest requestTarget pairing) }

/-- Only a pairing that keeps rooms counts them. -/
def matchedAdmission (waitingId : UInt64) (sequence : Int) (firstRequest requestTarget : String)
    (pairing : WebSocketPairing) : WebSocketHubAdmission :=
  if pairing.restoration.isSome then .matched waitingId sequence firstRequest requestTarget
  else .waiting

/-- The checks and sends of a match. Where rooms are kept, the payloads are sent when the
match completes. -/
def announceMatch (state : WebSocketHubState) (first : SyncChannel) (capacity : Nat)
    (pairing : WebSocketPairing) : Except ServiceError (SyncChannel × SyncChannel) :=
  if pairing.restoration.isSome then
    if state.nextRoom + 1 ≤ i64Max then .ok (first, syncChannel capacity)
    else .error "error[serve.websocket.hub]: room identifiers exhausted"
  else do
    let first ← sendHubPayload first pairing.firstMatched
    let outbound ← sendHubPayload (syncChannel capacity) pairing.secondMatched
    return (first, outbound)

/-- A session without an identity is matched with the one that waits, or waits. -/
def joinPaired (id : UInt64) (route requestTarget : String) (capacity : Nat)
    (pairing : WebSocketPairing) : Method ServiceError WebSocketHubState WebSocketHubLease := do
  let state ← get
  match state.waiting[route]? with
  | none =>
    let outbound ← sendHubPayload (syncChannel capacity) pairing.waiting
    modify (admitWaiting · id route requestTarget pairing outbound)
    return ⟨id, .waiting⟩
  | some waitingId =>
    match state.pairs[waitingId]? with
    | none => throw "error[serve.websocket.hub]: waiting metadata disappeared"
    | some pair =>
      match state.sessions[waitingId]? with
      | none => throw "error[serve.websocket.hub]: waiting session disappeared"
      | some first =>
        let (sent, outbound) ← announceMatch state first.outbound capacity pairing
        modify (admitMatched · waitingId id { first with outbound := sent } route
          pair.firstRequest requestTarget pairing outbound)
        return ⟨id, matchedAdmission waitingId (state.nextRoom + 1) pair.firstRequest
          requestTarget pairing⟩

/-- A resolved identity names a room of a pairing that keeps rooms, and a seat. -/
def InvalidIdentity (pairing : WebSocketPairing) : Option (String × Int) → Prop
  | none => False
  | some (room, role) => pairing.restoration = none ∨ room = "" ∨ ¬ (role = 1 ∨ role = 2)

instance (pairing : WebSocketPairing) : DecidablePred (InvalidIdentity pairing)
  | none => inferInstanceAs (Decidable False)
  | some (room, role) => inferInstanceAs
      (Decidable (pairing.restoration = none ∨ room = "" ∨ ¬ (role = 1 ∨ role = 2)))

def joinAt (route requestTarget : String) (capacity : Nat) (pairing : WebSocketPairing)
    (identity : Option (String × Int)) (now : Instant) :
    Method ServiceError WebSocketHubState WebSocketHubLease := do
  failIf (capacity = 0)
    "error[serve.websocket.backpressure]: outbound capacity must be positive"
  failIf (InvalidIdentity pairing identity)
    "error[serve.websocket.restore]: invalid resolved identity"
  modify (reapExpiredRooms · now)
  let id ← allocateId
  match identity with
  | some (roomId, role) => joinRestored id route capacity pairing roomId role
  | none => joinPaired id route requestTarget capacity pairing

/-! ## Completions -/

/-- Sends the view that a restored session starts from, unless the room changed meanwhile. -/
def completeRestoration (id revision : UInt64) (payload : String) :
    Method ServiceError WebSocketHubState Unit := do
  let state ← get
  match state.sessions[id]? with
  | none => throw "error[serve.websocket.hub]: session is no longer registered"
  | some session =>
    match session.pair.bind fun pairId => state.pairs[pairId]? with
    | none => throw "error[serve.websocket.restore]: room state disappeared"
    | some pair =>
      if pair.revision ≠ revision then
        throw "error[serve.websocket.restore]: room changed during restoration"
      else
        let outbound ← sendHubPayload session.outbound payload
        modify (setOutbound · id session outbound)

/-- The checks of a match completion. -/
def checkMatch (state : WebSocketHubState) (pairId : UInt64) (roomId : String) :
    Except ServiceError WebSocketHubPair :=
  match state.pairs[pairId]? with
  | none => .error "error[serve.websocket.pairing]: paired session state disappeared"
  | some pair =>
    if roomId = "" ∨ (⟨pair.route, roomId⟩ : RoomKey) ∈ state.rooms ∨ pair.roomId ≠ none then
      .error "error[serve.websocket.pairing]: empty or duplicate room identity"
    else if pair.first = none ∨ pair.second = none then
      .error "error[serve.websocket.pairing]: peer left before room admission"
    else if pair.revision ≠ 0 then
      .error "error[serve.websocket.pairing]: room changed during match admission"
    else .ok pair

/-- The pair becomes a room. -/
def admitRoom (state : WebSocketHubState) (pairId : UInt64) (pair : WebSocketHubPair)
    (roomId : String) : WebSocketHubState :=
  { state with
    pairs := state.pairs.insert pairId { pair with roomId := some roomId, revision := 1 }
    rooms := state.rooms.insert ⟨pair.route, roomId⟩ pairId }

/-- Publishes the room first and sends to its players then. -/
def completeMatch (pairId : UInt64) (roomId first second : String) :
    Method ServiceError WebSocketHubState Unit := do
  let state ← get
  let pair ← checkMatch state pairId roomId
  modify (admitRoom · pairId pair roomId)
  sendTo pair.first first
  sendTo pair.second second

/-! ## Leaving -/

/-- The session loses its pair. -/
def unpair (state : WebSocketHubState) (id : UInt64) : WebSocketHubState :=
  match state.sessions[id]? with
  | none => state
  | some session =>
    { state with sessions := state.sessions.insert id { session with pair := none } }

/-- What becomes of a pair that a player left. -/
def settle (state : WebSocketHubState) (pairId : UInt64) (pair : WebSocketHubPair)
    (now : Instant) : WebSocketHubState :=
  match pair.peer with
  | none =>
    if pair.restorable then
      let pair := { pair with expiresAt := pair.retention.bind (instantCheckedAdd now) }
      let state := { state with pairs := state.pairs.insert pairId pair }
      state.enforceRetainedCapacity pair.route pair.retainedRoomCapacity
    else { state with pairs := state.pairs.insert pairId pair }.removePair pairId
  | some peerId =>
    let state := { state with pairs := state.pairs.insert pairId pair }
    if pair.restorable then state else (state.removePair pairId).unpair peerId

/-- The session leaves. The reply is the message for its peer, which is sent later. -/
def leaveAt (state : WebSocketHubState) (id : UInt64) (now : Instant) :
    WebSocketHubState × Option (UInt64 × String) :=
  let state := { state with waiting := state.waiting.filter fun _ waitingId => waitingId != id }
  match state.sessions[id]? with
  | none => (state, none)
  | some session =>
    let state := { state with sessions := state.sessions.erase id }
    match session.pair with
    | none => ({ state with pairs := state.pairs.erase id }, none)
    | some pairId =>
      match state.pairs[pairId]? with
      | none => (state, none)
      | some pair =>
        let pair := pair.vacate id
        let state := state.settle pairId pair now
        (state, pair.peer.bind fun peerId =>
          state.sessions[peerId]?.map fun peer => (peerId, peer.peerLeft))

/-! ## Room transitions -/

/-- The session and its pair. -/
def current (state : WebSocketHubState) (id : UInt64) :
    Except ServiceError (WebSocketHubSession × Option WebSocketHubPair) :=
  match state.sessions[id]? with
  | none => .error "error[serve.websocket.hub]: session is no longer registered"
  | some session =>
    match session.pair with
    | none => .ok (session, none)
    | some pairId =>
      match state.pairs[pairId]? with
      | none => .error "error[serve.websocket.pairing]: paired session state disappeared"
      | some pair => .ok (session, some pair)

def changed : ServiceError := "error[serve.websocket.pairing]: room changed during source transition"

/-- What a transition remembers while its source callback runs. -/
structure TransitionTicket where
  id : UInt64
  pairId : Option UInt64
  revision : Option UInt64
  notLast : ∀ revision' : UInt64, revision = some revision' → revision'.toNat ≠ u64Max

/-- `PairContext`: the state of the room, the role of the session and both requests. -/
abbrev PairContext := String × Int × String × String

/-- Before the callback: the pair that the session had when it asked for the room is still
its own. -/
def snapshotTransition (state : WebSocketHubState) (id : UInt64) (pairId : Option UInt64) :
    Except ServiceError (TransitionTicket × Option PairContext) := do
  let (session, pair) ← state.current id
  if session.pair ≠ pairId then throw changed
  else if exhausted : ∃ revision : UInt64, pair.map (·.revision) = some revision ∧
      revision.toNat = u64Max then
    throw "error[serve.websocket.pairing]: room revision exhausted"
  else
    return (⟨id, pairId, pair.map (·.revision), fun revision same last =>
        exhausted ⟨revision, same, last⟩⟩,
      pair.map fun pair => (pair.state, session.role, pair.firstRequest, pair.secondRequest))

/-- After the callback: the result is published when neither the pair nor its revision
changed. -/
def publishTransition (ticket : TransitionTicket) (next : String)
    (first second : Option String) : Method ServiceError WebSocketHubState Unit := do
  let state ← get
  let (session, pair) ← state.current ticket.id
  if session.pair ≠ ticket.pairId ∨ pair.map (·.revision) ≠ ticket.revision then throw changed
  else
    match ticket.pairId, pair with
    | some pairId, some pair =>
      modify fun state =>
        { state with
          pairs := state.pairs.insert pairId
            { pair with state := next, revision := pair.revision + 1 } }
      first.forM (sendTo pair.first)
      second.forM (sendTo pair.second)
    | _, _ => first.forM (sendTo (some ticket.id))

/-! ## Runs -/

/-- The connection takes a message out of its channel. -/
def receive (state : WebSocketHubState) (id : UInt64) : WebSocketHubState × Option String :=
  match state.sessions[id]? with
  | none => (state, none)
  | some session =>
    (state.setOutbound id session
      { session.outbound with queued := session.outbound.queued.tail },
      session.outbound.queued.head?)

/-- The connection drops its end of the channel. -/
def disconnect (state : WebSocketHubState) (id : UInt64) : WebSocketHubState :=
  match state.sessions[id]? with
  | none => state
  | some session => state.setOutbound id session { session.outbound with receiving := false }

inductive HubRequest where
  | joinAt (route requestTarget : String) (capacity : Nat) (identity : Option (String × Int))
      (now : Instant)
  | completeRestoration (id revision : UInt64) (payload : String)
  | completeMatch (pairId : UInt64) (roomId first second : String)
  | leaveAt (id : UInt64) (now : Instant)
  | notifyPeer (id : UInt64) (payload : String)
  | snapshotTransition (id : UInt64) (pairId : Option UInt64)
  | publishTransition (ticket : TransitionTicket) (next : String) (first second : Option String)
  | receive (id : UInt64)
  | disconnect (id : UInt64)

inductive HubReply where
  | done
  | joined (lease : WebSocketHubLease)
  | left (notification : Option (UInt64 × String))
  | snapshot (ticket : TransitionTicket) (context : Option PairContext)
  | received (message : Option String)

def HubRequest.perform (plan : String → WebSocketPairing) :
    HubRequest → Method ServiceError WebSocketHubState HubReply
  | .joinAt route requestTarget capacity identity now =>
    .joined <$> WebSocketHubState.joinAt route requestTarget capacity (plan route) identity now
  | .completeRestoration id revision payload =>
    (fun _ => .done) <$> WebSocketHubState.completeRestoration id revision payload
  | .completeMatch pairId roomId first second =>
    (fun _ => .done) <$> WebSocketHubState.completeMatch pairId roomId first second
  | .leaveAt id now => .ofCall fun state =>
    ((state.leaveAt id now).1, .ok (.left (state.leaveAt id now).2))
  | .notifyPeer id payload => (fun _ => .done) <$> sendTo (some id) payload
  | .snapshotTransition id pairId => do
    let state ← get
    let (ticket, context) ← state.snapshotTransition id pairId
    return .snapshot ticket context
  | .publishTransition ticket next first second =>
    (fun _ => .done) <$> WebSocketHubState.publishTransition ticket next first second
  | .receive id => .ofCall fun state =>
    ((state.receive id).1, .ok (.received (state.receive id).2))
  | .disconnect id => .ofCall fun state => (state.disconnect id, .ok .done)

/-- One critical section of a hub whose routes have the pairings of `plan`. -/
def hubCall (plan : String → WebSocketPairing) (state : WebSocketHubState) (request : HubRequest) :
    WebSocketHubState × Except ServiceError HubReply :=
  (request.perform plan).call state

end WebSocketHubState

end Terlan.WebSocket
