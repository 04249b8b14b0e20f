/-
  Calls in flight. A call on the shared directory is a sequence of atomic operations on one
  cell: loads, compare-exchanges, swaps, counter updates and queue operations. `CallState`
  says which one a call makes next and what it has read so far; `CallState.step` makes it.
  The queue is the one of the `concurrent_queue` package, a bounded queue whose operations
  take effect at once.

  `System` puts any number of calls in flight on one directory, together with the tokens that
  were handed out. The operations of `Directory` need exclusive access, so they wait until no
  call is in flight.
-/
import Terlan.ActorDirectory.Directory
import Terlan.Lib.Replay

namespace Terlan.ActorDirectory

open Terlan.Lib
open VmActorDirectoryError

variable {τ π : Type}

/-! ## Atomic operations -/

/-- `acquire_mutator` and `acquire_control_mutator`. -/
inductive MutatorKind where
  | execution
  | control

/-- The checks of the two, and the lifecycle under the new owner. -/
def MutatorKind.admit (kind : MutatorKind) (before : VmActorState) :
    Except VmActorDirectoryError VmActorLifecycle := do
  failIf (before.owner ≠ 0 ∨ before.lifecycle = VmActorLifecycle.executing)
    (alreadyOwned before.owner before.ownerGeneration)
  match kind with
  | .execution =>
    failIf (before.lifecycle ≠ VmActorLifecycle.queued)
      (invalidTransition before.lifecycle .executing)
    pure .executing
  | .control =>
    failIf (before.lifecycle = VmActorLifecycle.migrating ∨
      before.lifecycle = VmActorLifecycle.reclaimed)
      (invalidTransition before.lifecycle before.lifecycle)
    pure before.lifecycle

/-- The new word and the token of a grant. -/
def MutatorKind.grant (kind : MutatorKind) (handle : VmActorHandle) (owner word : UInt64) :
    Except VmActorDirectoryError (UInt64 × VmActorMutatorToken) := do
  let before ← unpackState word
  let lifecycle ← kind.admit before
  let ownerGeneration := nextGeneration before.ownerGeneration
  pure (packState lifecycle before.actorGeneration ownerGeneration owner,
    { handle, owner, ownerGeneration, lifecycle })

/-- Where `enqueue_notified_parked` is. -/
inductive EnqueueState where
  | load
  | exchange (beforeWord afterWord : UInt64)

/-- Where `prepare_park` is: the exchange of `ACTIVE` for `PARKING`, the look at the queue,
the store of `NOTIFIED`, the exchange of `PARKING` for `PARKED`. -/
inductive ParkState where
  | start
  | inspect
  | cancel
  | commit

/-- Where a call is. The constructors of one function stand together, in its order. -/
inductive CallState (π : Type) where
  | publishState (payload : π)
  | publishAdmit (payload : π)
  | publishSequence (payload : π)
  | publishPush (fragment : VmPublishedFragment π)
  | publishWithdraw
  | publishNotify (publication : VmActorPublication)
  | publishEnqueue (publication : VmActorPublication) (enqueue : EnqueueState)
  | queueState
  | queueLoad
  | queueExchange (beforeWord afterWord : UInt64)
  | acquireLoad (kind : MutatorKind) (owner : UInt64)
  | acquireExchange (beforeWord afterWord : UInt64) (token : VmActorMutatorToken)
  | releaseValidate (token : VmActorMutatorToken) (next : VmActorLifecycle)
  | releasePark (token : VmActorMutatorToken) (park : ParkState)
  | releaseLoad (token : VmActorMutatorToken) (released : VmActorLifecycle)
  | releaseExchange (token : VmActorMutatorToken) (released : VmActorLifecycle)
      (beforeWord afterWord : UInt64)
  | releaseRecheck
  | releaseEnqueue (enqueue : EnqueueState)
  | controlValidate (token : VmActorMutatorToken)
  | controlLoad (token : VmActorMutatorToken)
  | controlExchange (token : VmActorMutatorToken) (beforeWord afterWord : UInt64)
  | drainValidate (token : VmActorMutatorToken)
  | drainPop (token : VmActorMutatorToken) (drained : List (VmPublishedFragment π))
  | drainAdmitted (token : VmActorMutatorToken) (drained : List (VmPublishedFragment π))
  | drainInspect (token : VmActorMutatorToken) (drained : List (VmPublishedFragment π))
  | drainActivate (token : VmActorMutatorToken) (drained : List (VmPublishedFragment π))

/-- What a successful call returns. -/
inductive CallValue (τ π : Type) where
  | published (publication : VmActorPublication) (wake : VmMailboxWake)
  | granted (token : VmActorMutatorToken)
  | released (lifecycle : VmActorLifecycle)
  | drained (fragments : List (VmPublishedFragment π))
  | inserted (handle : VmActorHandle)
  | removed (value : τ)
  | done

/-- After one atomic operation a call goes on or returns. -/
inductive Progress (τ π : Type) where
  | running (call : CallState π)
  | returned (result : Except VmActorDirectoryError (CallValue τ π))

/-- Goes on unless the values just read are refused. -/
def Progress.proceed (next : Except VmActorDirectoryError (CallState π)) : Progress τ π :=
  match next with
  | .ok call => .running call
  | .error e => .returned (.error e)

namespace VmActorCell

def exchangeWake (cell : VmActorCell τ π) (wakeState : WakeState) : VmActorCell τ π :=
  { cell with mailbox := { cell.mailbox with wakeState } }

def setAdmitted (cell : VmActorCell τ π) (admitted : Nat) : VmActorCell τ π :=
  { cell with mailbox := { cell.mailbox with admitted } }

def setQueue (cell : VmActorCell τ π) (queue : List (VmPublishedFragment π)) :
    VmActorCell τ π :=
  { cell with mailbox := { cell.mailbox with queue } }

/-- One operation of `enqueue_notified_parked`; the cell the identity resolves to is the one
its caller holds. -/
def enqueueNotifiedParked (cell : VmActorCell τ π) :
    EnqueueState → VmActorCell τ π × (EnqueueState ⊕ Except VmActorDirectoryError Bool)
  | .load =>
    match unpackState cell.state with
    | .error e => (cell, .inr (.error e))
    | .ok before =>
      if before.lifecycle ≠ .parked ∨ before.owner ≠ 0 then (cell, .inr (.ok false))
      else (cell, .inl (.exchange cell.state
        (packState .queued before.actorGeneration before.ownerGeneration 0)))
  | .exchange beforeWord afterWord =>
    if cell.state = beforeWord then ({ cell with state := afterWord }, .inr (.ok true))
    else (cell, .inr (do
      let observed ← unpackState cell.state
      pure (observed.lifecycle = .queued ∧ observed.owner = 0)))

/-- One operation of `prepare_park`. -/
def preparePark (cell : VmActorCell τ π) : ParkState → VmActorCell τ π × (ParkState ⊕ Bool)
  | .start =>
    if cell.mailbox.wakeState = .active then (cell.exchangeWake .parking, .inl .inspect)
    else (cell, .inr false)
  | .inspect =>
    if cell.mailbox.queue.isEmpty then (cell, .inl .commit) else (cell, .inl .cancel)
  | .cancel => (cell.exchangeWake .notified, .inr false)
  | .commit =>
    if cell.mailbox.wakeState = .parking then (cell.exchangeWake .parked, .inr true)
    else (cell, .inr false)

end VmActorCell

/-- One atomic operation of a call on its cell. -/
def CallState.step (cell : VmActorCell τ π) : CallState π → VmActorCell τ π × Progress τ π
  | .publishState payload =>
    (cell, .proceed do
      let state ← unpackState cell.state
      failIf (state.lifecycle ∈ [VmActorLifecycle.exiting, .retired, .reclaimed])
        (invalidTransition state.lifecycle state.lifecycle)
      pure (.publishAdmit payload))
  | .publishAdmit payload =>
    if cell.mailbox.admitted < actorMailboxCapacity then
      (cell.setAdmitted (cell.mailbox.admitted + 1), .running (.publishSequence payload))
    else (cell, .returned (.error (mailboxFull cell.handle)))
  | .publishSequence payload =>
    let fetched := cell.mailbox.nextSequence
    -- `fetch_add` wraps around, `saturating_add` does not
    let sequence := if fetched + 1 = 0 then fetched else fetched + 1
    ({ cell with mailbox := { cell.mailbox with nextSequence := fetched + 1 } },
      .running (.publishPush ⟨⟨cell.handle, sequence⟩, payload⟩))
  | .publishPush fragment =>
    if cell.mailbox.queue.length < actorMailboxCapacity then
      (cell.setQueue (cell.mailbox.queue ++ [fragment]),
        .running (.publishNotify fragment.publication))
    else (cell, .running .publishWithdraw)
  | .publishWithdraw =>
    (cell.setAdmitted (cell.mailbox.admitted - 1),
      .returned (.error (mailboxFull cell.handle)))
  | .publishNotify publication =>
    (cell.exchangeWake .notified,
      if cell.mailbox.wakeState = .parked then .running (.publishEnqueue publication .load)
      else .returned (.ok (.published publication .observed)))
  | .publishEnqueue publication enqueue =>
    match cell.enqueueNotifiedParked enqueue with
    | (cell', .inl enqueue') => (cell', .running (.publishEnqueue publication enqueue'))
    | (cell', .inr result) =>
      (cell', .returned (result.map fun _ => .published publication .enqueue))
  | .queueState =>
    match unpackState cell.state with
    | .error e => (cell, .returned (.error e))
    | .ok state =>
      if state.lifecycle = .queued then (cell, .returned (.ok .done))
      else (cell, .running .queueLoad)
  | .queueLoad =>
    (cell, .proceed do
      let afterWord ← transitionUnowned [.yielding, .parked] .queued cell.state
      pure (.queueExchange cell.state afterWord))
  | .queueExchange beforeWord afterWord =>
    if cell.state = beforeWord then
      ({ cell with state := afterWord }, .returned (.ok .done))
    else (cell, .returned (.error (ownershipRaceError cell.state)))
  | .acquireLoad kind owner =>
    (cell, .proceed do
      let (afterWord, token) ← kind.grant cell.handle owner cell.state
      pure (.acquireExchange cell.state afterWord token))
  | .acquireExchange beforeWord afterWord token =>
    if cell.state = beforeWord then
      ({ cell with state := afterWord }, .returned (.ok (.granted token)))
    else (cell, .returned (.error (ownershipRaceError cell.state)))
  | .releaseValidate token next =>
    (cell, .proceed do
      validateToken cell token
      pure (if next = .parked then .releasePark token .start else .releaseLoad token next))
  | .releasePark token park =>
    match cell.preparePark park with
    | (cell', .inl park') => (cell', .running (.releasePark token park'))
    | (cell', .inr parkReady) =>
      (cell', .running (.releaseLoad token (if parkReady then .parked else .yielding)))
  | .releaseLoad token released =>
    (cell, .proceed do
      let state ← unpackState cell.state
      pure (.releaseExchange token released cell.state
        (packState released state.actorGeneration state.ownerGeneration 0)))
  | .releaseExchange _ released beforeWord afterWord =>
    if cell.state = beforeWord then
      ({ cell with state := afterWord },
        if released = .parked then .running .releaseRecheck
        else .returned (.ok (.released released)))
    else (cell, .returned (.error staleMutator))
  | .releaseRecheck =>
    if cell.mailbox.wakeState = .notified then (cell, .running (.releaseEnqueue .load))
    else (cell, .returned (.ok (.released .parked)))
  | .releaseEnqueue enqueue =>
    match cell.enqueueNotifiedParked enqueue with
    | (cell', .inl enqueue') => (cell', .running (.releaseEnqueue enqueue'))
    | (cell', .inr result) => (cell', .returned (result.map fun _ => .released .queued))
  | .controlValidate token =>
    (cell, .proceed do
      validateToken cell token
      pure (.controlLoad token))
  | .controlLoad token =>
    (cell, .proceed do
      let state ← unpackState cell.state
      pure (.controlExchange token cell.state
        (packState token.lifecycle state.actorGeneration state.ownerGeneration 0)))
  | .controlExchange _ beforeWord afterWord =>
    if cell.state = beforeWord then
      ({ cell with state := afterWord }, .returned (.ok .done))
    else (cell, .returned (.error staleMutator))
  | .drainValidate token =>
    (cell, .proceed do
      validateToken cell token
      pure (.drainPop token []))
  | .drainPop token drained =>
    match cell.mailbox.queue with
    | fragment :: queue =>
      (cell.setQueue queue, .running (.drainAdmitted token (drained ++ [fragment])))
    | [] => (cell, .running (.drainInspect token drained))
  | .drainAdmitted token drained =>
    (cell.setAdmitted (cell.mailbox.admitted - 1), .running (.drainPop token drained))
  | .drainInspect token drained =>
    if cell.mailbox.queue.isEmpty then (cell, .running (.drainActivate token drained))
    else (cell, .returned (.ok (.drained drained)))
  | .drainActivate _ drained =>
    (if cell.mailbox.wakeState = .notified then cell.exchangeWake .active else cell,
      .returned (.ok (.drained drained)))

/-- The token a release has taken and not yet given up. -/
def CallState.held : CallState π → Option VmActorMutatorToken
  | .releaseValidate token _ => some token
  | .releasePark token _ => some token
  | .releaseLoad token _ => some token
  | .releaseExchange token _ _ _ => some token
  | .controlValidate token => some token
  | .controlLoad token => some token
  | .controlExchange token _ _ => some token
  | _ => none

/-- The token a drain borrows. -/
def CallState.borrowed : CallState π → Option VmActorMutatorToken
  | .drainValidate token => some token
  | .drainPop token _ => some token
  | .drainAdmitted token _ => some token
  | .drainInspect token _ => some token
  | .drainActivate token _ => some token
  | _ => none

/-! ## The system -/

/-- A call in flight on the cell of one slot; `wrote` records whether it changed the state
word of the cell. -/
structure Call (π : Type) where
  slot : Nat
  state : CallState π
  wrote : Bool

/-- An actor that was put into a slot, and the tokens issued while it was there. -/
structure Occupant where
  handle : VmActorHandle
  tokens : List VmActorMutatorToken

/-- The directory, the calls in flight and the tokens that callers have. `occupants` is the
history of each slot, the present occupant first; no call reads it. -/
structure System (τ π : Type) where
  directory : VmActorDirectory τ π
  calls : List (Call π)
  tokens : List VmActorMutatorToken
  occupants : Nat → List Occupant

/-- A token is named by its place among the ones handed out, a call by its place among the
ones in flight. -/
inductive Request (τ π : Type) where
  | publishFragment (pid : VmProcessId) (payload : π)
  | markQueued (pid : VmProcessId)
  | acquireMutator (pid : VmProcessId) (owner : UInt64)
  | acquireControlMutator (pid : VmProcessId) (owner : UInt64)
  | releaseMutator (place : Nat) (next : VmActorLifecycle)
  | releaseControlMutator (place : Nat)
  | drainPayloads (place : Nat)
  | dropToken (place : Nat)
  | step (place : Nat)
  | insert (pid : VmProcessId) (value : τ)
  | markExiting (pid : VmProcessId)
  | beginMigration (pid : VmProcessId)
  | markRetired (pid : VmProcessId)
  | reclaim (pid : VmProcessId)
  | detachForTransfer (pid : VmProcessId)

/-- `ignored` is a request that cannot be made now. -/
inductive Reply (τ π : Type) where
  | ignored
  | running
  | returned (wrote : Bool) (result : Except VmActorDirectoryError (CallValue τ π))

namespace System

def new : System τ π := ⟨.new, [], [], fun _ => []⟩

/-- Puts a call in flight on a resolved cell. -/
def start (sys : System τ π) (cell : Except VmActorDirectoryError (VmActorCell τ π))
    (call : CallState π) : System τ π × Reply τ π :=
  match cell with
  | .error e => (sys, .returned false (.error e))
  | .ok cell => ({ sys with calls := sys.calls ++ [⟨cell.handle.slot, call, false⟩] }, .running)

def acquire (sys : System τ π) (kind : MutatorKind) (pid : VmProcessId) (owner : UInt64) :
    System τ π × Reply τ π :=
  if owner = 0 ∨ generationMask < owner then (sys, .returned false (.error (invalidOwner owner)))
  else sys.start (sys.directory.cell pid) (.acquireLoad kind owner)

/-- Consuming a token takes it from the caller, who may not be lending it. -/
def consume (sys : System τ π) (place : Nat)
    (use : System τ π → VmActorMutatorToken → System τ π × Reply τ π) :
    System τ π × Reply τ π :=
  match sys.tokens[place]? with
  | none => (sys, .ignored)
  | some token =>
    if sys.calls.any (·.state.borrowed = some token) then (sys, .ignored)
    else use { sys with tokens := sys.tokens.eraseIdx place } token

/-- Hands a granted token to its caller. -/
def grant (sys : System τ π) (token : VmActorMutatorToken) : System τ π :=
  { sys with
    tokens := sys.tokens ++ [token]
    occupants := Function.update sys.occupants token.handle.slot
      ((sys.occupants token.handle.slot).modify 0 fun occupant =>
        { occupant with tokens := occupant.tokens ++ [token] }) }

/-- The call at a place makes its next operation. -/
def advance (sys : System τ π) (place : Nat) : System τ π × Reply τ π :=
  match sys.calls[place]? with
  | none => (sys, .ignored)
  | some call =>
    match sys.directory.cellAt call.slot with
    | none => (sys, .ignored)
    | some cell =>
      let (cell', progress) := call.state.step cell
      let wrote := call.wrote || decide (cell'.state ≠ cell.state)
      let directory := sys.directory.setCell cell'
      match progress with
      | .running state =>
        ({ sys with directory, calls := sys.calls.set place { call with state, wrote } },
          .running)
      | .returned result =>
        let sys' := { sys with directory, calls := sys.calls.eraseIdx place }
        match result with
        | .ok (.granted token) => (sys'.grant token, .returned wrote result)
        | _ => (sys', .returned wrote result)

/-- An operation that needs exclusive access. -/
def exclusive {α : Type} (sys : System τ π)
    (operation : VmActorDirectory τ π → VmActorDirectory τ π × Except VmActorDirectoryError α)
    (value : α → CallValue τ π) : System τ π × Reply τ π :=
  if sys.calls.isEmpty then
    let (directory, result) := operation sys.directory
    let wrote := decide (directory.words ≠ sys.directory.words)
    ({ sys with directory }, .returned wrote (result.map value))
  else (sys, .ignored)

/-- Notes a new occupant of its slot. -/
def settle (sys : System τ π) (handle : VmActorHandle) : System τ π :=
  { sys with
    occupants := Function.update sys.occupants handle.slot
      (⟨handle, []⟩ :: sys.occupants handle.slot) }

def call (sys : System τ π) : Request τ π → System τ π × Reply τ π
  | .publishFragment pid payload => sys.start (sys.directory.cell pid) (.publishState payload)
  | .markQueued pid => sys.start (sys.directory.cell pid) .queueState
  | .acquireMutator pid owner => sys.acquire .execution pid owner
  | .acquireControlMutator pid owner => sys.acquire .control pid owner
  | .releaseMutator place next =>
    sys.consume place fun sys token =>
      if next ∉ [VmActorLifecycle.yielding, .parked, .exiting] then
        (sys, .returned false (.error (invalidTransition .executing next)))
      else sys.start (sys.directory.cellForHandle token.handle) (.releaseValidate token next)
  | .releaseControlMutator place =>
    sys.consume place fun sys token =>
      sys.start (sys.directory.cellForHandle token.handle) (.controlValidate token)
  | .drainPayloads place =>
    match sys.tokens[place]? with
    | none => (sys, .ignored)
    | some token =>
      sys.start (sys.directory.cellForHandle token.handle) (.drainValidate token)
  | .dropToken place => sys.consume place fun sys _ => (sys, .returned false (.ok .done))
  | .step place => sys.advance place
  | .insert pid value =>
    match sys.exclusive (·.insert pid value) .inserted with
    | (sys', .returned wrote (.ok (.inserted handle))) =>
      (sys'.settle handle, .returned wrote (.ok (.inserted handle)))
    | refused => refused
  | .markExiting pid => sys.exclusive (·.markExiting pid) fun _ => .done
  | .beginMigration pid => sys.exclusive (·.beginMigration pid) fun _ => .done
  | .markRetired pid => sys.exclusive (·.markRetired pid) fun _ => .done
  | .reclaim pid => sys.exclusive (·.reclaim pid) .removed
  | .detachForTransfer pid => sys.exclusive (·.detachForTransfer pid) .removed

end System

end Terlan.ActorDirectory
