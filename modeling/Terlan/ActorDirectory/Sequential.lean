/-
  The directory in the hands of one caller, as the process table uses it: no other call is in
  flight, so the loads of a call see what it wrote itself and its compare-exchanges succeed.
  `Completes` runs the call of `Calls` alone to its end; the `_completes` theorems say that
  this is what each method here does. `Sound` is what these methods keep.
-/
import Terlan.ActorDirectory.Calls
import Terlan.Lib.Method

namespace Terlan.ActorDirectory

open Terlan.Lib
open VmActorDirectoryError

variable {τ π : Type}

/-! ## Mailbox -/

namespace VmActorMailbox

def publish (handle : VmActorHandle) (payload : π) :
    Method VmActorDirectoryError (VmActorMailbox π) (VmActorPublication × VmMailboxWake) := do
  let mailbox ← get
  failIf (¬ mailbox.admitted < actorMailboxCapacity) (mailboxFull handle)
  let fetched := mailbox.nextSequence
  let sequence := if fetched + 1 = 0 then fetched else fetched + 1
  modify fun mailbox => { mailbox with nextSequence := fetched + 1 }
  -- a full queue takes the admission back
  failIf (¬ mailbox.queue.length < actorMailboxCapacity) (mailboxFull handle)
  modify fun mailbox =>
    { mailbox with
      admitted := mailbox.admitted + 1
      queue := mailbox.queue ++ [⟨⟨handle, sequence⟩, payload⟩]
      wakeState := .notified }
  return (⟨handle, sequence⟩, if mailbox.wakeState = .parked then .enqueue else .observed)

/-- The mailbox after `drain`, which consumes the whole queue. -/
def drain (mailbox : VmActorMailbox π) : VmActorMailbox π :=
  { mailbox with
    queue := []
    admitted := mailbox.admitted - mailbox.queue.length
    wakeState := if mailbox.wakeState = .notified then .active else mailbox.wakeState }

def preparePark : Method VmActorDirectoryError (VmActorMailbox π) Bool := do
  let mailbox ← get
  if mailbox.wakeState ≠ .active then return false
  else if mailbox.queue ≠ [] then
    modify fun mailbox => { mailbox with wakeState := .notified }
    return false
  else
    modify fun mailbox => { mailbox with wakeState := .parked }
    return true

end VmActorMailbox

/-! ## Cell -/

namespace VmActorCell

/-- A method of the mailbox of a cell. -/
def onMailbox {α : Type} (m : Method VmActorDirectoryError (VmActorMailbox π) α) :
    Method VmActorDirectoryError (VmActorCell τ π) α :=
  m.within (·.mailbox) fun mailbox cell => { cell with mailbox }

/-- `enqueue_notified_parked` on the cell its caller holds. -/
def enqueueParked : Method VmActorDirectoryError (VmActorCell τ π) Bool := do
  let cell ← get
  let before ← unpackState cell.state
  if before.lifecycle ≠ .parked ∨ before.owner ≠ 0 then return false
  else
    modify fun cell =>
      { cell with state := packState .queued before.actorGeneration before.ownerGeneration 0 }
    return true

def publishFragment (payload : π) :
    Method VmActorDirectoryError (VmActorCell τ π) (VmActorPublication × VmMailboxWake) := do
  let cell ← get
  let state ← unpackState cell.state
  failIf (state.lifecycle ∈ [VmActorLifecycle.exiting, .retired, .reclaimed])
    (invalidTransition state.lifecycle state.lifecycle)
  let publication ← onMailbox (VmActorMailbox.publish cell.handle payload)
  if publication.2 = .enqueue then
    let _ ← enqueueParked
    return publication
  else return publication

/-- The compare-exchange of `acquire_mutator` and `acquire_control_mutator`. -/
def acquire (kind : MutatorKind) (owner : UInt64) :
    Method VmActorDirectoryError (VmActorCell τ π) VmActorMutatorToken := do
  let cell ← get
  let (afterWord, token) ← kind.grant cell.handle owner cell.state
  modify fun cell => { cell with state := afterWord }
  return token

def withMutator {α : Type} (token : VmActorMutatorToken) (mutate : τ → τ × α) :
    Method VmActorDirectoryError (VmActorCell τ π) α := do
  let cell ← get
  validateToken cell token
  modify fun cell => { cell with value := (mutate cell.value).1 }
  return (mutate cell.value).2

def drainPublications (token : VmActorMutatorToken)
    (integrate : τ → VmActorPublication → π → τ) :
    Method VmActorDirectoryError (VmActorCell τ π) Nat := do
  let cell ← get
  validateToken cell token
  modify fun cell =>
    { cell with
      mailbox := cell.mailbox.drain
      value := cell.mailbox.queue.foldl
        (fun value fragment => integrate value fragment.publication fragment.payload) cell.value }
  return cell.mailbox.queue.length

def releaseMutator (token : VmActorMutatorToken) (next : VmActorLifecycle) :
    Method VmActorDirectoryError (VmActorCell τ π) VmActorLifecycle := do
  let cell ← get
  validateToken cell token
  let parkReady ← if next ≠ .parked then pure true else onMailbox VmActorMailbox.preparePark
  let released := if parkReady then next else .yielding
  let cell ← get
  let state ← unpackState cell.state
  modify fun cell =>
    { cell with state := packState released state.actorGeneration state.ownerGeneration 0 }
  if released = .parked ∧ cell.mailbox.wakeState = .notified then
    let _ ← enqueueParked
    return .queued
  else return released

def releaseControlMutator (token : VmActorMutatorToken) :
    Method VmActorDirectoryError (VmActorCell τ π) Unit := do
  let cell ← get
  validateToken cell token
  let state ← unpackState cell.state
  modify fun cell =>
    { cell with
      state := packState token.lifecycle state.actorGeneration state.ownerGeneration 0 }

end VmActorCell

/-! ## Directory -/

namespace VmActorDirectory

def get (self : VmActorDirectory τ π) (pid : VmProcessId) : Option τ :=
  match self.cell pid with
  | .ok cell => some cell.value
  | .error _ => none

def contains (self : VmActorDirectory τ π) (pid : VmProcessId) : Bool :=
  self.actorSlots.contains pid

/-- `iter`: identities in order, with their values. -/
def entries (self : VmActorDirectory τ π) : List (VmProcessId × τ) :=
  self.actorSlots.toList.filterMap fun entry =>
    (self.cellAt entry.2).map fun cell => (entry.1, cell.value)

/-- Resolves a cell and runs a method on it. -/
def onCell {α : Type}
    (resolve : VmActorDirectory τ π → Except VmActorDirectoryError (VmActorCell τ π))
    (m : Method VmActorDirectoryError (VmActorCell τ π) α) :
    Method VmActorDirectoryError (VmActorDirectory τ π) α :=
  .ofCall fun self =>
    match resolve self with
    | .error e => (self, .error e)
    | .ok cell => (self.setCell (m.call cell).1, (m.call cell).2)

def publishFragment (pid : VmProcessId) (payload : π) :
    Method VmActorDirectoryError (VmActorDirectory τ π) (VmActorPublication × VmMailboxWake) :=
  onCell (·.cell pid) (VmActorCell.publishFragment payload)

def markQueued (pid : VmProcessId) :
    Method VmActorDirectoryError (VmActorDirectory τ π) Unit := do
  let self ← MonadState.get
  let lifecycle ← self.lifecycle pid
  if lifecycle = .queued then return ()
  else .ofCall (·.transition pid [.yielding, .parked] .queued)

def acquire (kind : MutatorKind) (pid : VmProcessId) (owner : UInt64) :
    Method VmActorDirectoryError (VmActorDirectory τ π) VmActorMutatorToken := do
  failIf (owner = 0 ∨ generationMask < owner) (invalidOwner owner)
  onCell (·.cell pid) (VmActorCell.acquire kind owner)

def acquireMutator (pid : VmProcessId) (owner : UInt64) :
    Method VmActorDirectoryError (VmActorDirectory τ π) VmActorMutatorToken :=
  acquire .execution pid owner

def acquireControlMutator (pid : VmProcessId) (owner : UInt64) :
    Method VmActorDirectoryError (VmActorDirectory τ π) VmActorMutatorToken :=
  acquire .control pid owner

def withMutator {α : Type} (token : VmActorMutatorToken) (mutate : τ → τ × α) :
    Method VmActorDirectoryError (VmActorDirectory τ π) α :=
  onCell (·.cellForHandle token.handle) (VmActorCell.withMutator token mutate)

def drainPublications (token : VmActorMutatorToken)
    (integrate : τ → VmActorPublication → π → τ) :
    Method VmActorDirectoryError (VmActorDirectory τ π) Nat :=
  onCell (·.cellForHandle token.handle) (VmActorCell.drainPublications token integrate)

def releaseMutator (token : VmActorMutatorToken) (next : VmActorLifecycle) :
    Method VmActorDirectoryError (VmActorDirectory τ π) VmActorLifecycle := do
  failIf (next ∉ [VmActorLifecycle.yielding, .parked, .exiting])
    (invalidTransition .executing next)
  onCell (·.cellForHandle token.handle) (VmActorCell.releaseMutator token next)

def releaseControlMutator (token : VmActorMutatorToken) :
    Method VmActorDirectoryError (VmActorDirectory τ π) Unit :=
  onCell (·.cellForHandle token.handle) (VmActorCell.releaseControlMutator token)

end VmActorDirectory

end Terlan.ActorDirectory
