/-
  Local process table: process records in an actor directory, their mailboxes, and the
  operations of the control plane on them. A control operation takes the ownership of its
  process for one mutation, so it is refused while a scheduler executes the process. Messages
  are published to the fragment queue of the receiver first, and integrated into its mailbox
  by whoever owns it next.
-/
import Terlan.ActorDirectory.Sequential
import Terlan.Lib.Machine
import Terlan.TermFormat.Value

namespace Terlan.Process

open Terlan.Lib Terlan.ActorDirectory Terlan.TermFormat
open Std (ExtTreeMap)
open VmActorDirectory (acquireMutator acquireControlMutator withMutator drainPublications
  releaseMutator releaseControlMutator publishFragment markQueued)

/-! ## Process records -/

/-- Native boundary value tags. -/
inductive TvmBoundaryType where
  | unit
  | bool
  | int
  | float
  | binary
  | string
  | json
  | nativeResource (id : UInt64)
  | atom
  | bytes
  | managed (identity : Vector UInt8 16)

/-- Why a process ended. -/
inductive VmExitReason where
  | normal
  | error (message : String)
  | typedError (boundaryType : TvmBoundaryType) (value : ReplValue)
  | killed
  | shutdownTimeout (timeoutMs : UInt64)
  | memoryLimitExceeded (requestedBytes previousBytes projectedBytes : Nat)

/-- The state an explicit suspension restores at its end. -/
inductive VmProcessResumeState where
  | runnable
  | blocked
  | hibernated
deriving DecidableEq

inductive VmProcessState where
  | runnable
  | blocked
  | hibernated
  | suspended (resumeState : VmProcessResumeState)
  | exited (reason : VmExitReason)

/-- `matches!(state, VmProcessState::Exited(_))`. -/
def VmProcessState.isExited : VmProcessState → Bool
  | .exited _ => true
  | _ => false

def VmProcessState.isRunnable : VmProcessState → Bool
  | .runnable => true
  | _ => false

structure VmProcessSource where
  module : String
  function : String
  arity : Nat
  sourcePath : Option String

/-- Ordering lane of a message. -/
inductive VmMessagePriority where
  | ordinary
  | priority
deriving DecidableEq

/-- Mailbox handle of a graph that the receiver owns. -/
structure VmManagedMailboxToken where
  fragmentId : UInt32
  sender : UInt64
  receiver : UInt64
  accountedBytes : Nat

structure VmMessage where
  id : UInt64
  publicationSequence : UInt64
  sender : VmProcessId
  payload : ReplValue
  boundaryType : Option TvmBoundaryType
  managedFragment : Option VmManagedMailboxToken
  accountedBytes : Nat
  priority : VmMessagePriority

structure VmProcess where
  pid : VmProcessId
  parent : Option VmProcessId
  source : VmProcessSource
  state : VmProcessState
  reductions : UInt64
  heapBytes : Nat
  cancellationRequested : Bool
  resourceHandles : List String
  mailbox : List VmMessage

namespace VmProcess

def new (pid : VmProcessId) (parent : Option VmProcessId) (source : VmProcessSource) : VmProcess :=
  { pid, parent, source
    state := .runnable
    reductions := 0
    heapBytes := 0
    cancellationRequested := false
    resourceHandles := []
    mailbox := [] }

def block (process : VmProcess) : VmProcess :=
  if process.state.isRunnable then { process with state := .blocked } else process

/-- Wakes a blocked or hibernated process. -/
def wake (process : VmProcess) : VmProcess :=
  match process.state with
  | .blocked | .hibernated => { process with state := .runnable }
  | .suspended .blocked | .suspended .hibernated => { process with state := .suspended .runnable }
  | .runnable | .suspended .runnable | .exited _ => process

def hibernate (process : VmProcess) : VmProcess × Except String Unit :=
  match process.state with
  | .runnable | .blocked | .hibernated => ({ process with state := .hibernated }, .ok ())
  | .suspended _ => (process, .error "cannot hibernate explicitly suspended process")
  | .exited _ => (process, .error "cannot hibernate exited process")

def suspend (process : VmProcess) : VmProcess × Except String Unit :=
  match process.state with
  | .runnable => ({ process with state := .suspended .runnable }, .ok ())
  | .blocked => ({ process with state := .suspended .blocked }, .ok ())
  | .hibernated => ({ process with state := .suspended .hibernated }, .ok ())
  | .suspended resumeState => ({ process with state := .suspended resumeState }, .ok ())
  | .exited _ => (process, .error "cannot suspend exited process")

def resume (process : VmProcess) : VmProcess × Except String VmProcessResumeState :=
  match process.state with
  | .suspended .runnable => ({ process with state := .runnable }, .ok .runnable)
  | .suspended .blocked => ({ process with state := .blocked }, .ok .blocked)
  | .suspended .hibernated => ({ process with state := .hibernated }, .ok .hibernated)
  | _ => (process, .error "process is not suspended")

def requestCancellation (process : VmProcess) : VmProcess :=
  { process with cancellationRequested := true }

def chargeReductions (process : VmProcess) (reductions : UInt64) : VmProcess :=
  { process with reductions := saturatingAdd process.reductions reductions }

def addResourceHandle (process : VmProcess) (handle : String) : VmProcess :=
  { process with resourceHandles := process.resourceHandles ++ [handle] }

/-- Removes the first handle of the name. -/
def removeResourceHandle (process : VmProcess) (handle : String) : VmProcess :=
  { process with resourceHandles := process.resourceHandles.erase handle }

/-- The exited process and the handles that are left to clean up. -/
def exit (process : VmProcess) (reason : VmExitReason) : VmProcess × List String :=
  ({ process with
      state := .exited reason
      mailbox := []
      heapBytes := 0
      resourceHandles := [] }, process.resourceHandles)

def receiveNext (process : VmProcess) : VmProcess × Option VmMessage :=
  ({ process with mailbox := process.mailbox.tail }, process.mailbox.head?)

def selectiveReceive (process : VmProcess) (predicate : VmMessage → Bool) :
    VmProcess × Option VmMessage :=
  ({ process with mailbox := process.mailbox.eraseP predicate }, process.mailbox.find? predicate)

/-- A priority message goes before the first ordinary one. -/
def insertPriority (mailbox : List VmMessage) (message : VmMessage) : List VmMessage :=
  let insertion :=
    (mailbox.findIdx? (·.priority = .ordinary)).getD mailbox.length
  mailbox.take insertion ++ message :: mailbox.drop insertion

def integrateMessage (process : VmProcess) (message : VmMessage) : VmProcess :=
  match message.priority with
  | .ordinary => wake { process with mailbox := process.mailbox ++ [message] }
  | .priority => wake { process with mailbox := insertPriority process.mailbox message }

end VmProcess

/-! ## Errors of the directory -/

def lifecycleName : VmActorLifecycle → String
  | .queued => "Queued"
  | .executing => "Executing"
  | .yielding => "Yielding"
  | .parked => "Parked"
  | .migrating => "Migrating"
  | .exiting => "Exiting"
  | .retired => "Retired"
  | .reclaimed => "Reclaimed"

def handleDebug (handle : VmActorHandle) : String :=
  s!"VmActorHandle \x7b pid: VmProcessId({handle.pid.value}), slot: {handle.slot}, "
    ++ s!"actor_generation: {handle.actorGeneration} \x7d"

/-- What `{error:?}` prints. -/
def directoryErrorDebug : VmActorDirectoryError → String
  | .missingActor pid => s!"MissingActor(VmProcessId({pid.value}))"
  | .staleHandle handle => s!"StaleHandle({handleDebug handle})"
  | .corruptLifecycle value => s!"CorruptLifecycle({value})"
  | .invalidTransition source destination =>
    s!"InvalidTransition \x7b from: {lifecycleName source}, to: {lifecycleName destination} \x7d"
  | .alreadyOwned owner ownerGeneration =>
    s!"AlreadyOwned \x7b owner: {owner}, owner_generation: {ownerGeneration} \x7d"
  | .staleMutator => "StaleMutator"
  | .invalidOwner owner => s!"InvalidOwner({owner})"
  | .lookupPinned pins => s!"LookupPinned({pins})"
  | .slotCapacityExceeded => "SlotCapacityExceeded"
  | .mailboxFull handle => s!"MailboxFull({handleDebug handle})"
  | .transferMailboxNotDrained pending => s!"TransferMailboxNotDrained \x7b pending: {pending} \x7d"

def actorDirectoryError (error : VmActorDirectoryError) : String :=
  s!"actor directory ownership error: {directoryErrorDebug error}"

/-! ## Process table -/

structure VmProcessTable where
  nextPid : UInt64
  nextMessageId : UInt64
  processes : VmActorDirectory VmProcess VmMessage
  names : ExtTreeMap String VmProcessId

/-- Payload, ownership, accounting and lane of a message to be admitted. -/
structure VmMessageDelivery where
  payload : ReplValue
  boundaryType : Option TvmBoundaryType
  managedFragment : Option VmManagedMailboxToken
  accountedBytes : Nat
  priority : VmMessagePriority

/-- The owner word of the control plane. -/
def vmControlPlaneOwner : UInt64 := ((1 : UInt64) <<< 20) - 1

namespace VmProcessTable

def new : VmProcessTable := ⟨0, 0, .new, ∅⟩

def get (table : VmProcessTable) (pid : VmProcessId) : Option VmProcess := table.processes.get pid

/-- `is_alive`. -/
def isAlive (table : VmProcessTable) (pid : VmProcessId) : Bool :=
  (table.get pid).any fun process => !process.state.isExited

/-- A method of the directory of processes. -/
def directory {α : Type}
    (m : Method VmActorDirectoryError (VmActorDirectory VmProcess VmMessage) α) :
    Method VmActorDirectoryError VmProcessTable α :=
  m.within (·.processes) fun processes table => { table with processes }

/-- The same with its error as a text. -/
def owned {α : Type}
    (m : Method VmActorDirectoryError (VmActorDirectory VmProcess VmMessage) α) :
    Method String VmProcessTable α :=
  (directory m).mapError actorDirectoryError

/-! ### Ownership -/

/-- One mutation under a fresh grant of the control plane. -/
def withProcessControlMutator {α : Type} (pid : VmProcessId) (mutate : VmProcess → VmProcess × α) :
    Method String VmProcessTable α := do
  let token ← owned (acquireControlMutator pid vmControlPlaneOwner)
  let result ← owned (withMutator token mutate)
  owned (releaseControlMutator token)
  return result

/-- The same for a mutation without a result. -/
def updateProcess (pid : VmProcessId) (mutate : VmProcess → VmProcess) :
    Method String VmProcessTable Unit :=
  withProcessControlMutator pid fun process => (mutate process, ())

/-- A mutation that may refuse: its error is the error of the method. -/
def mutateProcess {α : Type} (pid : VmProcessId)
    (mutate : VmProcess → VmProcess × Except String α) : Method String VmProcessTable α := do
  let result ← withProcessControlMutator pid mutate
  result

def markActorQueued (pid : VmProcessId) : Method String VmProcessTable Unit :=
  owned (markQueued pid)

def acquireActorMutator (pid : VmProcessId) (owner : UInt64) :
    Method String VmProcessTable VmActorMutatorToken :=
  owned (acquireMutator pid owner)

def withActorMutator {α : Type} (token : VmActorMutatorToken)
    (mutate : VmProcess → VmProcess × α) : Method String VmProcessTable α :=
  owned (withMutator token mutate)

def releaseActorMutator (token : VmActorMutatorToken) (lifecycle : VmActorLifecycle) :
    Method String VmProcessTable VmActorLifecycle :=
  owned (releaseMutator token lifecycle)

/-! ### Integration of published messages -/

def integrateActorMailbox (token : VmActorMutatorToken) : Method String VmProcessTable Nat :=
  owned (drainPublications token fun process publication message =>
    process.integrateMessage { message with publicationSequence := publication.sequence })

def integrateProcessMailbox (pid : VmProcessId) : Method String VmProcessTable Nat := do
  let token ← owned (acquireControlMutator pid vmControlPlaneOwner)
  let result ← (integrateActorMailbox token).attempt
  owned (releaseControlMutator token)
  result

/-- An owned process is left to its owner. -/
def integrateProcessMailboxIfUnowned (pid : VmProcessId) : Method String VmProcessTable Bool := do
  let grant ← (directory (acquireControlMutator pid vmControlPlaneOwner)).attempt
  match grant with
  | .error (.alreadyOwned _ _) => return false
  | .error error => throw (actorDirectoryError error)
  | .ok token =>
    let result ← (integrateActorMailbox token).attempt
    owned (releaseControlMutator token)
    let _ ← result
    return true

/-! ### Lifecycle -/

def namesForProcess (table : VmProcessTable) (pid : VmProcessId) : List String :=
  (table.names.toList.filter fun entry => entry.2 = pid).map (·.1)

def removeRegisteredNames (table : VmProcessTable) (pid : VmProcessId) : VmProcessTable :=
  { table with
    names := (table.namesForProcess pid).foldl (fun names name => names.erase name) table.names }

def spawn (parent : Option VmProcessId) (source : VmProcessSource) :
    Method (Fault String) VmProcessTable VmProcessId := do
  modify fun table => { table with nextPid := saturatingAdd table.nextPid 1 }
  let table ← MonadState.get
  let pid : VmProcessId := ⟨table.nextPid⟩
  let _ ← (owned (.ofCall (·.insert pid (.new pid parent source)))).expect
    "new process identity must have a free actor directory slot"
  return pid

def spawnRoot (source : VmProcessSource) : Method (Fault String) VmProcessTable VmProcessId :=
  spawn none source

def spawnChild (parent : VmProcessId) (source : VmProcessSource) :
    Method (Fault String) VmProcessTable VmProcessId := do
  let table ← MonadState.get
  match table.get parent with
  | none => throw (.returned s!"missing parent process {parent.value}")
  | some process =>
    if process.state.isExited then
      throw (.returned s!"parent process {parent.value} has exited")
    else spawn (some parent) source

/-- Exits a process and returns the handles that are left to clean up. -/
def exitProcess (pid : VmProcessId) (reason : VmExitReason) :
    Method String VmProcessTable (List String) := do
  let table ← MonadState.get
  failIf (¬ table.processes.contains pid) s!"missing process {pid.value}"
  owned (.ofCall (·.markExiting pid))
  let cleanup ← withProcessControlMutator pid (·.exit reason)
  owned (.ofCall (·.markRetired pid))
  modify (·.removeRegisteredNames pid)
  return cleanup

/-- Removes an exited tombstone. -/
def reapExited (pid : VmProcessId) : Method String VmProcessTable Unit := do
  let table ← MonadState.get
  match table.get pid with
  | none => throw s!"missing process {pid.value}"
  | some process =>
    failIf (¬ process.state.isExited) s!"cannot reap live process {pid.value}"
    let _ ← owned (.ofCall (·.reclaim pid))
    return ()

/-! ### Messages -/

/-- Both validations of a route, with the role of the process in it. -/
def validateRole (table : VmProcessTable) (role : String) (pid : VmProcessId) :
    Except String Unit :=
  match table.get pid with
  | none => .error s!"missing {role} process {pid.value}"
  | some process =>
    failIf process.state.isExited s!"{role} process {pid.value} has exited"

def validateSender (table : VmProcessTable) (sender : VmProcessId) : Except String Unit :=
  table.validateRole "sender" sender

def validateRecipient (table : VmProcessTable) (recipient : VmProcessId) : Except String Unit :=
  table.validateRole "recipient" recipient

def validateSend (table : VmProcessTable) (sender recipient : VmProcessId) :
    Except String Unit := do
  table.validateSender sender
  table.validateRecipient recipient

def enqueueMessage (sender recipient : VmProcessId) (delivery : VmMessageDelivery) :
    Method String VmProcessTable UInt64 := do
  let table ← MonadState.get
  let messageId := saturatingAdd table.nextMessageId 1
  let _ ← (directory (publishFragment recipient
      { id := messageId
        publicationSequence := 0
        sender
        payload := delivery.payload
        boundaryType := delivery.boundaryType
        managedFragment := delivery.managedFragment
        accountedBytes := delivery.accountedBytes
        priority := delivery.priority })).mapError fun error =>
    s!"actor mailbox publication error: {directoryErrorDebug error}"
  modify fun table => { table with nextMessageId := messageId }
  let _ ← integrateProcessMailboxIfUnowned recipient
  return messageId

/-- The user sends: a validated route, then the delivery. -/
def sendDelivery (sender recipient : VmProcessId) (delivery : VmMessageDelivery) :
    Method String VmProcessTable UInt64 := do
  let table ← MonadState.get
  table.validateSend sender recipient
  enqueueMessage sender recipient delivery

def sendAccounted (sender recipient : VmProcessId) (payload : ReplValue) (accountedBytes : Nat) :
    Method String VmProcessTable UInt64 :=
  sendDelivery sender recipient ⟨payload, none, none, accountedBytes, .ordinary⟩

def send (sender recipient : VmProcessId) (payload : ReplValue) :
    Method String VmProcessTable UInt64 :=
  sendAccounted sender recipient payload 0

def sendPriorityAccounted (sender recipient : VmProcessId) (payload : ReplValue)
    (accountedBytes : Nat) : Method String VmProcessTable UInt64 :=
  sendDelivery sender recipient ⟨payload, none, none, accountedBytes, .priority⟩

def sendTypedAccounted (sender recipient : VmProcessId) (payload : ReplValue)
    (boundaryType : TvmBoundaryType) (accountedBytes : Nat) :
    Method String VmProcessTable UInt64 :=
  sendDelivery sender recipient ⟨payload, some boundaryType, none, accountedBytes, .ordinary⟩

def sendTypedManagedAccounted (sender recipient : VmProcessId) (fragment : VmManagedMailboxToken)
    (boundaryType : TvmBoundaryType) (accountedBytes : Nat) :
    Method String VmProcessTable UInt64 :=
  sendDelivery sender recipient
    ⟨.unit, some boundaryType, some fragment, accountedBytes, .ordinary⟩

/-- The system sends: the origin may have exited already. -/
def sendSystem (origin recipient : VmProcessId) (payload : ReplValue)
    (lane : VmMessagePriority) : Method String VmProcessTable UInt64 := do
  let table ← MonadState.get
  failIf (¬ table.processes.contains origin) s!"missing system message origin {origin.value}"
  table.validateRecipient recipient
  enqueueMessage origin recipient ⟨payload, none, none, 0, lane⟩

def sendSystemMessage (origin recipient : VmProcessId) (payload : ReplValue) :
    Method String VmProcessTable UInt64 :=
  sendSystem origin recipient payload .ordinary

def sendPrioritySystemMessage (origin recipient : VmProcessId) (payload : ReplValue) :
    Method String VmProcessTable UInt64 :=
  sendSystem origin recipient payload .priority

end VmProcessTable

end Terlan.Process
