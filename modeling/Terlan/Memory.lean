/-
  Logical heap accounting. Each process has a number of accounted bytes under a common hard
  limit. A send charges the receiver before the message is published, and a receive gives the
  bytes of the message back; the charge stays when the mailbox of the receiver refuses the
  message.
-/
import Mathlib.Algebra.BigOperators.Group.List.Basic
import Mathlib.Algebra.Ring.Int.Defs
import Terlan.Resource

namespace Terlan.Memory

open Terlan.Lib Terlan.ActorDirectory Terlan.Process Terlan.Resource Terlan.TermFormat List Function
open VmProcessTable
open Std (ExtTreeMap)
open VmProcessTable (withProcessControlMutator spawnRoot spawnChild exitProcess markActorQueued
  acquireActorMutator releaseActorMutator integrateActorMailbox integrated)

/-! ## Sizes of values -/

/-- Sizes stop at the largest `usize`. -/
inductive VmValueSizeError where
  | overflow

def VmValueSizeError.text : VmValueSizeError → String
  | .overflow => "error[vm_memory_value_size_overflow]: logical VM value size exceeds usize"

def logicalValueSlotBytes : Nat := 8

def logicalSequenceHeaderBytes : Nat := 16

def logicalStringHeaderBytes : Nat := 16

def checkedAddSize (total bytes : Nat) : Except VmValueSizeError Nat :=
  if total + bytes ≤ usizeMax then .ok (total + bytes) else .error .overflow

def addSequenceStorage (total slots : Nat) : Except VmValueSizeError Nat := do
  let total ← checkedAddSize total logicalSequenceHeaderBytes
  failIf (usizeMax < slots * logicalValueSlotBytes) VmValueSizeError.overflow
  checkedAddSize total (slots * logicalValueSlotBytes)

def addLogicalString (total : Nat) (value : String) : Except VmValueSizeError Nat := do
  let total ← checkedAddSize total logicalStringHeaderBytes
  checkedAddSize total value.utf8ByteSize

/-- Adds what a value takes without the values inside it. -/
def addValue (total : Nat) : ReplValue → Except VmValueSizeError Nat
  | .closure _ descriptorTypes captures => do
    let total ← checkedAddSize total 40
    let total ← checkedAddSize total (24 * descriptorTypes)
    addSequenceStorage total captures.length
  | .unit => .ok total
  | .bool _ => checkedAddSize total 1
  | .int _ => checkedAddSize total 8
  | .float value | .string value | .atom value => addLogicalString total value
  | .stringBytes value => do
    let total ← checkedAddSize total logicalStringHeaderBytes
    checkedAddSize total value.length
  | .bytes value => do
    let total ← checkedAddSize total logicalSequenceHeaderBytes
    checkedAddSize total value.length
  | .bitString value => do
    let total ← checkedAddSize total logicalSequenceHeaderBytes
    let total ← checkedAddSize total 8
    checkedAddSize total value.bytes.length
  | .tuple items | .list items | .set items => addSequenceStorage total items.length
  | .record name fields => do
    let total ← addLogicalString total name
    let total ← addSequenceStorage total fields.length
    fields.foldlM (fun total field => addLogicalString total field.1) total
  | .map entries => do
    failIf (usizeMax < entries.length * 2) VmValueSizeError.overflow
    addSequenceStorage total (entries.length * 2)

/-- The values inside a value, in the order in which they are pushed. -/
def pushed : ReplValue → List ReplValue
  | .closure _ _ captures => captures
  | .tuple items | .list items | .set items => items
  | .record _ fields => fields.map (·.2)
  | .map entries => entries.flatMap fun entry => [entry.1, entry.2]
  | _ => []

theorem sum_sizeOf_le (items : List ReplValue) : (items.map sizeOf).sum ≤ sizeOf items := by
  induction items with
  | nil => simp
  | cons item items ih => simp; omega

theorem sum_sizeOf_fields_le (fields : List (String × ReplValue)) :
    ((fields.map (·.2)).map sizeOf).sum ≤ sizeOf fields := by
  induction fields with
  | nil => simp
  | cons field fields ih =>
    obtain ⟨name, value⟩ := field
    simp at ih ⊢
    omega

theorem sum_sizeOf_entries_le (entries : List (ReplValue × ReplValue)) :
    ((entries.flatMap fun entry => [entry.1, entry.2]).map sizeOf).sum ≤ sizeOf entries := by
  induction entries with
  | nil => simp
  | cons entry entries ih =>
    obtain ⟨key, value⟩ := entry
    simp at ih ⊢
    omega

/-- What is inside a value is smaller. -/
theorem sum_sizeOf_pushed_lt (value : ReplValue) :
    ((pushed value).map sizeOf).sum < sizeOf value := by
  cases value with
  | closure callableId types captures =>
    have := sum_sizeOf_le captures
    simp [pushed]; omega
  | tuple items | list items | set items =>
    have := sum_sizeOf_le items
    simp [pushed]; omega
  | record name fields =>
    have := sum_sizeOf_fields_le fields
    simp [pushed] at this ⊢; omega
  | map entries =>
    have := sum_sizeOf_entries_le entries
    simp [pushed] at this ⊢; omega
  | unit | bool => simp [pushed]
  | int | float | string | stringBytes | bytes | bitString | atom => simp [pushed] <;> omega

/-- The loop over the stack of pending values, whose top is the head. -/
def addPending (total : Nat) : List ReplValue → Except VmValueSizeError Nat
  | [] => .ok total
  | value :: pending => do
    let total ← addValue total value
    addPending total ((pushed value).reverse ++ pending)
termination_by pending => (pending.map sizeOf).sum
decreasing_by
  have := sum_sizeOf_pushed_lt value
  simp; omega

def logicalValueBytes (value : ReplValue) : Except VmValueSizeError Nat := addPending 0 [value]

/-! ## The accountant -/

/-- Limits of the heap of each process. -/
structure VmMemoryLimits where
  softBytes : Nat
  hardBytes : Nat
  positive : 0 < softBytes
  ordered : softBytes ≤ hardBytes
  fits : hardBytes ≤ usizeMax

def VmMemoryLimits.new (softBytes hardBytes : Nat) (fits : hardBytes ≤ usizeMax) :
    Except String VmMemoryLimits :=
  if zero : softBytes = 0 then .error "VM memory soft limit must be greater than zero"
  else if less : hardBytes < softBytes then
    .error "VM memory hard limit must be greater than or equal to soft limit"
  else
    .ok ⟨softBytes, hardBytes, Nat.pos_of_ne_zero zero, Nat.not_lt.mp less, fits⟩

inductive VmMemoryPressureOutcome where
  | accounted
  | softLimitExceeded
  | hardLimitRejected
deriving DecidableEq

/-- Evidence for one heap charge. -/
structure VmMemoryPressureDecision where
  pid : UInt64
  requestedBytes : Nat
  previousBytes : Nat
  projectedBytes : Nat
  outcome : VmMemoryPressureOutcome

structure VmProcessMemoryMetrics where
  pid : UInt64 := 0
  currentBytes : Nat := 0
  highWaterBytes : Nat := 0
  collectionEvents : UInt64 := 0
  releasedBytes : Nat := 0

structure VmAccountedResourceOwnership where
  resourceId : UInt64
  owner : UInt64
  logicalBytes : Nat

structure VmMemoryAccountant where
  limits : VmMemoryLimits
  processes : ExtTreeMap UInt64 VmProcessMemoryMetrics
  decisions : List VmMemoryPressureDecision
  resourceOwnership : ExtTreeMap UInt64 VmAccountedResourceOwnership

namespace VmMemoryAccountant

def new (limits : VmMemoryLimits) : VmMemoryAccountant := ⟨limits, ∅, [], ∅⟩

/-- The metrics of a process with the heap it has now. -/
def recordCharge (self : VmMemoryAccountant) (pid : VmProcessId) (currentBytes : Nat) :
    VmMemoryAccountant :=
  let metrics := self.processes[pid.value]?.getD {}
  { self with
    processes := self.processes.insert pid.value
      { metrics with
        pid := pid.value
        currentBytes
        highWaterBytes := max metrics.highWaterBytes currentBytes } }

def recordRelease (self : VmMemoryAccountant) (pid : VmProcessId)
    (actualRelease currentBytes : Nat) : VmMemoryAccountant :=
  let metrics := { self.processes[pid.value]?.getD {} with pid := pid.value, currentBytes }
  { self with
    processes := self.processes.insert pid.value
      (if 0 < actualRelease then
        { metrics with
          collectionEvents := saturatingAdd metrics.collectionEvents 1
          releasedBytes := min (metrics.releasedBytes + actualRelease) usizeMax }
      else metrics) }

end VmMemoryAccountant

/-- Receipt of a message that was enqueued. -/
structure VmMailboxPublication where
  messageId : UInt64
  recipient : VmProcessId
  accountedBytes : Nat

structure VmAccountedMessageSend where
  publication : Option VmMailboxPublication
  pressure : VmMemoryPressureDecision

structure VmSelectiveReceiveOutcome where
  message : Option VmMessage
  inspectedMessages : Nat

structure VmAccountedResourceDecision where
  event : Option VmResourceEvent
  pressure : VmMemoryPressureDecision

/-! ## Operations -/

/-- The accountant with the tables that it borrows. -/
structure Accounting where
  memory : VmMemoryAccountant
  resources : VmResourceTable
  processes : VmProcessTable

namespace Accounting

/-- The accountant changes itself. -/
def self {ε : Type} (change : VmMemoryAccountant → VmMemoryAccountant) :
    Method ε Accounting Unit :=
  modify fun s => { s with memory := change s.memory }

def table {ε α : Type} (m : Method ε VmProcessTable α) : Method ε Accounting α :=
  m.within (·.processes) fun processes s => { s with processes }

/-- A method of the resource table with the process table. -/
def resourcing {ε α : Type} (m : Method ε Resourcing α) : Method ε Accounting α :=
  m.within (fun s => ⟨s.resources, s.processes⟩) fun tables s =>
    { s with resources := tables.resources, processes := tables.processes }

end Accounting

open Accounting

def requireLiveProcess (processes : VmProcessTable) (pid : VmProcessId) : Except String Unit :=
  match processes.get pid with
  | none => .error s!"missing process {pid.value} for VM memory accounting"
  | some process =>
    failIf process.state.isExited s!"exited process {pid.value} cannot own VM heap bytes"

def withLiveProcessMut {α : Type} (pid : VmProcessId) (mutate : VmProcess → VmProcess × α) :
    Method String Accounting α := do
  let s ← get
  requireLiveProcess s.processes pid
  table (withProcessControlMutator pid mutate)

/-- The charge of one process: what it had, what it would have, the outcome and what it has. -/
def charge (limits : VmMemoryLimits) (requestedBytes : Nat) (process : VmProcess) :
    VmProcess × Nat × Nat × VmMemoryPressureOutcome × Nat :=
  let previousBytes := process.heapBytes
  let overflow := usizeMax < previousBytes + requestedBytes
  let projectedBytes := if overflow then usizeMax else previousBytes + requestedBytes
  if overflow ∨ limits.hardBytes < projectedBytes then
    (process, previousBytes, projectedBytes, .hardLimitRejected, process.heapBytes)
  else if limits.softBytes < projectedBytes then
    ({ process with heapBytes := projectedBytes }, previousBytes, projectedBytes,
      .softLimitExceeded, projectedBytes)
  else
    ({ process with heapBytes := projectedBytes }, previousBytes, projectedBytes, .accounted,
      projectedBytes)

def accountHeap (pid : VmProcessId) (requestedBytes : Nat) :
    Method String Accounting VmMemoryPressureDecision := do
  let s ← get
  let (previousBytes, projectedBytes, outcome, currentBytes) ←
    withLiveProcessMut pid (charge s.memory.limits requestedBytes)
  let decision : VmMemoryPressureDecision :=
    { pid := pid.value, requestedBytes, previousBytes, projectedBytes, outcome }
  self (·.recordCharge pid currentBytes)
  self fun memory => { memory with decisions := memory.decisions ++ [decision] }
  return decision

def releaseHeap (pid : VmProcessId) (releasedBytes : Nat) : Method String Accounting Nat := do
  let (actualRelease, currentBytes) ← withLiveProcessMut pid fun process =>
    let actualRelease := min releasedBytes process.heapBytes
    let process := { process with heapBytes := process.heapBytes - actualRelease }
    (process, actualRelease, process.heapBytes)
  self (·.recordRelease pid actualRelease currentBytes)
  return actualRelease

/-- The end of every send: a charge, and the publication unless the charge was rejected. -/
def chargeAndSend (recipient : VmProcessId) (accountedBytes : Nat)
    (send : Method String VmProcessTable UInt64) :
    Method String Accounting VmAccountedMessageSend := do
  let pressure ← accountHeap recipient accountedBytes
  if pressure.outcome = .hardLimitRejected then return { publication := none, pressure }
  else
    let messageId ← table send
    return { publication := some { messageId, recipient, accountedBytes }, pressure }

def sendMessage (sender recipient : VmProcessId) (payload : ReplValue) (accountedBytes : Nat) :
    Method String Accounting VmAccountedMessageSend := do
  let s ← get
  s.processes.validateSend sender recipient
  chargeAndSend recipient accountedBytes
    (VmProcessTable.sendAccounted sender recipient payload accountedBytes)

/-- The size of a payload, with the text of its error. -/
def payloadBytes (payload : ReplValue) : Except String Nat :=
  (logicalValueBytes payload).mapError (·.text)

def sendValueMessage (sender recipient : VmProcessId) (payload : ReplValue) :
    Method String Accounting VmAccountedMessageSend := do
  let logicalBytes ← payloadBytes payload
  sendMessage sender recipient payload logicalBytes

def sendTypedValueMessage (sender recipient : VmProcessId) (payload : ReplValue)
    (boundaryType : TvmBoundaryType) : Method String Accounting VmAccountedMessageSend := do
  let s ← get
  s.processes.validateSend sender recipient
  let logicalBytes ← payloadBytes payload
  chargeAndSend recipient logicalBytes
    (VmProcessTable.sendTypedAccounted sender recipient payload boundaryType logicalBytes)

def sendTypedManagedMessage (sender recipient : VmProcessId) (fragment : VmManagedMailboxToken)
    (boundaryType : TvmBoundaryType) : Method String Accounting VmAccountedMessageSend := do
  let s ← get
  s.processes.validateSend sender recipient
  failIf (fragment.sender ≠ sender.value ∨ fragment.receiver ≠ recipient.value)
    "error[vm_memory_managed_mailbox_owner]: managed mailbox fragment route mismatch"
  chargeAndSend recipient fragment.accountedBytes
    (VmProcessTable.sendTypedManagedAccounted sender recipient fragment boundaryType
      fragment.accountedBytes)

def sendPriorityValueMessage (sender recipient : VmProcessId) (payload : ReplValue) :
    Method String Accounting VmAccountedMessageSend := do
  let s ← get
  s.processes.validateSend sender recipient
  let logicalBytes ← payloadBytes payload
  chargeAndSend recipient logicalBytes
    (VmProcessTable.sendPriorityAccounted sender recipient payload logicalBytes)

def receiveMessage (recipient : VmProcessId) : Method String Accounting (Option VmMessage) := do
  let message ← withLiveProcessMut recipient (·.receiveNext)
  match message with
  | none => return none
  | some message =>
    let _ ← releaseHeap recipient message.accountedBytes
    return some message

/-- How many messages a scan looks at: it stops at the first that it takes. -/
def inspected (mailbox : List VmMessage) (predicate : VmMessage → Bool) : Nat :=
  (mailbox.findIdx? predicate).elim mailbox.length (· + 1)

def selectiveReceiveMessageWithScan (recipient : VmProcessId) (predicate : VmMessage → Bool) :
    Method String Accounting VmSelectiveReceiveOutcome := do
  let (message, inspectedMessages) ← withLiveProcessMut recipient fun process =>
    let (after, message) := process.selectiveReceive predicate
    (after, message, inspected process.mailbox predicate)
  match message with
  | none => return { message := none, inspectedMessages }
  | some message =>
    let _ ← releaseHeap recipient message.accountedBytes
    return { message := some message, inspectedMessages }

/-- The number of a registered resource. -/
def registeredId : VmResourceEvent → UInt64
  | .registered id _ | .transferred id _ _ | .released id _ | .cleanedUpOnExit id _ => id.value

def registerResource (owner : VmProcessId) (descriptor : VmResourceDescriptor)
    (transferPolicy : VmResourceTransferPolicy) (logicalBytes : Nat) :
    Method String Accounting VmAccountedResourceDecision := do
  let pressure ← accountHeap owner logicalBytes
  if pressure.outcome = .hardLimitRejected then return { event := none, pressure }
  else
    let registered ← (resourcing (register owner descriptor transferPolicy)).attempt
    match registered with
    | .error error =>
      let _ ← releaseHeap owner logicalBytes
      throw error
    | .ok event =>
      let id := registeredId event
      self fun memory =>
        { memory with
          resourceOwnership := memory.resourceOwnership.insert id
            { resourceId := id, owner := owner.value, logicalBytes } }
      return { event := some event, pressure }

/-! ## Requests -/

/-- Operations of the accountant, messages of the system, which nobody is charged for, and
what happens to the processes between them. -/
inductive Request where
  | accountHeap (pid : VmProcessId) (requestedBytes : Nat)
  | releaseHeap (pid : VmProcessId) (releasedBytes : Nat)
  | registerResource (owner : VmProcessId) (descriptor : VmResourceDescriptor)
      (transferPolicy : VmResourceTransferPolicy) (logicalBytes : Nat)
  | sendMessage (sender recipient : VmProcessId) (payload : ReplValue) (accountedBytes : Nat)
  | sendValueMessage (sender recipient : VmProcessId) (payload : ReplValue)
  | sendTypedValueMessage (sender recipient : VmProcessId) (payload : ReplValue)
      (boundaryType : TvmBoundaryType)
  | sendTypedManagedMessage (sender recipient : VmProcessId) (fragment : VmManagedMailboxToken)
      (boundaryType : TvmBoundaryType)
  | sendPriorityValueMessage (sender recipient : VmProcessId) (payload : ReplValue)
  | sendSystem (origin recipient : VmProcessId) (payload : ReplValue) (lane : VmMessagePriority)
  | receiveMessage (recipient : VmProcessId)
  | selectiveReceive (recipient : VmProcessId) (predicate : VmMessage → Bool)
  | spawnRoot (source : VmProcessSource)
  | spawnChild (parent : VmProcessId) (source : VmProcessSource)
  | exitProcess (pid : VmProcessId) (reason : VmExitReason)
  | markActorQueued (pid : VmProcessId)
  | acquireActorMutator (pid : VmProcessId) (owner : UInt64)
  | integrateActorMailbox (token : VmActorMutatorToken) (issued : token.owner ≠ 0)
  | releaseActorMutator (token : VmActorMutatorToken) (issued : token.owner ≠ 0)
      (next : VmActorLifecycle)

inductive Answer where
  | done
  | pressure (decision : VmMemoryPressureDecision)
  | released (bytes : Nat)
  | resource (decision : VmAccountedResourceDecision)
  | sent (send : VmAccountedMessageSend)
  | message (id : UInt64)
  | received (message : Option VmMessage)
  | selected (outcome : VmSelectiveReceiveOutcome)
  | spawned (pid : VmProcessId)
  | cleanup (handles : List String)
  | granted (token : VmActorMutatorToken)
  | integrated (count : Nat)
  | given (lifecycle : VmActorLifecycle)

def Request.perform : Request → Method (Fault String) Accounting Answer
  | .accountHeap pid requestedBytes => .pressure <$> (Memory.accountHeap pid requestedBytes).orReturn
  | .releaseHeap pid releasedBytes => .released <$> (Memory.releaseHeap pid releasedBytes).orReturn
  | .registerResource owner descriptor transferPolicy logicalBytes =>
    .resource <$> (Memory.registerResource owner descriptor transferPolicy logicalBytes).orReturn
  | .sendMessage sender recipient payload accountedBytes =>
    .sent <$> (Memory.sendMessage sender recipient payload accountedBytes).orReturn
  | .sendValueMessage sender recipient payload =>
    .sent <$> (Memory.sendValueMessage sender recipient payload).orReturn
  | .sendTypedValueMessage sender recipient payload boundaryType =>
    .sent <$> (Memory.sendTypedValueMessage sender recipient payload boundaryType).orReturn
  | .sendTypedManagedMessage sender recipient fragment boundaryType =>
    .sent <$> (Memory.sendTypedManagedMessage sender recipient fragment boundaryType).orReturn
  | .sendPriorityValueMessage sender recipient payload =>
    .sent <$> (Memory.sendPriorityValueMessage sender recipient payload).orReturn
  | .sendSystem origin recipient payload lane =>
    .message <$> (table (VmProcessTable.sendSystem origin recipient payload lane)).orReturn
  | .receiveMessage recipient => .received <$> (Memory.receiveMessage recipient).orReturn
  | .selectiveReceive recipient predicate =>
    .selected <$> (selectiveReceiveMessageWithScan recipient predicate).orReturn
  | .spawnRoot source => .spawned <$> table (VmProcessTable.spawnRoot source)
  | .spawnChild parent source => .spawned <$> table (VmProcessTable.spawnChild parent source)
  | .exitProcess pid reason =>
    .cleanup <$> (table (VmProcessTable.exitProcess pid reason)).orReturn
  | .markActorQueued pid =>
    (fun _ => .done) <$> (table (VmProcessTable.markActorQueued pid)).orReturn
  | .acquireActorMutator pid owner =>
    .granted <$> (table (VmProcessTable.acquireActorMutator pid owner)).orReturn
  | .integrateActorMailbox token _ =>
    .integrated <$> (table (VmProcessTable.integrateActorMailbox token)).orReturn
  | .releaseActorMutator token _ next =>
    .given <$> (table (VmProcessTable.releaseActorMutator token next)).orReturn

def call (s : Accounting) (request : Request) : Accounting × Except (Fault String) Answer :=
  request.perform.call s

abbrev History := List (Request × Except (Fault String) Answer)

/-! ## Accounts -/

/-- The bytes that a decision charged. -/
def VmMemoryPressureDecision.charged (decision : VmMemoryPressureDecision) : Nat :=
  if decision.outcome = .hardLimitRejected then 0 else decision.requestedBytes

/-- What a call adds to the account of a process apart from messages. -/
def entry (pid : VmProcessId) : Request × Except (Fault String) Answer → Int
  | (.accountHeap owner _, .ok (.pressure decision)) => if owner = pid then decision.charged else 0
  | (.releaseHeap owner _, .ok (.released bytes)) => if owner = pid then -bytes else 0
  | (.registerResource owner _ _ _, .ok (.resource decision)) =>
    if owner = pid then decision.pressure.charged else 0
  | _ => 0

theorem entry_error (pid : VmProcessId) (request : Request) (fault : Fault String) :
    entry pid (request, .error fault) = 0 := by
  cases request <;> rfl

/-- The account of a process apart from messages. -/
def direct (history : History) (pid : VmProcessId) : Int := (history.map (entry pid)).sum

/-- The bytes of the messages that a process has not received. -/
def undelivered (actor : VmActor) : Nat :=
  (actor.value.mailbox.map (·.accountedBytes)).sum +
    (actor.pending.map (·.payload.accountedBytes)).sum

/-- The heap of no process is above the limit. -/
def Bounded (s : Accounting) : Prop :=
  ∀ pid process, s.processes.get pid = some process →
    process.heapBytes ≤ s.memory.limits.hardBytes

/-- The heap of a live process is its account with the messages that wait for it. -/
def Balanced (s : Accounting) (history : History) : Prop :=
  ∀ pid (actor : VmActor), s.processes.view pid = some actor →
    actor.value.state.isExited = false →
    (actor.value.heapBytes : Int) = direct history pid + undelivered actor

/-- The heap of no process changed. -/
def Untouched (before after : Accounting) : Prop :=
  ∀ pid, (after.processes.get pid).map (·.heapBytes) = (before.processes.get pid).map (·.heapBytes)

/-- The route and the bytes of a send that charges its receiver. -/
def Request.charges : Request → Option (VmProcessId × VmProcessId × Nat)
  | .sendMessage sender recipient _ accountedBytes => some (sender, recipient, accountedBytes)
  | .sendValueMessage sender recipient payload
  | .sendTypedValueMessage sender recipient payload _
  | .sendPriorityValueMessage sender recipient payload =>
    (logicalValueBytes payload).toOption.map fun bytes => (sender, recipient, bytes)
  | .sendTypedManagedMessage sender recipient fragment _ =>
    if fragment.sender = sender.value ∧ fragment.receiver = recipient.value then
      some (sender, recipient, fragment.accountedBytes)
    else none
  | _ => none

/-- The mailbox of the receiver refuses a message after the heap took its bytes: nobody
executes the receiver, but it is ending or its queue is full. -/
def Leaks (s : Accounting) (request : Request) : Prop :=
  ∃ send ∈ request.charges, 0 < send.2.2 ∧ s.processes.validateSend send.1 send.2.1 = .ok () ∧
    ∃ actor ∈ s.processes.view send.2.1, actor.lifecycle ≠ .executing ∧
      actor.value.heapBytes + send.2.2 ≤ s.memory.limits.hardBytes ∧
      ¬ VmProcessTable.Accepts actor

instance (actor : VmActor) : Decidable (VmProcessTable.Accepts actor) :=
  inferInstanceAs (Decidable (_ ∧ _))

instance (s : Accounting) (request : Request) : Decidable (Leaks s request) :=
  inferInstanceAs (Decidable (∃ send ∈ request.charges, 0 < send.2.2 ∧
    s.processes.validateSend send.1 send.2.1 = .ok () ∧
    ∃ actor ∈ s.processes.view send.2.1, actor.lifecycle ≠ .executing ∧
      actor.value.heapBytes + send.2.2 ≤ s.memory.limits.hardBytes ∧
      ¬ VmProcessTable.Accepts actor))

/-- A receive finds that a release has already taken bytes of its message. -/
def Overdrawn (s : Accounting) : Request → Prop
  | .receiveMessage recipient => ∃ process ∈ s.processes.get recipient,
      ∃ message ∈ process.receiveNext.2, process.heapBytes < message.accountedBytes
  | .selectiveReceive recipient predicate => ∃ process ∈ s.processes.get recipient,
      ∃ message ∈ (process.selectiveReceive predicate).2,
        process.heapBytes < message.accountedBytes
  | _ => False

/-! ## One process changes -/

/-- The heap of a process without the messages that wait for it. Ended processes have none. -/
def standing : Option VmActor → Option Int
  | none => some 0
  | some actor =>
    if actor.value.state.isExited then none
    else some (actor.value.heapBytes - undelivered actor)

/-- What one operation does: `credit` is what its result adds to the accounts, and it is
exact when `covered` holds. -/
structure Settles {ε α : Type} (s : Accounting) (covered : Prop)
    (credit : Except ε α → VmProcessId → Int) (result : Accounting × Except ε α) : Prop where
  sound : result.1.processes.Sound
  limits : result.1.memory.limits = s.memory.limits
  bounded : Bounded result.1
  untouched : ∀ e, result.2 = .error e → Untouched s result.1
  balanced : covered → ∀ pid after, standing (result.1.processes.view pid) = some after →
    ∃ before, standing (s.processes.view pid) = some before ∧ after = before + credit result.2 pid

/-- Tables that account for their heaps. -/
structure Accounted (s : Accounting) : Prop where
  sound : s.processes.Sound
  bounded : Bounded s

section Settles

variable {ε α : Type} {s after : Accounting} {covered : Prop} {pid : VmProcessId}
  {actor actor' : VmActor} {credit : Except ε α → VmProcessId → Int}

theorem Accounted.heap_le (h : Accounted s) (found : s.processes.view pid = some actor) :
    actor.value.heapBytes ≤ s.memory.limits.hardBytes :=
  h.bounded pid actor.value (by rw [get_eq_view, found]; rfl)

variable {result : Except ε α}

/-- Nothing that is accounted changes. -/
theorem settles_same (h : Accounted s) (sound : after.processes.Sound)
    (same : after.processes.view = s.processes.view)
    (limits : after.memory.limits = s.memory.limits)
    (zero : ∀ pid, credit result pid = 0) : Settles s covered credit (after, result) where
  sound := sound
  limits := limits
  bounded pid process found := by
    rw [VmProcessTable.get_eq_view, same, ← VmProcessTable.get_eq_view] at found
    change process.heapBytes ≤ after.memory.limits.hardBytes
    rw [limits]
    exact h.bounded pid process found
  untouched e _ pid := by
    change (VmProcessTable.get after.processes pid).map _ = _
    rw [VmProcessTable.get_eq_view, same, ← VmProcessTable.get_eq_view]
  balanced _ pid b stands := by
    refine ⟨b, ?_, ?_⟩
    · rw [← same]
      exact stands
    · rw [zero]
      exact (Int.add_zero b).symm

theorem settles_refused (h : Accounted s) (e : ε) (zero : ∀ pid, credit (.error e) pid = 0) :
    Settles s covered credit (s, .error e) := settles_same h h.sound rfl rfl zero

/-- One process changes by its credit. -/
theorem settles_changed (h : Accounted s) (found : s.processes.view pid = some actor)
    (becomes : s.processes.Becomes pid actor' after.processes)
    (limits : after.memory.limits = s.memory.limits)
    (heap : actor'.value.heapBytes ≤ s.memory.limits.hardBytes)
    (untouched : ∀ e, result = .error e → actor'.value.heapBytes = actor.value.heapBytes)
    (others : ∀ other, other ≠ pid → credit result other = 0)
    (own : covered → actor'.value.state.isExited = false →
      actor.value.state.isExited = false ∧
      (actor'.value.heapBytes : Int) - undelivered actor' =
        actor.value.heapBytes - undelivered actor + credit result pid) :
    Settles s covered credit (after, result) where
  sound := becomes.sound
  limits := limits
  bounded other process seen := by
    change process.heapBytes ≤ after.memory.limits.hardBytes
    rw [limits]
    rw [becomes.get] at seen
    split at seen
    next =>
      cases seen
      exact heap
    next => exact h.bounded other process seen
  untouched e failed other := by
    change (VmProcessTable.get after.processes other).map _ = _
    rw [becomes.get]
    split
    next same =>
      rw [same, VmProcessTable.get_eq_view, found]
      exact congrArg some (untouched e failed)
    next => rfl
  balanced full other b stands := by
    rw [becomes.view, update_apply] at stands
    split at stands
    next same =>
      unfold standing at stands
      dsimp only at stands
      split at stands
      next => cases stands
      next live =>
        obtain ⟨live', sums⟩ := own full (Bool.eq_false_iff.mpr live)
        refine ⟨actor.value.heapBytes - undelivered actor, ?_, ?_⟩
        · rw [same, found, standing, live']
          rfl
        · rw [same, ← sums]
          exact (Option.some.inj stands).symm
    next differs =>
      refine ⟨b, stands, ?_⟩
      rw [others other differs, Int.add_zero]

/-- A process whose heap and messages stay. -/
theorem settles_moved (h : Accounted s) (found : s.processes.view pid = some actor)
    (becomes : s.processes.Becomes pid actor' after.processes)
    (limits : after.memory.limits = s.memory.limits)
    (heap : actor'.value.heapBytes = actor.value.heapBytes)
    (waiting : undelivered actor' = undelivered actor)
    (live : actor'.value.state.isExited = actor.value.state.isExited)
    (zero : ∀ pid, credit result pid = 0) : Settles s covered credit (after, result) :=
  settles_changed h found becomes limits (heap ▸ h.heap_le found) (fun _ _ => heap)
    (fun other _ => zero other) fun _ still => ⟨live ▸ still, by rw [heap, waiting, zero, Int.add_zero]⟩

/-- The operation as a request. -/
theorem settles_orReturn {request : Request} {m : Method String Accounting α} (f : α → Answer)
    {credit : Except String α → VmProcessId → Int} (settles : Settles s covered credit (m.call s))
    (failed : ∀ e pid, credit (.error e) pid = 0)
    (named : ∀ a pid, credit (.ok a) pid = entry pid (request, .ok (f a))) :
    Settles s covered (fun answer pid => entry pid (request, answer))
      ((f <$> m.orReturn).call s) := by
  obtain ⟨sound, limits, bounded, untouched, balanced⟩ := settles
  rw [call_map, call_orReturn]
  rcases run : Method.call m s with ⟨after, e | a⟩
  · rw [run] at sound limits bounded untouched balanced
    refine ⟨sound, limits, bounded, fun _ _ => untouched e rfl, fun full pid b stands => ?_⟩
    obtain ⟨b', stood, sums⟩ := balanced full pid b stands
    rw [failed] at sums
    exact ⟨b', stood, sums.trans (congrArg (b' + ·) (entry_error pid request _).symm)⟩
  · rw [run] at sound limits bounded balanced
    refine ⟨sound, limits, bounded, (fun _ fails => by cases fails), fun full pid b stands => ?_⟩
    obtain ⟨b', stood, sums⟩ := balanced full pid b stands
    rw [named] at sums
    exact ⟨b', stood, sums⟩

end Settles

/-! ## Charges and releases -/

section Operations

variable {α : Type} {s : Accounting} {covered : Prop} {pid : VmProcessId}

theorem requireLiveProcess_ok_iff {processes : VmProcessTable} :
    requireLiveProcess processes pid = .ok () ↔ processes.isAlive pid = true := by
  unfold requireLiveProcess VmProcessTable.isAlive
  cases processes.get pid with
  | none => simp
  | some process => simp [failIf_ok_iff]

/-- A mutation of a process that is live and that nobody executes; others are refused. -/
theorem withLiveProcessMut_cases (h : s.processes.Sound) (pid : VmProcessId)
    (mutate : VmProcess → VmProcess × α)
    (keeps : ∀ process, (mutate process).1.state.isExited = process.state.isExited) :
    (∃ e, Method.call (withLiveProcessMut pid mutate) s = (s, .error e) ∧
      ∀ actor, s.processes.view pid = some actor →
        actor.value.state.isExited = true ∨ actor.lifecycle = .executing) ∨
      ∃ processes actor, Method.call (withLiveProcessMut pid mutate) s =
          ({ s with processes }, .ok (mutate actor.value).2) ∧
        s.processes.view pid = some actor ∧ actor.value.state.isExited = false ∧
        actor.lifecycle ≠ .executing ∧
        s.processes.Becomes pid { actor with value := (mutate actor.value).1 } processes := by
  unfold withLiveProcessMut table
  rw [call_get_bind, call_check_bind]
  cases valid : requireLiveProcess s.processes pid with
  | error e =>
    refine .inl ⟨e, rfl, fun actor found => .inl ?_⟩
    by_contra live
    have alive := requireLiveProcess_ok_iff.mpr
      (isAlive_iff.mpr ⟨actor, found, Bool.eq_false_iff.mpr live⟩)
    rw [valid] at alive
    cases alive
  | ok _ =>
    obtain ⟨actor, found, live⟩ := isAlive_iff.mp (requireLiveProcess_ok_iff.mp valid)
    dsimp only
    rw [call_within]
    rcases h.withProcessControlMutator_cases pid keeps with
      ⟨e, run, busy⟩ | ⟨processes, actor', run, found', idle, becomes⟩
    · rw [run]
      exact .inl ⟨e, rfl, fun actor found => .inr (busy actor found)⟩
    · cases found'.symm.trans found
      rw [run]
      exact .inr ⟨_, actor, rfl, found, live, idle, becomes⟩

/-- A charge adds the bytes of its decision, within the limit. -/
theorem charge_spec (limits : VmMemoryLimits) (requestedBytes : Nat) (process : VmProcess)
    (pid : UInt64) : ∃ previousBytes projectedBytes outcome currentBytes charged,
      charge limits requestedBytes process =
        ({ process with heapBytes := process.heapBytes + charged },
          previousBytes, projectedBytes, outcome, currentBytes) ∧
      (VmMemoryPressureDecision.mk pid requestedBytes previousBytes projectedBytes
        outcome).charged = charged ∧
      (outcome = .hardLimitRejected ∧ charged = 0 ∨
        outcome ≠ .hardLimitRejected ∧ charged = requestedBytes ∧
          process.heapBytes + requestedBytes ≤ limits.hardBytes) := by
  have fits := limits.fits
  unfold charge VmMemoryPressureDecision.charged
  dsimp only
  by_cases overflow : usizeMax < process.heapBytes + requestedBytes
  · rw [if_pos (.inl overflow)]
    exact ⟨_, _, _, _, 0, rfl, rfl, .inl ⟨rfl, rfl⟩⟩
  rw [if_neg overflow]
  by_cases hard : limits.hardBytes < process.heapBytes + requestedBytes
  · rw [if_pos (.inr hard)]
    exact ⟨_, _, _, _, 0, rfl, rfl, .inl ⟨rfl, rfl⟩⟩
  rw [if_neg (not_or.mpr ⟨overflow, hard⟩)]
  by_cases soft : limits.softBytes < process.heapBytes + requestedBytes
  · rw [if_pos soft]
    exact ⟨_, _, _, _, requestedBytes, rfl, rfl, .inr ⟨by decide, rfl, Nat.not_lt.mp hard⟩⟩
  · rw [if_neg soft]
    exact ⟨_, _, _, _, requestedBytes, rfl, rfl, .inr ⟨by decide, rfl, Nat.not_lt.mp hard⟩⟩

theorem charge_isExited (limits : VmMemoryLimits) (requestedBytes : Nat) (process : VmProcess) :
    (charge limits requestedBytes process).1.state.isExited = process.state.isExited := by
  obtain ⟨_, _, _, _, _, run, _⟩ := charge_spec limits requestedBytes process 0
  rw [run]

theorem accountHeap_cases (h : s.processes.Sound) (pid : VmProcessId) (requestedBytes : Nat) :
    (∃ e, Method.call (accountHeap pid requestedBytes) s = (s, .error e)) ∨
      ∃ after decision actor, Method.call (accountHeap pid requestedBytes) s =
          (after, .ok decision) ∧
        s.processes.view pid = some actor ∧ actor.value.state.isExited = false ∧
        actor.lifecycle ≠ .executing ∧ after.memory.limits = s.memory.limits ∧
        after.resources = s.resources ∧
        s.processes.Becomes pid
          { actor with
            value := { actor.value with heapBytes := actor.value.heapBytes + decision.charged } }
          after.processes ∧
        (decision.outcome = .hardLimitRejected ∧ decision.charged = 0 ∨
          decision.outcome ≠ .hardLimitRejected ∧ decision.charged = requestedBytes ∧
            actor.value.heapBytes + requestedBytes ≤ s.memory.limits.hardBytes) := by
  unfold accountHeap Accounting.self
  rw [call_get_bind, call_bind]
  rcases withLiveProcessMut_cases h pid _ (charge_isExited s.memory.limits requestedBytes) with
    ⟨e, run, _⟩ | ⟨processes, actor, run, found, live, idle, becomes⟩
  · rw [run]
    exact .inl ⟨e, rfl⟩
  rw [run]
  right
  obtain ⟨previous, projected, outcome, current, charged, same, named, decided⟩ :=
    charge_spec s.memory.limits requestedBytes actor.value pid.value
  rw [same] at becomes ⊢
  dsimp only
  rw [call_modify_bind, call_modify_bind]
  refine ⟨_, _, actor, rfl, found, live, idle, rfl, rfl, ?_, ?_⟩
  · rw [named]
    exact becomes
  · rw [named]
    exact decided

/-- A release takes what is there. -/
theorem releaseHeap_cases (h : s.processes.Sound) (pid : VmProcessId) (releasedBytes : Nat) :
    (∃ e, Method.call (releaseHeap pid releasedBytes) s = (s, .error e) ∧
      ∀ actor, s.processes.view pid = some actor →
        actor.value.state.isExited = true ∨ actor.lifecycle = .executing) ∨
      ∃ after actor, Method.call (releaseHeap pid releasedBytes) s =
          (after, .ok (min releasedBytes actor.value.heapBytes)) ∧
        s.processes.view pid = some actor ∧ after.memory.limits = s.memory.limits ∧
        after.resources = s.resources ∧
        s.processes.Becomes pid
          { actor with
            value := { actor.value with
              heapBytes := actor.value.heapBytes - min releasedBytes actor.value.heapBytes } }
          after.processes := by
  unfold releaseHeap Accounting.self
  rw [call_bind]
  rcases withLiveProcessMut_cases h pid
      (fun process =>
        ({ process with heapBytes := process.heapBytes - min releasedBytes process.heapBytes },
          min releasedBytes process.heapBytes,
          process.heapBytes - min releasedBytes process.heapBytes)) (fun _ => rfl) with
    ⟨e, run, refused⟩ | ⟨processes, actor, run, found, live, idle, becomes⟩
  · rw [run]
    exact .inl ⟨e, rfl, refused⟩
  rw [run]
  right
  dsimp only
  rw [call_modify_bind]
  exact ⟨_, actor, rfl, found, rfl, rfl, becomes⟩

/-- A result that changes the account of one process. -/
def credits {ε : Type} (pid : VmProcessId) (amount : α → Int) (answer : Except ε α)
    (other : VmProcessId) : Int :=
  match answer with
  | .ok a => if pid = other then amount a else 0
  | .error _ => 0

/-- A process is charged what a decision says, whatever happens to its handles. -/
theorem settles_charged {after : Accounting} (h : Accounted s)
    (found : s.processes.view pid = some actor) (live : actor.value.state.isExited = false) {handles : List String} {charge : α → Nat} {a : α}
    {rejected taken : Prop} {requestedBytes : Nat}
    (becomes : s.processes.Becomes pid
      { actor with
        value := { actor.value with
          heapBytes := actor.value.heapBytes + charge a, resourceHandles := handles } }
      after.processes)
    (limits : after.memory.limits = s.memory.limits)
    (decided : rejected ∧ charge a = 0 ∨ taken ∧ charge a = requestedBytes ∧
      actor.value.heapBytes + requestedBytes ≤ s.memory.limits.hardBytes) :
    Settles s covered (credits (ε := ε) pid fun a => (charge a : Int)) (after, .ok a) := by
  refine settles_changed h found becomes limits ?_ (fun _ fails => by cases fails)
    (fun other differs => if_neg fun same => differs same.symm) fun _ _ => ⟨live, ?_⟩
  · change actor.value.heapBytes + charge a ≤ _
    rcases decided with ⟨_, none⟩ | ⟨_, all, room⟩
    · rw [none]
      exact h.heap_le found
    · rw [all]
      exact room
  · change ((actor.value.heapBytes + charge a : Nat) : Int) - undelivered actor =
      _ + if pid = pid then _ else _
    rw [if_pos rfl]
    omega

theorem settles_accountHeap (h : Accounted s) (pid : VmProcessId) (requestedBytes : Nat) :
    Settles s covered (credits pid fun decision => (decision.charged : Int))
      ((accountHeap pid requestedBytes).call s) := by
  rcases accountHeap_cases h.sound pid requestedBytes with
    ⟨e, run⟩ | ⟨after, decision, actor, run, found, live, idle, limits, _, becomes, decided⟩
  · rw [run]
    exact settles_refused h e fun _ => rfl
  rw [run]
  exact settles_charged h found live becomes limits decided

theorem settles_releaseHeap (h : Accounted s) (pid : VmProcessId) (releasedBytes : Nat) :
    Settles s covered (credits pid fun released : Nat => -(released : Int))
      ((releaseHeap pid releasedBytes).call s) := by
  rcases releaseHeap_cases h.sound pid releasedBytes with
    ⟨e, run, _⟩ | ⟨after, actor, run, found, limits, _, becomes⟩
  · rw [run]
    exact settles_refused h e fun _ => rfl
  rw [run]
  have small := h.heap_le found
  refine settles_changed h found becomes limits ?_ (fun _ fails => by cases fails)
    (fun other differs => if_neg fun same => differs same.symm) fun _ live => ⟨live, ?_⟩
  · change actor.value.heapBytes - min releasedBytes actor.value.heapBytes ≤ _
    omega
  · change ((actor.value.heapBytes - min releasedBytes actor.value.heapBytes : Nat) : Int) -
      undelivered actor = _ + if pid = pid then _ else _
    rw [if_pos rfl]
    omega

/-! ## Messages -/

theorem undelivered_integrated (actor : VmActor) (lifecycle : VmActorLifecycle) :
    undelivered ⟨integrated actor, [], lifecycle⟩ = undelivered actor := by
  have arrives := ((VmProcessTable.integrated_mailbox actor).map (·.accountedBytes)).sum_eq
  rw [map_append, sum_append, map_map] at arrives
  exact arrives

/-- The receiver of a message has its bytes in addition, and the same heap. -/
theorem undelivered_receives {actor received : VmActor} {fragment : VmPublishedFragment VmMessage}
    (receives : VmProcessTable.Receives actor fragment received) :
    received.value.heapBytes = actor.value.heapBytes ∧
      received.value.state.isExited = actor.value.state.isExited ∧
      undelivered received = undelivered actor + fragment.payload.accountedBytes := by
  have grown : undelivered { actor with pending := actor.pending ++ [fragment] } =
      undelivered actor + fragment.payload.accountedBytes := by
    unfold undelivered
    simp
    omega
  cases receives with
  | waits executing => exact ⟨rfl, rfl, grown⟩
  | arrives idle moved =>
    exact ⟨integrated_heapBytes _, integrated_isExited _,
      (undelivered_integrated _ _).trans grown⟩

/-- A charge and a publication that the receiver takes. -/
theorem settles_chargeAndSend (h : Accounted s) {sender recipient : VmProcessId}
    (valid : s.processes.validateSend sender recipient = .ok ()) (delivery : VmMessageDelivery)
    (taken : ∀ actor, s.processes.view recipient = some actor → 0 < delivery.accountedBytes →
      actor.lifecycle ≠ .executing →
      actor.value.heapBytes + delivery.accountedBytes ≤ s.memory.limits.hardBytes →
      VmProcessTable.Accepts actor) : Settles s covered (fun _ _ => 0)
      ((chargeAndSend recipient delivery.accountedBytes
        (sendDelivery sender recipient delivery)).call s) := by
  unfold chargeAndSend
  rw [call_bind]
  rcases accountHeap_cases h.sound recipient delivery.accountedBytes with
    ⟨e, run⟩ | ⟨after, decision, actor, run, found, live, idle, limits, _, becomes, decided⟩
  · rw [run]
    exact settles_refused h e fun _ => rfl
  rw [run]
  dsimp only
  rw [call_ite]
  rcases decided with ⟨rejected, none⟩ | ⟨outcome, all, room⟩
  · rw [if_pos rejected]
    rw [none] at becomes
    exact settles_moved h found becomes limits rfl rfl rfl fun _ => rfl
  rw [if_neg outcome, call_bind, table, call_within]
  have valid' : after.processes.validateSend sender recipient = .ok () := by
    obtain ⟨sends, receives⟩ := check_bind_ok_iff.mp valid
    refine check_bind_ok_iff.mpr ⟨?_, ?_⟩
    · exact validateRole_ok_iff.mpr
        ((becomes.isAlive found rfl sender).trans (validateRole_ok_iff.mp sends))
    · exact validateRole_ok_iff.mpr
        ((becomes.isAlive found rfl recipient).trans
          (validateRole_ok_iff.mp receives))
  rw [VmProcessTable.call_sendDelivery valid']
  have found' : after.processes.view recipient = some
      { actor with
        value := { actor.value with heapBytes := actor.value.heapBytes + decision.charged } } := by
    rw [becomes.view, update_self]
  rcases becomes.sound.enqueueMessage_cases sender found' delivery with
    ⟨e, run', refused⟩ | ⟨sent, publication, received, run', _, receives, becomes'⟩
  · rw [run']
    have empty : decision.charged = 0 := by
      rw [all]
      by_contra some
      exact refused (taken actor found (Nat.pos_of_ne_zero some) idle room)
    rw [empty] at becomes
    exact settles_moved h found becomes limits rfl rfl rfl fun _ => rfl
  · rw [run']
    obtain ⟨heap, exited, waiting⟩ := undelivered_receives receives
    dsimp only
    refine settles_changed h found (?_ : s.processes.Becomes recipient received _) ?_ ?_
      (fun _ fails => by cases fails) (fun _ _ => rfl) fun _ _ => ⟨live, ?_⟩
    · exact becomes.again becomes'
    · exact limits
    · rw [heap, all]
      exact room
    · rw [heap, waiting]
      change ((actor.value.heapBytes + decision.charged : Nat) : Int) -
        (undelivered actor + delivery.accountedBytes : Nat) = _
      omega

variable {request : Request}

/-- No leak: a receiver with room on its heap takes the message. -/
theorem accepts_of_not_leaks (safe : ¬ Leaks s request)
    {sender recipient : VmProcessId} {bytes : Nat}
    (charges : request.charges = some (sender, recipient, bytes))
    (valid : s.processes.validateSend sender recipient = .ok ()) (actor : VmActor)
    (found : s.processes.view recipient = some actor) (some : 0 < bytes)
    (idle : actor.lifecycle ≠ .executing)
    (room : actor.value.heapBytes + bytes ≤ s.memory.limits.hardBytes) :
    VmProcessTable.Accepts actor := by
  by_contra refused
  exact safe ⟨_, charges, some, valid, actor, found, idle, room, refused⟩

theorem settles_sendMessage (h : Accounted s) (sender recipient : VmProcessId)
    (payload : ReplValue) (bytes : Nat) (safe : ¬ Leaks s request)
    (charges : request.charges = some (sender, recipient, bytes)) :
    Settles s covered (fun _ _ => 0) ((sendMessage sender recipient payload bytes).call s) := by
  unfold sendMessage
  rw [call_get_bind, call_check_bind]
  cases valid : s.processes.validateSend sender recipient with
  | error e => exact settles_refused h e fun _ => rfl
  | ok _ =>
    exact settles_chargeAndSend h valid ⟨payload, none, none, bytes, .ordinary⟩
      (accepts_of_not_leaks safe charges valid)

theorem payloadBytes_ok_iff {payload : ReplValue} {bytes : Nat} :
    payloadBytes payload = .ok bytes ↔ (logicalValueBytes payload).toOption = some bytes := by
  unfold payloadBytes
  cases logicalValueBytes payload <;> simp [Except.mapError, Except.toOption]

section

variable (h : Accounted s)
include h

theorem settles_sendValueMessage (sender recipient : VmProcessId)
    (payload : ReplValue) (safe : ¬ Leaks s (.sendValueMessage sender recipient payload)) :
    Settles s covered (fun _ _ => 0) ((sendValueMessage sender recipient payload).call s) := by
  unfold sendValueMessage
  rw [call_check_bind]
  cases size : payloadBytes payload with
  | error e => exact settles_refused h e fun _ => rfl
  | ok bytes =>
    refine settles_sendMessage h sender recipient payload bytes safe ?_
    rw [Request.charges, payloadBytes_ok_iff.mp size]
    rfl

/-- A validated route, the size of the payload and a send. -/
theorem settles_measured (sender recipient : VmProcessId) (payload : ReplValue)
    (delivery : Nat → VmMessageDelivery) (measured : ∀ bytes, (delivery bytes).accountedBytes = bytes)
    (safe : ¬ Leaks s request) (charges : request.charges =
      (logicalValueBytes payload).toOption.map fun bytes => (sender, recipient, bytes))
    (send : Nat → Method String VmProcessTable UInt64)
    (sends : ∀ bytes, send bytes = sendDelivery sender recipient (delivery bytes)) :
    Settles s covered (fun _ _ => 0) (Method.call (do
      let s ← get
      s.processes.validateSend sender recipient
      let logicalBytes ← payloadBytes payload
      chargeAndSend recipient logicalBytes (send logicalBytes) :
        Method String Accounting VmAccountedMessageSend) s) := by
  rw [call_get_bind, call_check_bind]
  cases valid : s.processes.validateSend sender recipient with
  | error e => exact settles_refused h e fun _ => rfl
  | ok _ =>
    dsimp only
    rw [call_check_bind]
    cases size : payloadBytes payload with
    | error e => exact settles_refused h e fun _ => rfl
    | ok bytes =>
      rw [payloadBytes_ok_iff.mp size] at charges
      dsimp only
      rw [sends]
      have settles : _ → Settles s covered _ _ :=
        settles_chargeAndSend h valid (delivery bytes)
      rw [measured] at settles
      exact settles (accepts_of_not_leaks safe charges valid)

theorem settles_sendTypedManagedMessage (sender recipient : VmProcessId)
    (fragment : VmManagedMailboxToken) (boundaryType : TvmBoundaryType)
    (safe : ¬ Leaks s (.sendTypedManagedMessage sender recipient fragment boundaryType)) :
    Settles s covered (fun _ _ => 0)
      ((sendTypedManagedMessage sender recipient fragment boundaryType).call s) := by
  unfold sendTypedManagedMessage
  rw [call_get_bind, call_check_bind]
  cases valid : s.processes.validateSend sender recipient with
  | error e => exact settles_refused h e fun _ => rfl
  | ok _ =>
    dsimp only
    rw [call_check_bind]
    by_cases route : fragment.sender ≠ sender.value ∨ fragment.receiver ≠ recipient.value
    · rw [failIf, if_pos route]
      exact settles_refused h _ fun _ => rfl
    rw [failIf, if_neg route]
    obtain ⟨own, same⟩ := not_or.mp route
    refine settles_chargeAndSend h valid
      ⟨.unit, some boundaryType, some fragment, fragment.accountedBytes, .ordinary⟩
      (accepts_of_not_leaks safe ?_ valid)
    rw [Request.charges, if_pos ⟨not_not.mp own, not_not.mp same⟩]

theorem settles_sendSystem (origin recipient : VmProcessId)
    (payload : ReplValue) (lane : VmMessagePriority) : Settles s covered (fun _ _ => 0)
      (Method.call (table (VmProcessTable.sendSystem origin recipient payload lane) :
        Method String Accounting UInt64) s) := by
  rw [table, call_within]
  rcases h.sound.sends_sendSystem origin recipient payload lane with
    ⟨e, run⟩ | ⟨after, actor, publication, received, run, found, live, _, receives, becomes⟩
  · rw [run]
    exact settles_refused h e fun _ => rfl
  rw [run]
  obtain ⟨heap, exited, waiting⟩ := undelivered_receives receives
  dsimp only
  refine settles_moved h found (?_ : s.processes.Becomes recipient received _) ?_ heap waiting
    exited fun _ => rfl
  · exact becomes
  · rfl

/-- A receive: a message leaves the mailbox, and its bytes the heap. -/
theorem settles_take {β : Type} {mutate : VmProcess → VmProcess × α}
    {rest : α → Method String Accounting β} (taken : VmProcess → Option VmMessage)
    (leaves : ∀ process, ∃ mailbox, (mutate process).1 = { process with mailbox } ∧
      (process.mailbox.map (·.accountedBytes)).sum =
        (taken process).elim 0 (·.accountedBytes) + (mailbox.map (·.accountedBytes)).sum)
    (nothing : ∀ process, taken process = none → ∃ b, rest (mutate process).2 = pure b)
    (something : ∀ process message, taken process = some message →
      ∃ b, rest (mutate process).2 = do
        let _ ← releaseHeap pid message.accountedBytes
        pure b) (enough : covered → ∀ (actor : VmActor) message, s.processes.view pid = some actor →
      taken actor.value = some message → message.accountedBytes ≤ actor.value.heapBytes) :
    Settles s covered (fun _ _ => 0) (Method.call (withLiveProcessMut pid mutate >>= rest) s) := by
  rw [call_bind]
  have keeps (process : VmProcess) :
      (mutate process).1.state.isExited = process.state.isExited := by
    obtain ⟨mailbox, same, _⟩ := leaves process
    rw [same]
  rcases withLiveProcessMut_cases h.sound pid _ keeps with
    ⟨e, run, _⟩ | ⟨processes, actor, run, found, live, idle, becomes⟩
  · rw [run]
    exact settles_refused h e fun _ => rfl
  rw [run]
  dsimp only
  obtain ⟨mailbox, same, sums⟩ := leaves actor.value
  rw [same] at becomes
  cases message : taken actor.value with
  | none =>
    obtain ⟨b, rests⟩ := nothing actor.value message
    rw [rests]
    rw [message] at sums
    rw [call_pure]
    have waiting : undelivered { actor with value := { actor.value with mailbox } } =
        undelivered actor := by
      unfold undelivered
      rw [sums]
      exact congrArg (· + _) (Nat.zero_add _).symm
    refine settles_moved h found
      (?_ : s.processes.Becomes pid { actor with value := { actor.value with mailbox } } _)
      ?_ rfl waiting rfl fun _ => rfl
    · exact becomes
    · rfl
  | some message' =>
    obtain ⟨b, rests⟩ := something actor.value message' message
    rw [rests, call_bind]
    rw [message] at sums
    have found' : ({ s with processes } : Accounting).processes.view pid =
        some { actor with value := { actor.value with mailbox } } := by
      change processes.view pid = _
      rw [becomes.view, update_self]
    rcases releaseHeap_cases (s := { s with processes }) becomes.sound pid
        message'.accountedBytes with
      ⟨e, _, refused⟩ | ⟨after, actor', run', found'', limits, _, becomes'⟩
    · rcases refused _ found' with exited | executing
      · cases live.symm.trans exited
      · exact absurd executing idle
    cases found''.symm.trans found'
    rw [run']
    refine settles_changed h found (becomes.again becomes') limits ?_
      (fun _ fails => by cases fails) (fun _ _ => rfl) fun full _ => ⟨live, ?_⟩
    · change actor.value.heapBytes - _ ≤ _
      exact (Nat.sub_le _ _).trans (h.heap_le found)
    · have covers := enough full actor message' found message
      change ((actor.value.heapBytes - min message'.accountedBytes actor.value.heapBytes :
        Nat) : Int) - ((mailbox.map (·.accountedBytes)).sum +
          (actor.pending.map (·.payload.accountedBytes)).sum : Nat) =
        actor.value.heapBytes - ((actor.value.mailbox.map (·.accountedBytes)).sum +
          (actor.pending.map (·.payload.accountedBytes)).sum : Nat) + 0
      rw [sums, Option.elim_some]
      omega

theorem settles_receiveMessage (recipient : VmProcessId) :
    Settles s (¬ Overdrawn s (.receiveMessage recipient)) (fun _ _ => 0)
      ((receiveMessage recipient).call s) := by
  refine settles_take h (fun process => process.receiveNext.2) (fun process => ?_)
    (fun process none => ?_) (fun process message some => ?_) fun safe actor message found some => ?_
  · refine ⟨process.mailbox.tail, rfl, ?_⟩
    unfold VmProcess.receiveNext
    cases process.mailbox <;> rfl
  · rw [none]
    exact ⟨_, rfl⟩
  · rw [some]
    exact ⟨_, rfl⟩
  · refine Nat.not_lt.mp fun less => safe ⟨actor.value, ?_, message, some, less⟩
    rw [get_eq_view, found]
    rfl

theorem settles_selectiveReceive (recipient : VmProcessId) (predicate : VmMessage → Bool) :
    Settles s (¬ Overdrawn s (.selectiveReceive recipient predicate)) (fun _ _ => 0)
      ((selectiveReceiveMessageWithScan recipient predicate).call s) := by
  refine settles_take h (fun process => (process.selectiveReceive predicate).2)
    (fun process => ?_)
    (fun process none => ?_) (fun process message some => ?_) fun safe actor message found some => ?_
  · rcases VmProcessTable.selectiveReceive_cases process predicate with
      ⟨run, _⟩ | ⟨front, message, back, parts, _, _, run⟩
    · rw [run]
      exact ⟨process.mailbox, rfl, (Nat.zero_add _).symm⟩
    · rw [run]
      refine ⟨front ++ back, rfl, ?_⟩
      rw [parts]
      have moved : (front ++ message :: back).Perm (message :: (front ++ back)) :=
        perm_middle
      exact (moved.map (·.accountedBytes)).sum_eq
  · dsimp only
    rw [none]
    exact ⟨_, rfl⟩
  · dsimp only
    rw [some]
    exact ⟨_, rfl⟩
  · refine Nat.not_lt.mp fun less => safe ⟨actor.value, ?_, message, some, less⟩
    rw [get_eq_view, found]
    rfl

end

/-! ## Resources and processes -/

/-- A registration is refused, or the owner gets a handle. -/
theorem register_cases {s : Resourcing} (h : s.processes.Sound) (owner : VmProcessId)
    (descriptor : VmResourceDescriptor) (transferPolicy : VmResourceTransferPolicy) :
    (∃ resources e, Method.call (register owner descriptor transferPolicy) s =
        (⟨resources, s.processes⟩, .error e)) ∨
      ∃ after event actor handles, Method.call (register owner descriptor transferPolicy) s =
          (after, .ok event) ∧ s.processes.view owner = some actor ∧ s.processes.Becomes owner
          { actor with value := { actor.value with resourceHandles := handles } }
          after.processes := by
  unfold register ensureLiveProcess Resourcing.self Resourcing.table
  rw [call_get_bind, call_check_bind]
  cases valid : s.processes.validateRole "owner" owner with
  | error e => exact .inl ⟨s.resources, e, rfl⟩
  | ok _ =>
    dsimp only
    generalize saturatingAdd s.resources.nextId 1 = next
    rw [call_modify_bind, call_bind, call_within]
    rcases h.updateProcess_cases owner (·.addResourceHandle (resourceHandleName ⟨next⟩))
        (fun _ => rfl) with
      ⟨e, run, _⟩ | ⟨processes, actor, run, found, _, becomes⟩
    · rw [run]
      exact .inl ⟨_, e, rfl⟩
    · rw [run]
      exact .inr ⟨_, _, actor, _, rfl, found, becomes⟩

theorem settles_registerResource (h : Accounted s) (owner : VmProcessId)
    (descriptor : VmResourceDescriptor) (transferPolicy : VmResourceTransferPolicy)
    (logicalBytes : Nat) :
    Settles s covered (credits owner fun decision => (decision.pressure.charged : Int))
      ((registerResource owner descriptor transferPolicy logicalBytes).call s) := by
  unfold registerResource
  rw [call_bind]
  rcases accountHeap_cases h.sound owner logicalBytes with
    ⟨e, run⟩ | ⟨after, decision, actor, run, found, live, idle, limits, _, becomes, decided⟩
  · rw [run]
    exact settles_refused h e fun _ => rfl
  rw [run]
  dsimp only
  rw [call_ite]
  by_cases rejected : decision.outcome = .hardLimitRejected
  · rw [if_pos rejected]
    exact settles_charged h found live becomes limits decided
  rw [if_neg rejected, call_bind, call_attempt, resourcing, call_within]
  rcases register_cases (s := ⟨after.resources, after.processes⟩) becomes.sound owner descriptor
      transferPolicy with
    ⟨resources, e, run'⟩ | ⟨after', event, actor', handles, run', found', becomes'⟩
  · rw [run']
    dsimp only
    have found' : after.processes.view owner = some
        { actor with
          value := { actor.value with
            heapBytes := actor.value.heapBytes + decision.charged } } := by
      rw [becomes.view, update_self]
    rw [call_bind]
    rcases releaseHeap_cases (s := { after with resources }) becomes.sound owner logicalBytes with
      ⟨e, _, refused⟩ | ⟨after', actor', run'', found'', limits', _, becomes'⟩
    · rcases refused _ found' with exited | executing
      · cases live.symm.trans exited
      · exact absurd executing idle
    cases found''.symm.trans found'
    rw [run'']
    rcases decided with ⟨wrong, _⟩ | ⟨_, all, _⟩
    · exact absurd wrong rejected
    dsimp only at becomes'
    rw [all, Nat.min_eq_left (Nat.le_add_left _ _), Nat.add_sub_cancel] at becomes'
    exact settles_moved h found (becomes.again becomes') (limits'.trans limits) rfl rfl rfl
      fun _ => rfl
  · rw [run']
    have there : after.processes.view owner = some
        { actor with
          value := { actor.value with
            heapBytes := actor.value.heapBytes + decision.charged } } := by
      rw [becomes.view, update_self]
    cases found'.symm.trans there
    exact settles_charged h found live (becomes.again becomes') limits decided

theorem settles_spawned (h : Accounted s) {m : Method (Fault String) VmProcessTable VmProcessId}
    (named : ∀ pid answer, entry pid (request, answer) = 0)
    (cases : s.processes.Spawns m) :
    Settles s covered (fun answer pid => entry pid (request, answer))
      ((Answer.spawned <$> table m).call s) := by
  unfold table
  rw [call_map, call_within]
  rcases cases with ⟨fault, after, run, sound, same⟩ | ⟨after, pid, parent, source, run, unknown,
    becomes⟩
  · rw [run]
    refine settles_same h sound same ?_ ?_
    · rfl
    · exact fun pid => named pid _
  · rw [run]
    refine ⟨becomes.sound, rfl, fun other process found => ?_, (fun _ fails => by cases fails),
      fun _ other b stands => ⟨b, ?_, ?_⟩⟩
    · rw [becomes.get] at found
      split at found
      next =>
        cases found
        exact Nat.zero_le _
      next => exact h.bounded other process found
    · dsimp only at stands
      rw [becomes.view, update_apply] at stands
      split at stands
      next same =>
        rw [same, unknown]
        exact stands
      next => exact stands
    · rw [named, Int.add_zero]

/-- An operation that is refused, or moves a process between lifecycles. -/
theorem settles_scheduled (h : Accounted s) {m : Method String VmProcessTable α}
    (cases : s.processes.Schedules m) :
    Settles s covered (fun _ _ => 0) ((table m : Method String Accounting α).call s) := by
  unfold table
  rw [call_within]
  rcases cases with ⟨e, run⟩ | ⟨after, a, pid, actor, lifecycle, run, found, becomes⟩
  · rw [run]
    exact settles_refused h e fun _ => rfl
  rw [run]
  refine settles_moved h found (?_ : s.processes.Becomes pid { actor with lifecycle } _) ?_ rfl rfl
    rfl fun _ => rfl
  · exact becomes
  · rfl

theorem settles_exitProcess (h : Accounted s) (pid : VmProcessId) (reason : VmExitReason) :
    Settles s covered (fun _ _ => 0)
      ((table (exitProcess pid reason) : Method String Accounting _).call s) := by
  unfold table
  rw [call_within]
  rcases h.sound.exitProcess_cases pid reason with
    ⟨e, run, _⟩ | ⟨after, actor, run, found, _, becomes⟩
  · rw [run]
    exact settles_refused h e fun _ => rfl
  rw [run]
  refine settles_changed h found 
    (?_ : s.processes.Becomes pid ⟨(actor.value.exit reason).1, actor.pending, .retired⟩ _) ?_
    (Nat.zero_le _) (fun _ fails => by cases fails) (fun _ _ => rfl)
    fun _ live => by cases live
  · exact becomes
  · rfl

theorem settles_integrateActorMailbox (h : Accounted s) {token : VmActorMutatorToken}
    (issued : token.owner ≠ 0) : Settles s covered (fun _ _ => 0)
      ((table (integrateActorMailbox token) : Method String Accounting _).call s) := by
  unfold table
  rw [call_within]
  rcases h.sound.integrateActorMailbox_cases issued with
    ⟨e, run⟩ | ⟨after, actor, run, found, _, becomes⟩
  · rw [run]
    exact settles_refused h e fun _ => rfl
  rw [run]
  refine settles_moved h found
    (?_ : s.processes.Becomes _ ⟨integrated actor, [], actor.lifecycle⟩ _) ?_
    (integrated_heapBytes actor) (undelivered_integrated actor _)
    (integrated_isExited actor) fun _ => rfl
  · exact becomes
  · rfl

end Operations

variable {s : Accounting}

theorem call_settles (h : Accounted s) (request : Request) (safe : ¬ Leaks s request) :
    Settles s (¬ Overdrawn s request) (fun answer pid => entry pid (request, answer))
      (call s request) := by
  unfold call
  cases request with
  | accountHeap pid requestedBytes =>
    exact settles_orReturn _ (settles_accountHeap h pid requestedBytes) (fun _ _ => rfl)
      fun _ _ => rfl
  | releaseHeap pid releasedBytes =>
    exact settles_orReturn _ (settles_releaseHeap h pid releasedBytes) (fun _ _ => rfl)
      fun _ _ => rfl
  | registerResource owner descriptor transferPolicy logicalBytes =>
    exact settles_orReturn _
      (settles_registerResource h owner descriptor transferPolicy logicalBytes) (fun _ _ => rfl)
      fun _ _ => rfl
  | sendMessage sender recipient payload accountedBytes =>
    exact settles_orReturn _
      (settles_sendMessage h sender recipient payload accountedBytes safe rfl) (fun _ _ => rfl)
      fun _ _ => rfl
  | sendValueMessage sender recipient payload =>
    exact settles_orReturn _ (settles_sendValueMessage h sender recipient payload safe)
      (fun _ _ => rfl) fun _ _ => rfl
  | sendTypedValueMessage sender recipient payload boundaryType =>
    exact settles_orReturn _
      (settles_measured h sender recipient payload
        (fun bytes => ⟨payload, some boundaryType, none, bytes, .ordinary⟩) (fun _ => rfl) safe rfl
        _ fun _ => rfl) (fun _ _ => rfl) fun _ _ => rfl
  | sendTypedManagedMessage sender recipient fragment boundaryType =>
    exact settles_orReturn _
      (settles_sendTypedManagedMessage h sender recipient fragment boundaryType safe)
      (fun _ _ => rfl) fun _ _ => rfl
  | sendPriorityValueMessage sender recipient payload =>
    exact settles_orReturn _
      (settles_measured h sender recipient payload
        (fun bytes => ⟨payload, none, none, bytes, .priority⟩) (fun _ => rfl) safe rfl
        _ fun _ => rfl) (fun _ _ => rfl) fun _ _ => rfl
  | sendSystem origin recipient payload lane =>
    exact settles_orReturn _ (settles_sendSystem h origin recipient payload lane)
      (fun _ _ => rfl) fun _ _ => rfl
  | receiveMessage recipient =>
    exact settles_orReturn _ (settles_receiveMessage h recipient) (fun _ _ => rfl) fun _ _ => rfl
  | selectiveReceive recipient predicate =>
    exact settles_orReturn _ (settles_selectiveReceive h recipient predicate) (fun _ _ => rfl)
      fun _ _ => rfl
  | spawnRoot source =>
    exact settles_spawned h (fun _ answer => by cases answer <;> rfl)
      (h.sound.spawns_spawnRoot source)
  | spawnChild parent source =>
    exact settles_spawned h (fun _ answer => by cases answer <;> rfl)
      (h.sound.spawns_spawnChild parent source)
  | exitProcess pid reason =>
    exact settles_orReturn _ (settles_exitProcess h pid reason) (fun _ _ => rfl) fun _ _ => rfl
  | markActorQueued pid =>
    exact settles_orReturn _ (settles_scheduled h (h.sound.schedules_markActorQueued pid))
      (fun _ _ => rfl) fun _ _ => rfl
  | acquireActorMutator pid owner =>
    exact settles_orReturn _ (settles_scheduled h (h.sound.schedules_acquireActorMutator pid owner))
      (fun _ _ => rfl) fun _ _ => rfl
  | integrateActorMailbox token issued =>
    exact settles_orReturn _ (settles_integrateActorMailbox h issued) (fun _ _ => rfl)
      fun _ _ => rfl
  | releaseActorMutator token issued next =>
    exact settles_orReturn _
      (settles_scheduled h (h.sound.schedules_releaseActorMutator issued next))
      (fun _ _ => rfl) fun _ _ => rfl

/-! ## The claim over runs -/

/-- No processes yet. -/
def start (limits : VmMemoryLimits) : Accounting := ⟨.new limits, .new, .new⟩

theorem accounted_start (limits : VmMemoryLimits) : Accounted (start limits) where
  sound := VmProcessTable.sound_new
  bounded pid process found := by
    rw [VmProcessTable.get_eq_view] at found
    unfold start at found
    rw [VmProcessTable.view_new] at found
    cases found

/-- Every account is the sum of its entries. -/
def Standing (s : Accounting) (history : History) : Prop :=
  ∀ pid balance, standing (s.processes.view pid) = some balance → balance = direct history pid

theorem standing_start (limits : VmMemoryLimits) : Standing (start limits) [] := by
  intro pid balance stands
  unfold start at stands
  rw [view_new] at stands
  exact (Option.some.inj stands).symm

theorem direct_concat (history : History) (last : Request × Except (Fault String) Answer)
    (pid : VmProcessId) : direct (history ++ [last]) pid = direct history pid + entry pid last := by
  unfold direct
  simp

theorem Standing.step {history : History} (h : Standing s history)
    {request : Request} {covered : Prop} (full : covered)
    (settles : Settles s covered (fun answer pid => entry pid (request, answer)) (call s request)) :
    Standing (call s request).1 (history ++ [(request, (call s request).2)]) := by
  intro pid after stands
  obtain ⟨before, stood, sums⟩ := settles.balanced full pid after stands
  rw [sums, h pid before stood, direct_concat]

theorem Standing.balanced {history : History} (h : Standing s history) : Balanced s history := by
  intro pid actor found live
  have stands : standing (s.processes.view pid) =
      some ((actor.value.heapBytes : Int) - undelivered actor) := by
    rw [found, standing, live]
    rfl
  have sums := h pid _ stands
  omega

/-- Limits with both bounds at 100 bytes. -/
def hundred : VmMemoryLimits := ⟨100, 100, by decide, by decide, by decide⟩

/-- The token of the first grant of the first process. -/
def firstToken : VmActorMutatorToken := ⟨⟨⟨1⟩, 0, 1⟩, 7, 1, .executing⟩

/-- A process that its worker gives back to end, and then a message to it. -/
def endingReceiver : List Request :=
  [.spawnRoot ⟨"Main", "start", 0, none⟩, .markActorQueued ⟨1⟩, .acquireActorMutator ⟨1⟩ 7,
    .releaseActorMutator firstToken (by decide) .exiting]

end Terlan.Memory
