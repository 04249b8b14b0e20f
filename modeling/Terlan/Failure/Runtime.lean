/-
  Links, monitors and trapped exits. When a process exits, everybody that monitors it gets a
  message, a linked process that traps exits gets one too, and any other linked process exits
  for the same reason. The recursion of an exit is bounded by the number of links, since each
  exit takes the links of its process first.
-/
import Terlan.Lib.Text
import Terlan.Process.TableSpec

namespace Terlan.Failure

open Terlan.Lib Terlan.ActorDirectory Terlan.Process Terlan.TermFormat
open Std (ExtTreeMap ExtTreeSet TransOrd LawfulEqOrd TransCmp LawfulEqCmp)

/-! ## References -/

/-- Identity of a reference: the node that allocated it, its boot and a number. -/
structure VmReferenceId where
  nodeId : String
  epoch : UInt64
  localId : UInt64
deriving DecidableEq

/-- References compare field by field. -/
instance : Ord VmReferenceId where
  compare := compareLex (compareOn (·.nodeId)) (compareLex (compareOn (·.epoch)) (compareOn (·.localId)))

theorem VmReferenceId.compare_def : compare (α := VmReferenceId) =
    compareLex (compareOn (·.nodeId)) (compareLex (compareOn (·.epoch)) (compareOn (·.localId))) :=
  rfl

instance : TransOrd VmReferenceId := inferInstanceAs (TransCmp (compareLex _ _))

instance : LawfulEqOrd VmReferenceId where
  eq_of_compare {a b} h := by
    obtain ⟨nodeId, epoch, localId⟩ := a
    obtain ⟨nodeId', epoch', localId'⟩ := b
    simp only [VmReferenceId.compare_def, compareLex_eq_eq, compareOn] at h
    rw [LawfulEqOrd.eq_of_compare h.1, LawfulEqOrd.eq_of_compare h.2.1,
      LawfulEqOrd.eq_of_compare h.2.2]

/-- A monitor is named by a reference. -/
abbrev VmMonitorRef := VmReferenceId

structure VmReferenceAllocator where
  nodeId : String
  epoch : UInt64
  nextReferenceId : UInt64
  referenceLimit : UInt64
  named : ¬ isBlank nodeId
  booted : epoch ≠ 0

namespace VmReferenceAllocator

def withLimits (nodeId : String) (epoch referenceLimit : UInt64) :
    Except String VmReferenceAllocator :=
  if unnamed : isBlank nodeId then .error "VM reference node id must not be empty"
  else if zero : epoch = 0 then .error "VM reference epoch must be non-zero"
  else .ok ⟨nodeId, epoch, 0, referenceLimit, unnamed, zero⟩

def allocateReference : Method String VmReferenceAllocator VmReferenceId := do
  let self ← get
  match checkedAdd self.nextReferenceId 1 with
  | none => throw "VM reference sequence exhausted"
  | some localId =>
    failIf (self.referenceLimit < localId) "VM reference sequence exhausted"
    modify fun self => { self with nextReferenceId := localId }
    return { nodeId := self.nodeId, epoch := self.epoch, localId }

end VmReferenceAllocator

/-! ## The failure runtime -/

instance : Ord (VmProcessId × VmProcessId) := lexOrd

instance : TransOrd (VmProcessId × VmProcessId) :=
  inferInstanceAs (@TransOrd (VmProcessId × VmProcessId) lexOrd)

instance : LawfulEqOrd (VmProcessId × VmProcessId) :=
  inferInstanceAs (@LawfulEqOrd (VmProcessId × VmProcessId) lexOrd)

/-- Watcher and target of a monitor, and whether its message has priority. -/
structure VmMonitor where
  watcher : VmProcessId
  target : VmProcessId
  priority : Bool

/-- Links are pairs in canonical order; a priority link is the receiver and its peer. -/
structure VmFailureRuntime where
  links : ExtTreeSet (VmProcessId × VmProcessId)
  priorityLinks : ExtTreeSet (VmProcessId × VmProcessId)
  monitors : ExtTreeMap VmMonitorRef VmMonitor
  trapExits : ExtTreeSet VmProcessId

def canonicalLink (left right : VmProcessId) : VmProcessId × VmProcessId :=
  if left.value ≤ right.value then (left, right) else (right, left)

/-- Whether a pair has a process in it. -/
def touches (pid : VmProcessId) (link : VmProcessId × VmProcessId) : Bool :=
  link.1 = pid || link.2 = pid

/-- Result of an exit with everything that it caused. -/
structure VmFailureReport where
  exited : List VmProcessId := []
  cleanupHandles : List String := []
  deliveredExitSignals : Nat := 0
  deliveredDownMessages : Nat := 0
  messageRecipients : List VmProcessId := []

def VmFailureReport.extend (report child : VmFailureReport) : VmFailureReport :=
  { exited := report.exited ++ child.exited
    cleanupHandles := report.cleanupHandles ++ child.cleanupHandles
    deliveredExitSignals := report.deliveredExitSignals + child.deliveredExitSignals
    deliveredDownMessages := report.deliveredDownMessages + child.deliveredDownMessages
    messageRecipients := report.messageRecipients ++ child.messageRecipients }

structure VmMonitorRegistration where
  monitorRef : VmMonitorRef
  completed : Bool

namespace VmFailureRuntime

def new : VmFailureRuntime := ⟨∅, ∅, ∅, ∅⟩

def isLinked (self : VmFailureRuntime) (left right : VmProcessId) : Bool :=
  self.links.contains (canonicalLink left right)

def unlink (self : VmFailureRuntime) (left right : VmProcessId) : VmFailureRuntime :=
  { self with
    links := self.links.erase (canonicalLink left right)
    priorityLinks := (self.priorityLinks.erase (left, right)).erase (right, left) }

/-- The linked processes in the order of the links, each with the lane of its signal. -/
def peers (self : VmFailureRuntime) (pid : VmProcessId) : List (VmProcessId × Bool) :=
  self.links.toList.filterMap fun link =>
    if link.1 = pid then some (link.2, self.priorityLinks.contains (link.2, link.1))
    else if link.2 = pid then some (link.1, self.priorityLinks.contains (link.1, link.2))
    else none

def takeLinks (self : VmFailureRuntime) (pid : VmProcessId) :
    VmFailureRuntime × List (VmProcessId × Bool) :=
  ({ self with
      links := self.links.filter fun link => !touches pid link
      priorityLinks := self.priorityLinks.filter fun link => !touches pid link },
    self.peers pid)

/-- The monitors of a target in the order of their references. -/
def targetMonitors (self : VmFailureRuntime) (pid : VmProcessId) :
    List (VmMonitorRef × VmProcessId × Bool) :=
  self.monitors.toList.filterMap fun entry =>
    if entry.2.target = pid then some (entry.1, entry.2.watcher, entry.2.priority) else none

def takeTargetMonitors (self : VmFailureRuntime) (pid : VmProcessId) :
    VmFailureRuntime × List (VmMonitorRef × VmProcessId × Bool) :=
  ({ self with
      monitors := (self.targetMonitors pid).foldl (fun monitors entry => monitors.erase entry.1)
        self.monitors },
    self.targetMonitors pid)

def removeWatcherMonitors (self : VmFailureRuntime) (pid : VmProcessId) : VmFailureRuntime :=
  { self with monitors := self.monitors.filter fun _ monitor => monitor.watcher ≠ pid }

end VmFailureRuntime

/-! ## Messages -/

def isNormal : VmExitReason → Bool
  | .normal => true
  | _ => false

/-- `try_into().unwrap_or(i64::MAX)`. -/
def clampedInt (value : Nat) : ReplValue := .int (if value < 2 ^ 63 then .ofNat value else .maxValue)

def reasonValue : VmExitReason → ReplValue
  | .normal => .atom "normal"
  | .killed => .atom "killed"
  | .error message => .tuple [.atom "error", .string message]
  | .typedError _ value => .tuple [.atom "error", value]
  | .shutdownTimeout timeoutMs => .tuple [.atom "shutdown_timeout", clampedInt timeoutMs.toNat]
  | .memoryLimitExceeded requestedBytes previousBytes projectedBytes =>
    .tuple [.atom "memory_limit_exceeded", clampedInt requestedBytes, clampedInt previousBytes,
      clampedInt projectedBytes]

def exitSignalMessage (source : VmProcessId) (reason : VmExitReason) : ReplValue :=
  .tuple [.atom "exit", .int source.value.toInt64, reasonValue reason]

def downMessage (target : VmProcessId) (monitorRef : VmMonitorRef) (reason : ReplValue) : ReplValue :=
  .tuple [.atom "down", .int monitorRef.localId.toInt64, .int target.value.toInt64, reason]

def lane (priority : Bool) : VmMessagePriority := if priority then .priority else .ordinary

/-! ## Operations -/

/-- The failure runtime with what it borrows. -/
structure Failing where
  failures : VmFailureRuntime
  references : VmReferenceAllocator
  processes : VmProcessTable

namespace Failing

def self {ε : Type} (change : VmFailureRuntime → VmFailureRuntime) : Method ε Failing Unit :=
  modify fun s => { s with failures := change s.failures }

def table {ε α : Type} (m : Method ε VmProcessTable α) : Method ε Failing α :=
  m.within (·.processes) fun processes s => { s with processes }

def allocator {ε α : Type} (m : Method ε VmReferenceAllocator α) : Method ε Failing α :=
  m.within (·.references) fun references s => { s with references }

end Failing

open Failing

def ensureLiveProcess (processes : VmProcessTable) (pid : VmProcessId) (action : String) :
    Except String Unit :=
  match processes.get pid with
  | none => .error s!"cannot {action} missing process {pid.value}"
  | some process => failIf process.state.isExited s!"cannot {action} exited process {pid.value}"

def linkWithPriority (left right : VmProcessId) (priority : Bool) : Method String Failing Unit := do
  failIf (left = right) s!"cannot link process {left.value} to itself"
  let s ← get
  ensureLiveProcess s.processes left "link"
  ensureLiveProcess s.processes right "link"
  self fun failures =>
    { failures with
      links := failures.links.insert (canonicalLink left right)
      priorityLinks :=
        if priority then failures.priorityLinks.insert (left, right)
        else failures.priorityLinks.erase (left, right) }

def link (left right : VmProcessId) : Method String Failing Unit := linkWithPriority left right false

inductive VmTrapExitError where
  | missingProcess (pid : VmProcessId)
  | exitedProcess (pid : VmProcessId)

def ensureTrapExitProcess (processes : VmProcessTable) (pid : VmProcessId) :
    Except VmTrapExitError Unit :=
  match processes.get pid with
  | none => .error (.missingProcess pid)
  | some process => failIf process.state.isExited (VmTrapExitError.exitedProcess pid)

structure VmTrapExitUpdate where
  previous : Bool
  current : Bool

def setTrapExits (pid : VmProcessId) (enabled : Bool) :
    Method VmTrapExitError Failing VmTrapExitUpdate := do
  let s ← get
  ensureTrapExitProcess s.processes pid
  self fun failures =>
    { failures with
      trapExits :=
        if enabled then failures.trapExits.insert pid else failures.trapExits.erase pid }
  return { previous := s.failures.trapExits.contains pid, current := enabled }

def monitorWithPriority (watcher target : VmProcessId) (priority : Bool) :
    Method String Failing VmMonitorRef := do
  let s ← get
  ensureLiveProcess s.processes watcher "monitor from"
  ensureLiveProcess s.processes target "monitor"
  let monitorRef ← allocator VmReferenceAllocator.allocateReference
  self fun failures =>
    { failures with monitors := failures.monitors.insert monitorRef { watcher, target, priority } }
  return monitorRef

def monitor (watcher target : VmProcessId) : Method String Failing VmMonitorRef :=
  monitorWithPriority watcher target false

/-- Whether a message about a monitor reached its watcher. -/
def sendDownPayload {ε : Type} (target watcher : VmProcessId) (monitorRef : VmMonitorRef)
    (reason : ReplValue) (priority : Bool) : Method ε Failing Bool := do
  let s ← get
  if s.processes.isAlive watcher then
    let sent ← (table (VmProcessTable.sendSystem target watcher
      (downMessage target monitorRef reason) (lane priority))).attempt
    return sent.isOk
  else return false

def sendDownMessage {ε : Type} (target watcher : VmProcessId) (monitorRef : VmMonitorRef)
    (reason : VmExitReason) (priority : Bool) : Method ε Failing Bool :=
  sendDownPayload target watcher monitorRef (reasonValue reason) priority

def monitorOrCompleteWithPriority (watcher target : VmProcessId) (priority : Bool) :
    Method String Failing VmMonitorRegistration := do
  let s ← get
  ensureLiveProcess s.processes watcher "monitor from"
  match s.processes.get target with
  | none => throw s!"cannot monitor missing process {target.value}"
  | some targetProcess =>
    let monitorRef ← allocator VmReferenceAllocator.allocateReference
    if targetProcess.state.isExited then
      let _ ← sendDownPayload target watcher monitorRef (.atom "noproc") priority
      return { monitorRef, completed := true }
    else
      self fun failures =>
        { failures with
          monitors := failures.monitors.insert monitorRef { watcher, target, priority } }
      return { monitorRef, completed := false }

def demonitor (monitorRef : VmMonitorRef) : Method String Failing Bool := do
  let s ← get
  self fun failures => { failures with monitors := failures.monitors.erase monitorRef }
  return s.failures.monitors.contains monitorRef

def demonitorFor (watcher : VmProcessId) (monitorRef : VmMonitorRef) :
    Method String Failing Bool := do
  let s ← get
  match s.failures.monitors[monitorRef]? with
  | none => return false
  | some entry =>
    failIf (entry.watcher ≠ watcher)
      (s!"monitor reference {monitorRef.localId} belongs to process {entry.watcher.value}, "
        ++ s!"not process {watcher.value}")
    demonitor monitorRef

/-- The first monitor with the local identity. -/
def demonitorForId (watcher : VmProcessId) (monitorId : UInt64) : Method String Failing Bool := do
  let s ← get
  match s.failures.monitors.keys.find? fun monitorRef => monitorRef.localId = monitorId with
  | none => return false
  | some monitorRef => demonitorFor watcher monitorRef

/-! ## Exits -/

/-- One monitor of the exited process. -/
def deliverDown (pid : VmProcessId) (reason : VmExitReason) (report : VmFailureReport)
    (entry : VmMonitorRef × VmProcessId × Bool) : Method (Fault String) Failing VmFailureReport := do
  let delivered ← sendDownMessage pid entry.2.1 entry.1 reason entry.2.2
  if delivered then
    return { report with
      deliveredDownMessages := report.deliveredDownMessages + 1
      messageRecipients := report.messageRecipients ++ [entry.2.1] }
  else return report

/-- `expect` on the result of a method that may panic itself. -/
def expectReturned {ε : Type} (text : String) : Fault ε → Fault ε
  | .returned _ => .panicked text
  | .panicked text => .panicked text

/-- One link of the exited process; `exitLinked` is the exit of the process at its other end. -/
def signalLinked (exitLinked : VmProcessId → Method (Fault String) Failing VmFailureReport)
    (pid : VmProcessId) (reason : VmExitReason) (report : VmFailureReport)
    (peer : VmProcessId × Bool) : Method (Fault String) Failing VmFailureReport := do
  let s ← get
  if ¬ s.processes.isAlive peer.1 then return report
  else if s.failures.trapExits.contains peer.1 then
    let _ ← (table (VmProcessTable.sendSystem pid peer.1 (exitSignalMessage pid reason)
      (lane peer.2))).expect "linked process was checked before trapped exit delivery"
    return { report with
      deliveredExitSignals := report.deliveredExitSignals + 1
      messageRecipients := report.messageRecipients ++ [peer.1] }
  else if isNormal reason then return report
  else
    let childReport ← (exitLinked peer.1).mapError
      (expectReturned "linked process was checked before recursive exit")
    return report.extend childReport

/-- The exit of a process, with fuel for the exits that it causes one inside the other. -/
def exitProcessInner : Nat → VmProcessId → VmExitReason →
    Method (Fault String) Failing VmFailureReport
  | 0, _, _ => throw (.panicked "stack overflow")
  | fuel + 1, pid, reason => do
    let s ← get
    match s.processes.get pid with
    | none => throw (.returned s!"cannot exit missing process {pid.value}")
    | some process =>
      if process.state.isExited then return {}
      else
        let cleanupHandles ← (table (VmProcessTable.exitProcess pid reason)).expect
          "process was checked before failure-layer exit"
        self fun failures => { failures with trapExits := failures.trapExits.erase pid }
        self (·.removeWatcherMonitors pid)
        let s ← get
        self fun failures => (failures.takeTargetMonitors pid).1
        let report ← (s.failures.targetMonitors pid).foldlM (deliverDown pid reason)
          { exited := [pid], cleanupHandles }
        let s ← get
        self fun failures => (failures.takeLinks pid).1
        (s.failures.peers pid).foldlM
          (signalLinked (fun linked => exitProcessInner fuel linked reason) pid reason) report

/-- An exit inside another one takes a link away first, so the links bound the recursion. -/
def exitProcess (pid : VmProcessId) (reason : VmExitReason) :
    Method (Fault String) Failing VmFailureReport := do
  let s ← get
  exitProcessInner (s.failures.links.size + 1) pid reason

end Terlan.Failure
