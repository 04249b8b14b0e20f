/-
  Cooperative scheduler: three class queues, the set of queued processes, the class map and
  the map of enqueue times. `RunQueue` says how the four belong together.

  * `call_runQueue`: one operation of the scheduler keeps it, unless it registers a fixed
    owner that waits in the queue of another class (`Strands`).
  * `run_queue_invariant`: so does every run without such a step.
  * `run_queue_invariant_fails`: a run with one.

  An operation borrows the process table, which other components change between operations.
-/
import Terlan.Process.Table

namespace Terlan.Scheduler

open Terlan.Lib Terlan.ActorDirectory Terlan.Process List Function
open Std (ExtTreeMap ExtTreeSet)
open VmProcessTable (markActorQueued mutateProcess updateProcess exitProcess
  acquireActorMutator withActorMutator releaseActorMutator integrateActorMailbox
  integrateProcessMailbox)

/-! ## Data -/

inductive VmSchedulerClass where
  | priority
  | normal
  | background
deriving DecidableEq

/-- The class each of six polls looks at. -/
def vmSchedulerClassCycle : Fin 6 → VmSchedulerClass
  | 0 => .priority
  | 1 => .priority
  | 2 => .normal
  | 3 => .priority
  | 4 => .normal
  | 5 => .background

def vmMemoryBytesPerReduction : Nat := 1024
def vmSchedulerOperationReductions : UInt64 := 1

structure VmSchedulerConfig where
  reductionsPerSlice : UInt64
  maxEmptyPolls : Nat

/-- Zero values are raised to one. -/
def VmSchedulerConfig.new (reductionsPerSlice : UInt64) (maxEmptyPolls : Nat) :
    VmSchedulerConfig :=
  ⟨max reductionsPerSlice 1, max maxEmptyPolls 1⟩

structure VmSchedulerSlice where
  pid : VmProcessId
  tick : UInt64
  reductionBudget : UInt64

inductive VmSchedulerDecision where
  | yield (reductions : UInt64)
  | block (reductions : UInt64)
  | exit (reductions : UInt64) (reason : VmExitReason)

def VmSchedulerDecision.reductions : VmSchedulerDecision → UInt64
  | .yield reductions => reductions
  | .block reductions => reductions
  | .exit reductions _ => reductions

def VmSchedulerDecision.isYield : VmSchedulerDecision → Bool
  | .yield _ => true
  | _ => false

def VmSchedulerDecision.isBlock : VmSchedulerDecision → Bool
  | .block _ => true
  | _ => false

def VmSchedulerDecision.isExit : VmSchedulerDecision → Bool
  | .exit _ _ => true
  | _ => false

inductive VmSchedulerOutcome where
  | ran
  | blocked
  | exited (cleanup : List String)
  | cancelled (cleanup : List String)
  | idle

structure VmSchedulerRun where
  pid : Option VmProcessId
  tick : UInt64
  reductionsCharged : UInt64
  outcome : VmSchedulerOutcome

structure VmSchedulerProcessMetrics where
  pid : UInt64
  reductions : UInt64
  memoryReductions : UInt64
  slices : UInt64
  preemptions : UInt64
  maxWaitTicks : UInt64
  firstRunTick : Option UInt64
  lastRunTick : Option UInt64

def VmSchedulerProcessMetrics.new : VmSchedulerProcessMetrics := ⟨0, 0, 0, 0, 0, 0, none, none⟩

structure VmSchedulerMetrics where
  totalReductions : UInt64
  totalMemoryReductions : UInt64
  totalSlices : UInt64
  preemptions : UInt64
  maxQueueDepth : Nat
  processes : ExtTreeMap UInt64 VmSchedulerProcessMetrics

/-- `self.processes.entry(pid).or_default()` and a change of the entry. -/
def VmSchedulerMetrics.update (metrics : VmSchedulerMetrics) (pid : VmProcessId)
    (change : VmSchedulerProcessMetrics → VmSchedulerProcessMetrics) : VmSchedulerMetrics :=
  { metrics with
    processes :=
      metrics.processes.insert pid.value (change ((metrics.processes[pid.value]?).getD .new)) }

structure VmScheduler where
  config : VmSchedulerConfig
  owner : UInt64
  queues : VmSchedulerClass → List VmProcessId
  queued : ExtTreeSet VmProcessId
  classes : ExtTreeMap VmProcessId VmSchedulerClass
  enqueuedAt : ExtTreeMap VmProcessId UInt64
  classCycleCursor : Fin 6
  tick : UInt64
  metrics : VmSchedulerMetrics

/-- State that follows a process from one scheduler to another. -/
structure VmSchedulerPlacementTransfer where
  process : VmProcessId
  schedulerClass : VmSchedulerClass
  queued : Bool
  metrics : Option VmSchedulerProcessMetrics

namespace VmScheduler

def withOwner (config : VmSchedulerConfig) (owner : UInt64) : VmScheduler where
  config := config
  owner := owner
  queues := fun _ => []
  queued := ∅
  classes := ∅
  enqueuedAt := ∅
  classCycleCursor := 0
  tick := 0
  metrics := ⟨0, 0, 0, 0, 0, ∅⟩

def queuedLen (self : VmScheduler) : Nat :=
  (self.queues .priority).length + (self.queues .normal).length +
    (self.queues .background).length

/-! ## Queues -/

def setQueue (self : VmScheduler) (class_ : VmSchedulerClass) (queue : List VmProcessId) :
    VmScheduler :=
  { self with queues := Function.update self.queues class_ queue }

def setClass (self : VmScheduler) (pid : VmProcessId) (class_ : VmSchedulerClass) : VmScheduler :=
  { self with classes := self.classes.insert pid class_ }

def dropClass (self : VmScheduler) (pid : VmProcessId) : VmScheduler :=
  { self with classes := self.classes.erase pid }

/-- The class of a process; without one it is normal. -/
def classOf (self : VmScheduler) (pid : VmProcessId) : VmSchedulerClass :=
  (self.classes[pid]?).getD .normal

def enqueueUncheckedRaw (self : VmScheduler) (pid : VmProcessId) : VmScheduler :=
  let class_ := self.classOf pid
  let self := if self.classes.contains pid then self else self.setClass pid class_
  if self.queued.contains pid then self
  else
    let self := self.setQueue class_ (self.queues class_ ++ [pid])
    { self with
      queued := self.queued.insert pid
      enqueuedAt := self.enqueuedAt.insert pid self.tick
      metrics :=
        { self.metrics with maxQueueDepth := max self.metrics.maxQueueDepth self.queuedLen } }

def removeQueued (self : VmScheduler) (pid : VmProcessId) : VmScheduler :=
  if self.queued.contains pid then
    let class_ := self.classOf pid
    let self := self.setQueue class_ ((self.queues class_).filter (· ≠ pid))
    { self with queued := self.queued.erase pid, enqueuedAt := self.enqueuedAt.erase pid }
  else self

/-- One poll of the class cycle. -/
def pollClass (self : VmScheduler) : VmScheduler × Option (VmProcessId × UInt64) :=
  let class_ := vmSchedulerClassCycle self.classCycleCursor
  let self := { self with classCycleCursor := self.classCycleCursor + 1 }
  match self.queues class_ with
  | [] => (self, none)
  | pid :: rest =>
    let self := self.setQueue class_ rest
    let enqueuedTick := (self.enqueuedAt[pid]?).getD self.tick
    ({ self with queued := self.queued.erase pid, enqueuedAt := self.enqueuedAt.erase pid },
      some (pid, enqueuedTick))

def pollClasses : Nat → VmScheduler → VmScheduler × Option (VmProcessId × UInt64)
  | 0, self => (self, none)
  | polls + 1, self =>
    match self.pollClass with
    | (self, some entry) => (self, some entry)
    | (self, none) => pollClasses polls self

def dequeue (self : VmScheduler) : VmScheduler × Option (VmProcessId × UInt64) :=
  pollClasses 6 self

/-- Removes what the scheduler has about a process that exited elsewhere. -/
def forgetProcess (self : VmScheduler) (pid : VmProcessId) : VmScheduler :=
  let self := (self.removeQueued pid).dropClass pid
  { self with enqueuedAt := self.enqueuedAt.erase pid }

def reapProcessDiagnostics (self : VmScheduler) (pid : VmProcessId) : VmScheduler :=
  let self := self.forgetProcess pid
  { self with
    metrics := { self.metrics with processes := self.metrics.processes.erase pid.value } }

def detachProcessPlacement (self : VmScheduler) (process : VmProcessId) :
    VmScheduler × VmSchedulerPlacementTransfer :=
  let transfer : VmSchedulerPlacementTransfer :=
    { process
      schedulerClass := self.classOf process
      queued := self.queued.contains process
      metrics := self.metrics.processes[process.value]? }
  let self := (self.removeQueued process).dropClass process
  ({ self with
      metrics := { self.metrics with processes := self.metrics.processes.erase process.value } },
    transfer)

end VmScheduler

/-! ## Operations with the process table -/

/-- A scheduler and the process table it borrows. -/
structure Scheduling where
  scheduler : VmScheduler
  processes : VmProcessTable

namespace Scheduling

/-- The scheduler changes itself. -/
def self {ε : Type} (change : VmScheduler → VmScheduler) : Method ε Scheduling Unit :=
  modify fun s => { s with scheduler := change s.scheduler }

/-- A method of the process table. -/
def table {ε α : Type} (m : Method ε VmProcessTable α) : Method ε Scheduling α :=
  m.within (·.processes) fun processes s => { s with processes }

end Scheduling

open Scheduling

def enqueueUnchecked (pid : VmProcessId) : Method String Scheduling Unit := do
  table (markActorQueued pid)
  self (·.enqueueUncheckedRaw pid)

def chargeProcessReductions (pid : VmProcessId) (reductions : UInt64) (chargeLabel : String)
    (allowExited : Bool) : Method String Scheduling UInt64 := do
  let s ← get
  failIf (s.processes.get pid).isNone
    s!"cannot charge {chargeLabel} for missing process {pid.value}"
  table (mutateProcess pid fun process =>
    if !allowExited && process.state.isExited then
      (process, .error s!"cannot charge {chargeLabel} for exited process {pid.value}")
    else (process.chargeReductions reductions, .ok ()))
  self fun scheduler =>
    { scheduler with
      metrics :=
        { scheduler.metrics with
          totalReductions := saturatingAdd scheduler.metrics.totalReductions reductions }.update
            pid fun metrics =>
              { metrics with
                pid := pid.value
                reductions := saturatingAdd metrics.reductions reductions } }
  return reductions

def chargeRuntimeReductions (pid : VmProcessId) (reductions : UInt64) :
    Method String Scheduling UInt64 :=
  chargeProcessReductions pid reductions "reductions" false

/-- Charges work that was completed after the process had exited. -/
def chargeTerminalReductions (pid : VmProcessId) (reductions : UInt64) :
    Method String Scheduling UInt64 := do
  let s ← get
  failIf (s.processes.isAlive pid)
    s!"cannot charge terminal reductions for live process {pid.value}"
  chargeProcessReductions pid reductions "terminal reductions" true

def chargeMemoryReductions (pid : VmProcessId) (logicalBytes : Nat) :
    Method String Scheduling UInt64 := do
  let blocks := (logicalBytes + vmMemoryBytesPerReduction - 1) / vmMemoryBytesPerReduction
  let reductions := saturatingAdd (UInt64.ofNat (min blocks u64Max)) 1
  let _ ← chargeProcessReductions pid reductions "memory" false
  self fun scheduler =>
    { scheduler with
      metrics :=
        { scheduler.metrics with
          totalMemoryReductions :=
            saturatingAdd scheduler.metrics.totalMemoryReductions reductions }.update
            pid fun metrics =>
              { metrics with
                memoryReductions := saturatingAdd metrics.memoryReductions reductions } }
  return reductions

/-- Registers a process that a fixed scheduler loop executes. -/
def registerFixedOwner (pid : VmProcessId) : Method String Scheduling Unit := do
  table (markActorQueued pid)
  self (·.setClass pid .normal)

/-- Why a process in some state cannot be enqueued. -/
def enqueueRefusal (pid : VmProcessId) : VmProcessState → Except String Unit
  | .runnable => .ok ()
  | .blocked => .error s!"cannot enqueue blocked process {pid.value}"
  | .hibernated => .error s!"cannot enqueue hibernated process {pid.value}"
  | .suspended _ => .error s!"cannot enqueue suspended process {pid.value}"
  | .exited _ => .error s!"cannot enqueue exited process {pid.value}"

def enqueueRunnableWithClass (pid : VmProcessId) (class_ : VmSchedulerClass) :
    Method String Scheduling Unit := do
  let s ← get
  match s.processes.get pid with
  | none => throw s!"cannot enqueue missing process {pid.value}"
  | some process =>
    enqueueRefusal pid process.state
    failIf (s.scheduler.queued.contains pid ∧
        (s.scheduler.classes[pid]?).any (· ≠ class_))
      s!"cannot reclassify queued process {pid.value}"
    self (·.setClass pid class_)
    enqueueUnchecked pid

def enqueueRunnable (pid : VmProcessId) : Method String Scheduling Unit := do
  let s ← get
  enqueueRunnableWithClass pid (s.scheduler.classOf pid)

def setProcessClass (pid : VmProcessId) (class_ : VmSchedulerClass) :
    Method String Scheduling Unit := do
  let s ← get
  match s.processes.get pid with
  | none => throw s!"cannot reclassify missing process {pid.value}"
  | some process =>
    failIf process.state.isExited s!"cannot reclassify exited process {pid.value}"
    if s.scheduler.classes[pid]? = some class_ then
      let _ ← chargeRuntimeReductions pid vmSchedulerOperationReductions
      return ()
    else if s.scheduler.queued.contains pid then
      self (·.removeQueued pid)
      self (·.setClass pid class_)
      enqueueUnchecked pid
      let _ ← chargeRuntimeReductions pid vmSchedulerOperationReductions
      return ()
    else
      self (·.setClass pid class_)
      let _ ← chargeRuntimeReductions pid vmSchedulerOperationReductions
      return ()

/-- An operation on an existing process under control ownership that may refuse it. -/
def onExisting {α : Type} (action : String) (pid : VmProcessId)
    (mutate : VmProcess → VmProcess × Except String α) : Method String Scheduling α := do
  let s ← get
  failIf (s.processes.get pid).isNone s!"cannot {action} missing process {pid.value}"
  table (mutateProcess pid mutate)

def wakeProcess (pid : VmProcessId) : Method String Scheduling Unit := do
  let suspended ← onExisting "wake" pid fun process =>
    match process.state with
    | .exited _ => (process, .error s!"cannot wake exited process {pid.value}")
    | .suspended _ => (process.wake, .ok true)
    | .runnable | .blocked | .hibernated => (process.wake, .ok false)
  if suspended then return ()
  else enqueueUnchecked pid

def suspendProcess (pid : VmProcessId) : Method String Scheduling Unit := do
  onExisting "suspend" pid fun process =>
    (process.suspend.1, process.suspend.2.mapError fun _ =>
      s!"cannot suspend exited process {pid.value}")
  self (·.removeQueued pid)

def hibernateProcess (pid : VmProcessId) : Method String Scheduling Unit := do
  onExisting "hibernate" pid fun process =>
    (process.hibernate.1, process.hibernate.2.mapError fun error =>
      s!"cannot hibernate process {pid.value}: {error}")
  self (·.removeQueued pid)

def resumeProcess (pid : VmProcessId) : Method String Scheduling Unit := do
  let resumeState ← onExisting "resume" pid fun process =>
    (process.resume.1, process.resume.2.mapError fun reason =>
      if process.state.isExited then s!"cannot resume exited process {pid.value}"
      else s!"cannot resume process {pid.value}: {reason}")
  if resumeState = .runnable then enqueueUnchecked pid
  else return ()

def requestCancellation (pid : VmProcessId) : Method String Scheduling Unit := do
  onExisting "cancel" pid fun process =>
    if process.state.isExited then
      (process, .error s!"cannot cancel exited process {pid.value}")
    else (process.requestCancellation, .ok ())
  let _ ← chargeRuntimeReductions pid vmSchedulerOperationReductions
  return ()

/-! ## Transfer of a placement -/

def validateProcessPlacementImport (s : Scheduling) (transfer : VmSchedulerPlacementTransfer) :
    Except String Unit := do
  match s.processes.get transfer.process with
  | none => throw s!"scheduler transfer process {transfer.process.value} is missing"
  | some process =>
    failIf (s.scheduler.classes.contains transfer.process ∨
        s.scheduler.queued.contains transfer.process)
      (s!"scheduler transfer process {transfer.process.value} already has destination "
        ++ "placement")
    failIf (transfer.queued ∧ ¬ process.state.isRunnable)
      (s!"scheduler transfer process {transfer.process.value} was queued but is not "
        ++ "runnable")
    failIf (s.scheduler.metrics.processes.contains transfer.process.value)
      s!"scheduler transfer process {transfer.process.value} already has destination metrics"

def importProcessPlacement (transfer : VmSchedulerPlacementTransfer) :
    Method (Fault String) Scheduling Unit := do
  let s ← get
  (validateProcessPlacementImport s transfer).mapError Fault.returned
  self (·.setClass transfer.process transfer.schedulerClass)
  self fun scheduler =>
    match transfer.metrics with
    | none => scheduler
    | some metrics =>
      { scheduler with metrics := scheduler.metrics.update transfer.process fun _ => metrics }
  if transfer.queued then
    (enqueueUnchecked transfer.process).expect "validated runnable process can be queued"
  else return ()

/-! ## Slices -/

/-- What executes a slice of a process. -/
abbrev RunSlice := VmProcess → VmSchedulerSlice → VmProcess × VmSchedulerDecision

def idleRun : Method (Fault String) Scheduling VmSchedulerRun := do
  let s ← get
  return ⟨none, s.scheduler.tick, 0, .idle⟩

def recordRun (pid : VmProcessId) (run : VmSchedulerRun) (enqueuedTick : UInt64)
    (preempted : Bool) (scheduler : VmScheduler) : VmScheduler :=
  let waitTicks := if enqueuedTick ≤ run.tick then run.tick - enqueuedTick else 0
  let one : UInt64 := if preempted then 1 else 0
  { scheduler with
    metrics :=
      { scheduler.metrics with
        totalSlices := saturatingAdd scheduler.metrics.totalSlices 1
        totalReductions :=
          saturatingAdd scheduler.metrics.totalReductions run.reductionsCharged
        preemptions := saturatingAdd scheduler.metrics.preemptions one }.update pid
          fun metrics =>
            { metrics with
              pid := pid.value
              reductions := saturatingAdd metrics.reductions run.reductionsCharged
              slices := saturatingAdd metrics.slices 1
              preemptions := saturatingAdd metrics.preemptions one
              maxWaitTicks := max metrics.maxWaitTicks waitTicks
              firstRunTick := some (metrics.firstRunTick.getD run.tick)
              lastRunTick := some run.tick } }

def cancelProcess (pid : VmProcessId) (reductionsCharged : UInt64) :
    Method (Fault String) Scheduling VmSchedulerRun := do
  let cleanup ← table ((exitProcess pid .killed).expect
    "cancelled process was checked before scheduler exit")
  self (·.dropClass pid)
  let s ← get
  return ⟨some pid, s.scheduler.tick, reductionsCharged, .cancelled cleanup⟩

def applyDecision (pid : VmProcessId) (decision : VmSchedulerDecision) :
    Method (Fault String) Scheduling VmSchedulerRun := do
  let s ← get
  match decision with
  | .yield reductions =>
    if (s.processes.get pid).any (·.state.isRunnable) then
      let _ ← (enqueueUnchecked pid).attempt
      return ⟨some pid, s.scheduler.tick, reductions, .ran⟩
    else
      self (·.dropClass pid)
      return ⟨some pid, s.scheduler.tick, reductions, .ran⟩
  | .block reductions => return ⟨some pid, s.scheduler.tick, reductions, .blocked⟩
  | .exit reductions reason =>
    let cleanup ← (table (exitProcess pid reason)).attempt
    self (·.dropClass pid)
    return ⟨some pid, s.scheduler.tick, reductions, .exited (cleanup.toOption.getD [])⟩

def advanceTick (scheduler : VmScheduler) : VmScheduler :=
  { scheduler with tick := saturatingAdd scheduler.tick 1 }

/-- Executes a slice of a runnable process that was dequeued. -/
def runDequeued (runSlice : RunSlice) (pid : VmProcessId) (enqueuedTick : UInt64) :
    Method (Fault String) Scheduling VmSchedulerRun := do
  self advanceTick
  let s ← get
  let slice : VmSchedulerSlice :=
    ⟨pid, s.scheduler.tick, s.scheduler.config.reductionsPerSlice⟩
  let token ← (table (acquireActorMutator pid s.scheduler.owner)).orReturn
  let _ ← (table (integrateActorMailbox token)).orReturn
  let (decision, cancellationAtBoundary) ← (table (withActorMutator token fun process =>
    let (process, decision) := runSlice process slice
    let process := if decision.isBlock then process.block else process
    let process := process.chargeReductions decision.reductions
    (process, decision, process.cancellationRequested && !decision.isExit))).orReturn
  let preempted := decision.isYield && decision.reductions ≥ slice.reductionBudget
  let releaseState :=
    if cancellationAtBoundary || decision.isExit then VmActorLifecycle.exiting
    else if decision.isBlock then .parked
    else .yielding
  let released ← (table (releaseActorMutator token releaseState)).orReturn
  if cancellationAtBoundary then
    let run ← cancelProcess pid decision.reductions
    self (recordRun pid run enqueuedTick preempted)
    return run
  else if decision.isBlock && released ≠ .parked then
    -- a message arrived while the process was about to park
    let _ ← (table (integrateProcessMailbox pid)).orReturn
    (table (updateProcess pid (·.wake))).orReturn
    (enqueueUnchecked pid).orReturn
    let run : VmSchedulerRun := ⟨some pid, s.scheduler.tick, decision.reductions, .ran⟩
    self (recordRun pid run enqueuedTick preempted)
    return run
  else
    let run ← applyDecision pid decision
    self (recordRun pid run enqueuedTick preempted)
    return run

/-- The polls of `run_next`. -/
def runPolls (runSlice : RunSlice) : Nat → Method (Fault String) Scheduling VmSchedulerRun
  | 0 => idleRun
  | polls + 1 => do
    let s ← get
    self fun scheduler => scheduler.dequeue.1
    match s.scheduler.dequeue.2 with
    | none => idleRun
    | some (pid, enqueuedTick) =>
      match s.processes.get pid with
      | none => throw (.returned s!"scheduled process {pid.value} is missing")
      | some process =>
        if process.state.isExited then
          self (·.dropClass pid)
          runPolls runSlice polls
        else if ¬ process.state.isRunnable then runPolls runSlice polls
        else if process.cancellationRequested then
          self advanceTick
          let run ← cancelProcess pid 0
          self (recordRun pid run enqueuedTick false)
          return run
        else runDequeued runSlice pid enqueuedTick

def runNext (runSlice : RunSlice) : Method (Fault String) Scheduling VmSchedulerRun := do
  let s ← get
  runPolls runSlice s.scheduler.config.maxEmptyPolls

/-! ## Runs -/

/-- One operation of the scheduler; `borrow` is the process table as others left it. -/
inductive Request where
  | enqueueRunnable (pid : VmProcessId)
  | enqueueRunnableWithClass (pid : VmProcessId) (schedulerClass : VmSchedulerClass)
  | registerFixedOwner (pid : VmProcessId)
  | setProcessClass (pid : VmProcessId) (schedulerClass : VmSchedulerClass)
  | wakeProcess (pid : VmProcessId)
  | suspendProcess (pid : VmProcessId)
  | hibernateProcess (pid : VmProcessId)
  | resumeProcess (pid : VmProcessId)
  | requestCancellation (pid : VmProcessId)
  | chargeRuntimeReductions (pid : VmProcessId) (reductions : UInt64)
  | chargeTerminalReductions (pid : VmProcessId) (reductions : UInt64)
  | chargeMemoryReductions (pid : VmProcessId) (logicalBytes : Nat)
  | forgetProcess (pid : VmProcessId)
  | reapProcessDiagnostics (pid : VmProcessId)
  | detachProcessPlacement (pid : VmProcessId)
  | importProcessPlacement (transfer : VmSchedulerPlacementTransfer)
  | dequeue
  | runNext (runSlice : RunSlice)
  | borrow (processes : VmProcessTable)

/-- What an operation returns besides its failure. -/
inductive Answer where
  | done
  | charged (reductions : UInt64)
  | detached (transfer : VmSchedulerPlacementTransfer)
  | dequeued (entry : Option (VmProcessId × UInt64))
  | ran (run : VmSchedulerRun)

/-- An operation without a result. -/
def done (m : Method String Scheduling Unit) : Method (Fault String) Scheduling Answer :=
  (fun _ => .done) <$> m.orReturn

/-- An operation of the scheduler alone. -/
def alone (operation : VmScheduler → VmScheduler × Answer) :
    Method (Fault String) Scheduling Answer :=
  .ofCall fun s =>
    ({ s with scheduler := (operation s.scheduler).1 }, .ok (operation s.scheduler).2)

def Request.perform : Request → Method (Fault String) Scheduling Answer
  | .enqueueRunnable pid => done (Scheduler.enqueueRunnable pid)
  | .enqueueRunnableWithClass pid schedulerClass =>
    done (Scheduler.enqueueRunnableWithClass pid schedulerClass)
  | .registerFixedOwner pid => done (Scheduler.registerFixedOwner pid)
  | .setProcessClass pid schedulerClass => done (Scheduler.setProcessClass pid schedulerClass)
  | .wakeProcess pid => done (Scheduler.wakeProcess pid)
  | .suspendProcess pid => done (Scheduler.suspendProcess pid)
  | .hibernateProcess pid => done (Scheduler.hibernateProcess pid)
  | .resumeProcess pid => done (Scheduler.resumeProcess pid)
  | .requestCancellation pid => done (Scheduler.requestCancellation pid)
  | .chargeRuntimeReductions pid reductions =>
    .charged <$> (Scheduler.chargeRuntimeReductions pid reductions).orReturn
  | .chargeTerminalReductions pid reductions =>
    .charged <$> (Scheduler.chargeTerminalReductions pid reductions).orReturn
  | .chargeMemoryReductions pid logicalBytes =>
    .charged <$> (Scheduler.chargeMemoryReductions pid logicalBytes).orReturn
  | .forgetProcess pid => alone fun scheduler => (scheduler.forgetProcess pid, .done)
  | .reapProcessDiagnostics pid =>
    alone fun scheduler => (scheduler.reapProcessDiagnostics pid, .done)
  | .detachProcessPlacement pid =>
    alone fun scheduler =>
      ((scheduler.detachProcessPlacement pid).1,
        .detached (scheduler.detachProcessPlacement pid).2)
  | .importProcessPlacement transfer =>
    (fun _ => .done) <$> Scheduler.importProcessPlacement transfer
  | .dequeue => alone fun scheduler => (scheduler.dequeue.1, .dequeued scheduler.dequeue.2)
  | .runNext runSlice => .ran <$> Scheduler.runNext runSlice
  | .borrow processes => (fun _ => .done) <$> modify fun s => { s with processes }

def call (s : Scheduling) (request : Request) : Scheduling × Except (Fault String) Answer :=
  request.perform.call s

/-! ## The run queue -/

/-- `diagnostic_queued_processes`: all queue entries, class by class. -/
def VmScheduler.queuedProcesses (self : VmScheduler) : List VmProcessId :=
  self.queues .priority ++ self.queues .normal ++ self.queues .background

/-- The queues hold the queued processes, each once and in the queue of its class. -/
structure RunQueue (scheduler : VmScheduler) : Prop where
  members : ∀ pid, pid ∈ scheduler.queued ↔ ∃ class_, pid ∈ scheduler.queues class_
  single : ∀ class_, (scheduler.queues class_).Nodup
  placed : ∀ class_, ∀ pid ∈ scheduler.queues class_, scheduler.classes[pid]? = some class_
  stamped : ∀ pid, pid ∈ scheduler.enqueuedAt ↔ pid ∈ scheduler.queued

namespace RunQueue

variable {scheduler : VmScheduler}

/-- No process waits in two queues. -/
theorem queuedProcesses_nodup (h : RunQueue scheduler) : scheduler.queuedProcesses.Nodup := by
  have apart : ∀ {c d}, c ≠ d → ∀ pid ∈ scheduler.queues c, ∀ other ∈ scheduler.queues d,
      pid ≠ other := by
    rintro c d differ pid mem _ mem' rfl
    have class_ := h.placed c pid mem
    rw [h.placed d pid mem', Option.some_inj] at class_
    exact differ class_.symm
  unfold VmScheduler.queuedProcesses
  rw [nodup_append, nodup_append]
  refine ⟨⟨h.single _, h.single _, apart (by decide)⟩, h.single _, fun pid mem other mem' => ?_⟩
  rcases mem_append.mp mem with mem | mem
  · exact apart (by decide) pid mem other mem'
  · exact apart (by decide) pid mem other mem'

theorem new (config : VmSchedulerConfig) (owner : UInt64) :
    RunQueue (.withOwner config owner) where
  members pid := by
    have empty : (∅ : ExtTreeSet VmProcessId).contains pid = false := ExtTreeSet.contains_empty
    refine iff_of_false ?_ (by rintro ⟨_, mem⟩; cases mem)
    intro mem
    have queued : (∅ : ExtTreeSet VmProcessId).contains pid = true :=
      ExtTreeSet.contains_iff_mem.mpr mem
    rw [empty] at queued
    cases queued
  single _ := nodup_nil
  placed _ _ mem := by cases mem
  stamped pid := iff_of_false ExtTreeMap.not_mem_empty ExtTreeSet.not_mem_empty

section

variable (h : RunQueue scheduler)
include h

/-- A queued process may only be given the class it has. -/
theorem setClass_iff (pid : VmProcessId) (class_ : VmSchedulerClass) :
    RunQueue (scheduler.setClass pid class_) ↔
      (pid ∈ scheduler.queued → scheduler.classes[pid]? = some class_) := by
  have classes : ∀ other, (scheduler.setClass pid class_).classes[other]? =
      if pid = other then some class_ else scheduler.classes[other]? :=
    fun other => getElem?_insert_eq scheduler.classes pid other class_
  constructor
  · intro after queued
    obtain ⟨own, mem⟩ := (h.members pid).mp queued
    have moved := after.placed own pid mem
    rw [classes, if_pos rfl, Option.some_inj] at moved
    rw [moved]
    exact h.placed own pid mem
  · intro same
    refine ⟨h.members, h.single, fun own other mem => ?_, h.stamped⟩
    rw [classes]
    split
    next eq =>
      subst eq
      rw [← same ((h.members pid).mpr ⟨own, mem⟩)]
      exact h.placed own pid mem
    next => exact h.placed own other mem

theorem dropClass {pid : VmProcessId} (out : pid ∉ scheduler.queued) :
    RunQueue (scheduler.dropClass pid) := by
  refine ⟨h.members, h.single, fun own other mem => ?_, h.stamped⟩
  change (scheduler.classes.erase pid)[other]? = some own
  rw [getElem?_erase_eq, if_neg]
  · exact h.placed own other mem
  · rintro rfl
    exact out ((h.members pid).mpr ⟨own, mem⟩)

/-- The entry of a process leaves the queues, wherever it is. -/
theorem removed (pid : VmProcessId) {class_ : VmSchedulerClass}
    {rest : List VmProcessId} (kept : ∀ other, other ∈ rest ↔
      other ∈ scheduler.queues class_ ∧ other ≠ pid) (single : rest.Nodup)
    (placed : pid ∈ scheduler.queued → pid ∈ scheduler.queues class_) :
    RunQueue { scheduler.setQueue class_ rest with
      queued := scheduler.queued.erase pid, enqueuedAt := scheduler.enqueuedAt.erase pid } := by
  have queues : ∀ own, (scheduler.setQueue class_ rest).queues own =
      if own = class_ then rest else scheduler.queues own :=
    update_apply scheduler.queues class_ rest
  have elsewhere : ∀ own, own ≠ class_ → pid ∉ scheduler.queues own := by
    intro own differ mem
    have there := placed ((h.members pid).mpr ⟨own, mem⟩)
    have same := h.placed own pid mem
    rw [h.placed class_ pid there, Option.some_inj] at same
    exact differ same.symm
  have inside : ∀ own other, other ∈ (scheduler.setQueue class_ rest).queues own ↔
      other ∈ scheduler.queues own ∧ other ≠ pid := by
    intro own other
    rw [queues]
    split
    next same => rw [kept, same]
    next differ =>
      refine ⟨fun mem => ⟨mem, ?_⟩, And.left⟩
      rintro rfl
      exact elsewhere own differ mem
  refine ⟨fun other => ?_, fun own => ?_, fun own other mem => ?_, fun other => ?_⟩
  · change other ∈ scheduler.queued.erase pid ↔
      ∃ own, other ∈ (scheduler.setQueue class_ rest).queues own
    rw [mem_set_erase_iff, h.members]
    simp only [inside]
    constructor
    · rintro ⟨differ, own, mem⟩
      exact ⟨own, mem, differ.symm⟩
    · rintro ⟨own, mem, differ⟩
      exact ⟨differ.symm, own, mem⟩
  · change ((scheduler.setQueue class_ rest).queues own).Nodup
    rw [queues]
    split
    next => exact single
    next => exact h.single own
  · exact h.placed own other ((inside own other).mp mem).1
  · change other ∈ scheduler.enqueuedAt.erase pid ↔ other ∈ scheduler.queued.erase pid
    rw [Lib.mem_erase_iff, mem_set_erase_iff, h.stamped]

theorem removeQueued (pid : VmProcessId) :
    RunQueue (scheduler.removeQueued pid) ∧ pid ∉ (scheduler.removeQueued pid).queued := by
  unfold VmScheduler.removeQueued
  split
  next queued =>
    have queued := ExtTreeSet.contains_iff_mem.mp queued
    refine ⟨h.removed pid (fun other => ?_) ((h.single _).filter _) fun _ => ?_, ?_⟩
    · simp [mem_filter]
    · obtain ⟨own, mem⟩ := (h.members pid).mp queued
      have named : scheduler.classOf pid = own := by
        unfold VmScheduler.classOf
        rw [h.placed own pid mem]
        rfl
      rw [named]
      exact mem
    · intro mem
      exact ((mem_set_erase_iff scheduler.queued pid pid).mp mem).1 rfl
  next out => exact ⟨h, fun mem => out (ExtTreeSet.contains_iff_mem.mpr mem)⟩

/-- So no queue has an entry of the process any more. -/
theorem removeQueued_queues (pid : VmProcessId)
    (class_ : VmSchedulerClass) : pid ∉ (scheduler.removeQueued pid).queues class_ := by
  obtain ⟨after, out⟩ := h.removeQueued pid
  intro mem
  exact out ((after.members pid).mpr ⟨class_, mem⟩)

/-- A process that is not queued enters the queue of its class. -/
theorem entered {pid : VmProcessId} {class_ : VmSchedulerClass}
    (out : pid ∉ scheduler.queued) (named : scheduler.classes[pid]? = some class_)
    (tick : UInt64) :
    RunQueue { scheduler.setQueue class_ (scheduler.queues class_ ++ [pid]) with
      queued := scheduler.queued.insert pid
      enqueuedAt := scheduler.enqueuedAt.insert pid tick } := by
  have inside : ∀ own other,
      other ∈ (scheduler.setQueue class_ (scheduler.queues class_ ++ [pid])).queues own ↔
        other ∈ scheduler.queues own ∨ own = class_ ∧ other = pid := by
    intro own other
    change other ∈ Function.update scheduler.queues class_ _ own ↔ _
    rw [update_apply]
    split
    next same => simp [same]
    next differ => simp [differ]
  refine ⟨fun other => ?_, fun own => ?_, fun own other mem => ?_, fun other => ?_⟩
  · change other ∈ scheduler.queued.insert pid ↔
      ∃ own, other ∈ (scheduler.setQueue class_ (scheduler.queues class_ ++ [pid])).queues own
    rw [mem_set_insert_iff, h.members]
    simp only [inside]
    constructor
    · rintro (rfl | ⟨own, mem⟩)
      · exact ⟨class_, .inr ⟨rfl, rfl⟩⟩
      · exact ⟨own, .inl mem⟩
    · rintro ⟨own, mem | ⟨_, same⟩⟩
      · exact .inr ⟨own, mem⟩
      · exact .inl same.symm
  · change (Function.update scheduler.queues class_ _ own).Nodup
    rw [update_apply]
    split
    next =>
      have fresh : pid ∉ scheduler.queues class_ := fun mem => out ((h.members pid).mpr ⟨_, mem⟩)
      rw [nodup_append]
      refine ⟨h.single _, nodup_cons.mpr ⟨not_mem_nil, nodup_nil⟩, fun other mem pid' mem' => ?_⟩
      rw [mem_singleton.mp mem']
      rintro rfl
      exact fresh mem
    next => exact h.single own
  · rcases (inside own other).mp mem with mem | ⟨rfl, rfl⟩
    · exact h.placed own other mem
    · exact named
  · change other ∈ scheduler.enqueuedAt.insert pid tick ↔ other ∈ scheduler.queued.insert pid
    rw [Lib.mem_insert_iff, mem_set_insert_iff, h.stamped]

/-- Metrics and the tick are no part of the run queue. -/
theorem congr {other : VmScheduler} (queues : other.queues = scheduler.queues)
    (queued : other.queued = scheduler.queued) (classes : other.classes = scheduler.classes)
    (enqueuedAt : other.enqueuedAt = scheduler.enqueuedAt) : RunQueue other where
  members pid := by rw [queues, queued]; exact h.members pid
  single class_ := by rw [queues]; exact h.single class_
  placed class_ pid mem := by
    rw [queues] at mem
    rw [classes]
    exact h.placed class_ pid mem
  stamped pid := by rw [enqueuedAt, queued]; exact h.stamped pid

theorem enqueueUncheckedRaw (pid : VmProcessId) :
    RunQueue (scheduler.enqueueUncheckedRaw pid) := by
  obtain ⟨base, same, kept, named, queued⟩ : ∃ base : VmScheduler,
      base = (if scheduler.classes.contains pid then scheduler
        else scheduler.setClass pid (scheduler.classOf pid)) ∧ RunQueue base ∧
      base.classes[pid]? = some (scheduler.classOf pid) ∧ base.queued = scheduler.queued := by
    refine ⟨_, rfl, ?_⟩
    split
    next known =>
      refine ⟨h, ?_, rfl⟩
      obtain ⟨class_, found⟩ := Option.isSome_iff_exists.mp
        (ExtTreeMap.mem_iff_isSome_getElem?.mp (ExtTreeMap.contains_iff_mem.mp known))
      unfold VmScheduler.classOf
      rw [found]
      rfl
    next unknown =>
      refine ⟨(h.setClass_iff pid _).mpr fun queued => ?_, ?_, rfl⟩
      · obtain ⟨class_, mem⟩ := (h.members pid).mp queued
        have found := h.placed class_ pid mem
        refine absurd (ExtTreeMap.contains_iff_mem.mpr ?_) unknown
        exact ExtTreeMap.mem_iff_isSome_getElem?.mpr (by rw [found]; rfl)
      · exact getElem?_insert_self_eq scheduler.classes pid _
  unfold VmScheduler.enqueueUncheckedRaw
  dsimp only
  rw [← same]
  split
  next => exact kept
  next out =>
    have out : pid ∉ base.queued := fun mem => out (ExtTreeSet.contains_iff_mem.mpr mem)
    exact (kept.entered out named base.tick).congr rfl rfl rfl rfl

theorem pollClass : RunQueue scheduler.pollClass.1 ∧
      ∀ entry, scheduler.pollClass.2 = some entry → entry.1 ∉ scheduler.pollClass.1.queued := by
  unfold VmScheduler.pollClass
  dsimp only
  split
  next => exact ⟨⟨h.members, h.single, h.placed, h.stamped⟩, fun _ eq => by cases eq⟩
  next pid rest queue =>
    have polled : RunQueue { scheduler with classCycleCursor := scheduler.classCycleCursor + 1 } :=
      ⟨h.members, h.single, h.placed, h.stamped⟩
    have single := h.single (vmSchedulerClassCycle scheduler.classCycleCursor)
    rw [queue, nodup_cons] at single
    refine ⟨polled.removed pid (fun other => ?_) single.2 fun _ => ?_, fun entry eq => ?_⟩
    · change other ∈ rest ↔ other ∈ scheduler.queues _ ∧ other ≠ pid
      rw [queue, mem_cons]
      constructor
      · intro mem
        refine ⟨.inr mem, ?_⟩
        rintro rfl
        exact single.1 mem
      · rintro ⟨same | mem, differ⟩
        · exact absurd same differ
        · exact mem
    · change pid ∈ scheduler.queues _
      rw [queue]
      exact mem_cons_self
    · cases eq
      intro mem
      exact ((mem_set_erase_iff scheduler.queued pid pid).mp mem).1 rfl

theorem pollClasses (polls : Nat) :
    RunQueue (VmScheduler.pollClasses polls scheduler).1 ∧
      ∀ entry, (VmScheduler.pollClasses polls scheduler).2 = some entry →
        entry.1 ∉ (VmScheduler.pollClasses polls scheduler).1.queued := by
  induction polls generalizing scheduler with
  | zero => exact ⟨h, fun _ eq => by cases eq⟩
  | succ polls ih =>
    obtain ⟨after, out⟩ := h.pollClass
    unfold VmScheduler.pollClasses
    rcases run : scheduler.pollClass with ⟨polled, _ | entry⟩
    · rw [run] at after
      exact ih after
    · rw [run] at after out
      exact ⟨after, out⟩

theorem dequeue : RunQueue scheduler.dequeue.1 ∧
      ∀ entry, scheduler.dequeue.2 = some entry → entry.1 ∉ scheduler.dequeue.1.queued :=
  h.pollClasses 6

theorem forgetProcess (pid : VmProcessId) :
    RunQueue (scheduler.forgetProcess pid) := by
  obtain ⟨removed, out⟩ := h.removeQueued pid
  have dropped := removed.dropClass out
  refine ⟨dropped.members, dropped.single, dropped.placed, fun other => ?_⟩
  change other ∈ (scheduler.removeQueued pid).enqueuedAt.erase pid ↔
    other ∈ (scheduler.removeQueued pid).queued
  rw [Lib.mem_erase_iff, removed.stamped]
  refine ⟨And.right, fun mem => ⟨?_, mem⟩⟩
  rintro rfl
  exact out mem

end

end RunQueue

/-! ## Operations keep the run queue -/

/-- A property of the scheduler, seen from both. -/
abbrev On (P : VmScheduler → Prop) (s : Scheduling) : Prop := P s.scheduler

/-- The process was taken out of the queues. -/
def Dequeued (pid : VmProcessId) (scheduler : VmScheduler) : Prop :=
  RunQueue scheduler ∧ pid ∉ scheduler.queued

section Operations

variable {ε α : Type} {P Q : VmScheduler → Prop}

/-- The process table is not the scheduler. -/
theorem keeps_table (m : Method ε VmProcessTable α) : Keeps (On P) (table m) := fun _ h => h

theorem leads_self {change : VmScheduler → VmScheduler} (step : ∀ s, P s → Q (change s)) :
    Leads (On P) (On Q) (self change : Method ε Scheduling Unit) := fun s h => step s.scheduler h

theorem Dequeued.runQueue {pid : VmProcessId} {scheduler : VmScheduler}
    (h : Dequeued pid scheduler) : RunQueue scheduler := h.1

variable (pid : VmProcessId)

theorem keeps_enqueueUnchecked : Keeps (On RunQueue) (enqueueUnchecked pid) :=
  keeps_bind (keeps_table _) fun _ => leads_self fun _ h => h.enqueueUncheckedRaw pid

variable (reductions : UInt64)

theorem keeps_chargeProcessReductions (label : String) (allowExited : Bool) :
    Keeps (On RunQueue) (chargeProcessReductions pid reductions label allowExited) := by
  refine keeps_get_bind fun s => keeps_bind (keeps_lift _) fun _ =>
    keeps_bind (keeps_table _) fun _ => keeps_bind ?_ fun _ => keeps_pure _
  exact leads_self fun _ h => h.congr rfl rfl rfl rfl

theorem keeps_chargeRuntimeReductions :
    Keeps (On RunQueue) (chargeRuntimeReductions pid reductions) :=
  keeps_chargeProcessReductions pid reductions _ _

theorem keeps_chargeTerminalReductions :
    Keeps (On RunQueue) (chargeTerminalReductions pid reductions) :=
  keeps_get_bind fun _ => keeps_bind (keeps_lift _) fun _ =>
    keeps_chargeProcessReductions pid reductions _ _

theorem keeps_chargeMemoryReductions (logicalBytes : Nat) :
    Keeps (On RunQueue) (chargeMemoryReductions pid logicalBytes) :=
  keeps_bind (keeps_chargeProcessReductions pid _ _ _) fun _ =>
    keeps_bind (leads_self fun _ h => h.congr rfl rfl rfl rfl) fun _ => keeps_pure _

/-- The guard against a reclassification lets only the class of a queued process pass. -/
theorem keeps_enqueueRunnableWithClass (class_ : VmSchedulerClass) :
    Keeps (On RunQueue) (enqueueRunnableWithClass pid class_) := by
  refine leads_get_bind fun s h => ?_
  split
  next => exact h
  next process _ =>
    refine leads_check_bind (P := fun t => t = s) (fun t same => same ▸ h)
      (fun _ _ => leads_check_bind (fun t same => same ▸ h) fun _ check => ?_) s rfl
    have free := failIf_ok_iff.mp check
    refine leads_bind (Q := On RunQueue) ?_ (fun _ h => h) fun _ => keeps_enqueueUnchecked pid
    rintro _ rfl
    refine (h.setClass_iff pid class_).mpr fun queued => ?_
    obtain ⟨own, mem⟩ := (h.members pid).mp queued
    have named := h.placed own pid mem
    have same : own = class_ := by
      by_contra differ
      exact free ⟨ExtTreeSet.contains_iff_mem.mpr queued, by rw [named]; simpa using differ⟩
    rw [← same]
    exact named

theorem keeps_enqueueRunnable : Keeps (On RunQueue) (enqueueRunnable pid) :=
  keeps_get_bind fun _ => keeps_enqueueRunnableWithClass pid _

theorem keeps_setProcessClass (class_ : VmSchedulerClass) :
    Keeps (On RunQueue) (setProcessClass pid class_) := by
  have charge : Keeps (On RunQueue) (do
      let _ ← chargeRuntimeReductions pid vmSchedulerOperationReductions
      return () : Method String Scheduling Unit) :=
    keeps_bind (keeps_chargeRuntimeReductions pid _) fun _ => keeps_pure _
  refine leads_get_bind fun s h => ?_
  split
  next => exact h
  next process _ =>
    refine leads_check_bind (P := fun t => t = s) (Q := On RunQueue) (fun t same => same ▸ h)
      (fun _ _ => ?_) s rfl
    refine leads_ite (fun _ => leads_weaken (fun t same => same ▸ h) charge) fun _ => ?_
    refine leads_ite (fun _ => ?_) fun out => ?_
    · -- a queued process moves to the queue of the new class
      refine leads_bind (Q := On (Dequeued pid)) ?_ (fun _ h => h.runQueue) fun _ =>
        leads_bind (Q := On RunQueue) ?_ (fun _ h => h) fun _ =>
          keeps_bind (keeps_enqueueUnchecked pid) fun _ => charge
      · rintro _ rfl
        exact h.removeQueued pid
      · exact leads_self fun _ h => (h.1.setClass_iff pid class_).mpr fun queued => absurd queued h.2
    · refine leads_bind (Q := On RunQueue) ?_ (fun _ h => h) fun _ => charge
      rintro _ rfl
      refine (h.setClass_iff pid class_).mpr fun queued => ?_
      exact absurd (ExtTreeSet.contains_iff_mem.mpr queued) out

theorem keeps_onExisting (action : String) (pid : VmProcessId)
    (mutate : VmProcess → VmProcess × Except String α) :
    Keeps (On P) (onExisting action pid mutate) :=
  keeps_get_bind fun _ => keeps_bind (keeps_lift _) fun _ => keeps_table _

theorem keeps_wakeProcess : Keeps (On RunQueue) (wakeProcess pid) :=
  keeps_bind (keeps_onExisting _ _ _) fun _ =>
    leads_ite (fun _ => keeps_pure _) fun _ => keeps_enqueueUnchecked pid

theorem keeps_suspendProcess : Keeps (On RunQueue) (suspendProcess pid) :=
  keeps_bind (keeps_onExisting _ _ _) fun _ => leads_self fun _ h => (h.removeQueued pid).1

theorem keeps_hibernateProcess : Keeps (On RunQueue) (hibernateProcess pid) :=
  keeps_bind (keeps_onExisting _ _ _) fun _ => leads_self fun _ h => (h.removeQueued pid).1

theorem keeps_resumeProcess : Keeps (On RunQueue) (resumeProcess pid) :=
  keeps_bind (keeps_onExisting _ _ _) fun _ =>
    leads_ite (fun _ => keeps_enqueueUnchecked pid) fun _ => keeps_pure _

theorem keeps_requestCancellation : Keeps (On RunQueue) (requestCancellation pid) :=
  keeps_bind (keeps_onExisting _ _ _) fun _ =>
    keeps_bind (keeps_chargeRuntimeReductions pid _) fun _ => keeps_pure _

theorem validateProcessPlacementImport_out {s : Scheduling}
    {transfer : VmSchedulerPlacementTransfer}
    (check : validateProcessPlacementImport s transfer = .ok ()) :
    transfer.process ∉ s.scheduler.queued := by
  unfold validateProcessPlacementImport at check
  split at check
  next => cases check
  next process _ =>
    have free := failIf_ok_iff.mp (check_bind_ok_iff.mp check).1
    exact fun mem => free (.inr (ExtTreeSet.contains_iff_mem.mpr mem))

theorem keeps_importProcessPlacement (transfer : VmSchedulerPlacementTransfer) :
    Keeps (On RunQueue) (importProcessPlacement transfer) := by
  refine leads_get_bind fun s h => ?_
  refine leads_check_bind (P := fun t => t = s) (fun t same => same ▸ h) (fun _ check => ?_) s rfl
  have out : transfer.process ∉ s.scheduler.queued := by
    cases valid : validateProcessPlacementImport s transfer with
    | ok => exact validateProcessPlacementImport_out valid
    | error e =>
      rw [valid] at check
      cases check
  refine leads_bind (Q := On RunQueue) ?_ (fun _ h => h) fun _ => keeps_bind ?_ fun _ => ?_
  · rintro _ rfl
    exact (h.setClass_iff _ _).mpr fun queued => absurd queued out
  · refine leads_self fun scheduler h => ?_
    cases transfer.metrics with
    | none => exact h
    | some metrics => exact h.congr rfl rfl rfl rfl
  · refine leads_ite (fun _ => ?_) fun _ => keeps_pure _
    exact leads_expect (keeps_enqueueUnchecked _)

/-! ### Slices -/

theorem leads_cancelProcess (reductionsCharged : UInt64) :
    Leads (On (Dequeued pid)) (On RunQueue) (cancelProcess pid reductionsCharged) :=
  leads_bind (keeps_table _) (fun _ h => h.runQueue) fun _ =>
    leads_bind (Q := On RunQueue) (leads_self fun _ h => h.1.dropClass h.2) (fun _ h => h)
      fun _ => keeps_get_bind fun _ => keeps_pure _

theorem leads_applyDecision (decision : VmSchedulerDecision) :
    Leads (On (Dequeued pid)) (On RunQueue) (applyDecision pid decision) := by
  have drop : Leads (On (Dequeued pid)) (On RunQueue)
      (self (·.dropClass pid) : Method (Fault String) Scheduling Unit) :=
    leads_self fun _ h => h.1.dropClass h.2
  refine leads_get_bind fun s h => ?_
  cases decision with
  | yield reductions =>
    refine leads_ite (P := On (Dequeued pid)) (Q := On RunQueue) (fun _ => ?_) (fun _ => ?_) s h
    · refine leads_weaken (fun _ h => h.runQueue) (keeps_bind ?_ fun _ => keeps_pure _)
      exact leads_attempt (keeps_enqueueUnchecked pid)
    · exact leads_bind drop (fun _ h => h) fun _ => keeps_pure _
  | block reductions => exact h.runQueue
  | exit reductions reason =>
    refine leads_bind (Q := On (Dequeued pid)) (R := On RunQueue) ?_ (fun _ h => h.runQueue)
      (fun _ => leads_bind drop (fun _ h => h) fun _ => keeps_pure _) s h
    exact leads_attempt (keeps_table _)

theorem keeps_recordRun (run : VmSchedulerRun) (enqueuedTick : UInt64)
    (preempted : Bool) : Keeps (On RunQueue)
      (self (recordRun pid run enqueuedTick preempted) : Method (Fault String) Scheduling Unit) :=
  leads_self fun _ h => h.congr rfl rfl rfl rfl

theorem leads_runDequeued (runSlice : RunSlice) (pid : VmProcessId) (enqueuedTick : UInt64) :
    Leads (On (Dequeued pid)) (On RunQueue) (runDequeued runSlice pid enqueuedTick) := by
  have weaker : ∀ s, On (Dequeued pid) s → On RunQueue s := fun _ h => h.runQueue
  refine leads_bind (Q := On (Dequeued pid)) ?_ weaker fun _ => leads_get_bind fun s h => ?_
  · exact leads_self fun _ h => ⟨h.1.congr rfl rfl rfl rfl, h.2⟩
  refine leads_bind (P := On (Dequeued pid)) (Q := On (Dequeued pid)) (R := On RunQueue)
    (leads_orReturn (keeps_table _)) weaker (fun token => ?_) s h
  refine leads_bind (Q := On (Dequeued pid)) (leads_orReturn (keeps_table _)) weaker fun _ => ?_
  refine leads_bind (Q := On (Dequeued pid)) (leads_orReturn (keeps_table _)) weaker ?_
  rintro ⟨decision, cancellationAtBoundary⟩
  refine leads_bind (Q := On (Dequeued pid)) (leads_orReturn (keeps_table _)) weaker
    fun released => ?_
  refine leads_ite (fun _ => ?_) fun _ => leads_ite (fun _ => ?_) fun _ => ?_
  · exact leads_bind (leads_cancelProcess pid _) (fun _ h => h) fun _ =>
      keeps_bind (keeps_recordRun _ _ _ _) fun _ => keeps_pure _
  · refine leads_weaken weaker ?_
    refine keeps_bind (leads_orReturn (keeps_table _)) fun _ =>
      keeps_bind (leads_orReturn (keeps_table _)) fun _ =>
        keeps_bind (leads_orReturn (keeps_enqueueUnchecked pid)) fun _ => ?_
    exact keeps_bind (keeps_recordRun _ _ _ _) fun _ => keeps_pure _
  · exact leads_bind (leads_applyDecision pid decision) (fun _ h => h) fun _ =>
      keeps_bind (keeps_recordRun _ _ _ _) fun _ => keeps_pure _

theorem keeps_runPolls (runSlice : RunSlice) (polls : Nat) :
    Keeps (On RunQueue) (runPolls runSlice polls) := by
  induction polls with
  | zero => exact keeps_get_bind fun _ => keeps_pure _
  | succ polls ih =>
    refine leads_get_bind fun s h => ?_
    obtain ⟨after, out⟩ := h.dequeue
    rw [call_bind]
    change On RunQueue (Method.call (match s.scheduler.dequeue.2 with
      | none => _
      | some (pid, enqueuedTick) => _) { s with scheduler := s.scheduler.dequeue.1 }).1
    split
    next => exact after
    next pid enqueuedTick entry =>
      have free : On (Dequeued pid) { s with scheduler := s.scheduler.dequeue.1 } :=
        ⟨after, out _ entry⟩
      split
      next => exact after
      next process _ =>
        refine leads_ite (P := On (Dequeued pid)) (Q := On RunQueue) (fun _ => ?_)
          (fun _ => leads_ite (fun _ => ?_) fun _ => leads_ite (fun _ => ?_) fun _ => ?_) _ free
        · exact leads_bind (Q := On RunQueue) (leads_self fun _ h => h.1.dropClass h.2)
            (fun _ h => h) fun _ => ih
        · exact leads_weaken (fun _ h => h.runQueue) ih
        · refine leads_bind (Q := On (Dequeued pid)) ?_ (fun _ h => h.runQueue) fun _ => ?_
          · exact leads_self fun _ h => ⟨h.1.congr rfl rfl rfl rfl, h.2⟩
          · exact leads_bind (leads_cancelProcess pid 0) (fun _ h => h) fun _ =>
              keeps_bind (keeps_recordRun _ _ _ _) fun _ => keeps_pure _
        · exact leads_runDequeued runSlice pid enqueuedTick

end Operations

/-! ## The claim over runs -/

/-- The process waits in the queue of another class, and can be marked as queued: registering
a fixed owner then gives it the normal class and leaves its entry behind. -/
def Strands (s : Scheduling) : Request → Prop
  | .registerFixedOwner pid => pid ∈ s.scheduler.queued ∧
      s.scheduler.classes[pid]? ≠ some .normal ∧
      ((markActorQueued pid).call s.processes).2 = .ok ()
  | _ => False

/-- Registering a fixed owner keeps the run queue except there. -/
theorem registerFixedOwner_runQueue_iff {s : Scheduling} (h : On RunQueue s) (pid : VmProcessId) :
    On RunQueue ((registerFixedOwner pid).call s).1 ↔ ¬ Strands s (.registerFixedOwner pid) := by
  unfold registerFixedOwner
  rw [call_bind]
  rcases marked : (table (markActorQueued pid) : Method String Scheduling Unit).call s with
    ⟨s', e | u⟩
  · have same : s'.scheduler = s.scheduler := by
      have := congrArg (·.1.scheduler) marked
      exact this.symm
    have failed : ((markActorQueued pid).call s.processes).2 = .error e := congrArg (·.2) marked
    refine iff_of_true (by rw [On, same]; exact h) ?_
    rintro ⟨_, _, ok⟩
    rw [failed] at ok
    cases ok
  · have same : s'.scheduler = s.scheduler := by
      have := congrArg (·.1.scheduler) marked
      exact this.symm
    have ok : ((markActorQueued pid).call s.processes).2 = .ok () := congrArg (·.2) marked
    change RunQueue (s'.scheduler.setClass pid .normal) ↔ _
    rw [same, h.setClass_iff]
    unfold Strands
    simp only [ok, and_true, not_and, not_not]

theorem call_runQueue {s : Scheduling} (request : Request) (h : On RunQueue s)
    (safe : ¬ Strands s request) : On RunQueue (call s request).1 := by
  unfold call
  cases request with
  | enqueueRunnable pid => exact leads_map (leads_orReturn (keeps_enqueueRunnable pid)) s h
  | enqueueRunnableWithClass pid class_ =>
    exact leads_map (leads_orReturn (keeps_enqueueRunnableWithClass pid class_)) s h
  | registerFixedOwner pid =>
    refine leads_map (P := fun t => t = s) (leads_orReturn ?_) s rfl
    rintro _ rfl
    exact (registerFixedOwner_runQueue_iff h pid).mpr safe
  | setProcessClass pid class_ =>
    exact leads_map (leads_orReturn (keeps_setProcessClass pid class_)) s h
  | wakeProcess pid => exact leads_map (leads_orReturn (keeps_wakeProcess pid)) s h
  | suspendProcess pid => exact leads_map (leads_orReturn (keeps_suspendProcess pid)) s h
  | hibernateProcess pid => exact leads_map (leads_orReturn (keeps_hibernateProcess pid)) s h
  | resumeProcess pid => exact leads_map (leads_orReturn (keeps_resumeProcess pid)) s h
  | requestCancellation pid =>
    exact leads_map (leads_orReturn (keeps_requestCancellation pid)) s h
  | chargeRuntimeReductions pid reductions =>
    exact leads_map (leads_orReturn (keeps_chargeRuntimeReductions pid reductions)) s h
  | chargeTerminalReductions pid reductions =>
    exact leads_map (leads_orReturn (keeps_chargeTerminalReductions pid reductions)) s h
  | chargeMemoryReductions pid logicalBytes =>
    exact leads_map (leads_orReturn (keeps_chargeMemoryReductions pid logicalBytes)) s h
  | forgetProcess pid => exact h.forgetProcess pid
  | reapProcessDiagnostics pid => exact (h.forgetProcess pid).congr rfl rfl rfl rfl
  | detachProcessPlacement pid =>
    obtain ⟨removed, out⟩ := h.removeQueued pid
    exact (removed.dropClass out).congr rfl rfl rfl rfl
  | importProcessPlacement transfer => exact leads_map (keeps_importProcessPlacement transfer) s h
  | dequeue => exact h.dequeue.1
  | runNext runSlice =>
    exact leads_map (keeps_get_bind fun _ => keeps_runPolls runSlice _) s h
  | borrow processes => exact h

/-- A scheduler without processes, next to a process table. -/
def start (config : VmSchedulerConfig) (owner : UInt64) (processes : VmProcessTable) :
    Scheduling :=
  ⟨.withOwner config owner, processes⟩

/-- In every run without a stranded entry, the queues hold the queued processes, each once
and in the queue of its class, and a removal leaves no entry behind. -/
theorem run_queue_invariant (config : VmSchedulerConfig) (owner : UInt64)
    (processes : VmProcessTable) (requests : List Request)
    (safe : Guarded call (fun s request => ¬ Strands s request) (start config owner processes)
      requests) :
    let scheduler := (replay call (start config owner processes) requests).1.scheduler
    RunQueue scheduler ∧ scheduler.queuedProcesses.Nodup ∧
      ∀ pid class_, pid ∉ (scheduler.removeQueued pid).queues class_ := by
  intro scheduler
  have h : RunQueue scheduler :=
    replay_invariant_of call (fun s request => ¬ Strands s request) (fun s _ => On RunQueue s)
      (fun s _ request safe h => call_runQueue request h safe) _ [] requests
      (RunQueue.new config owner) safe
  exact ⟨h, h.queuedProcesses_nodup, h.removeQueued_queues⟩

/-- A process table with one process. -/
def oneProcess : VmProcessTable :=
  ((VmProcessTable.spawnRoot ⟨"Main", "start", 0, none⟩).call .new).1

theorem run_queue_invariant_normal :
    let scheduler := (replay call (start (.new 100 64) 1 oneProcess)
      [.registerFixedOwner ⟨1⟩, .enqueueRunnable ⟨1⟩, .setProcessClass ⟨1⟩ .priority,
        .dequeue]).1.scheduler
    RunQueue scheduler ∧ scheduler.queuedProcesses.Nodup ∧
      ∀ pid class_, pid ∉ (scheduler.removeQueued pid).queues class_ :=
  run_queue_invariant (.new 100 64) 1 oneProcess
    [.registerFixedOwner ⟨1⟩, .enqueueRunnable ⟨1⟩, .setProcessClass ⟨1⟩ .priority, .dequeue]
    ⟨fun strands => ExtTreeSet.not_mem_empty strands.1, id, id, id, trivial⟩

/-- A priority process is registered with a fixed owner and keeps its entry. -/
def strandedRun : List Request :=
  [.enqueueRunnableWithClass ⟨1⟩ .priority, .registerFixedOwner ⟨1⟩]

theorem run_queue_invariant_fails :
    ¬ ∀ (config : VmSchedulerConfig) (owner : UInt64) (processes : VmProcessTable)
      (requests : List Request),
      let scheduler := (replay call (start config owner processes) requests).1.scheduler
      RunQueue scheduler ∧ scheduler.queuedProcesses.Nodup ∧
        ∀ pid class_, pid ∉ (scheduler.removeQueued pid).queues class_ := by
  intro every
  have stays := (every (.new 100 64) 1 oneProcess strandedRun).2.2 ⟨1⟩ .priority
  exact stays (by decide +kernel)

end Terlan.Scheduler
