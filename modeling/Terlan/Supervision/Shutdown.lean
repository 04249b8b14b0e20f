/-
  Graceful shutdown of supervised children: a queue of pending shutdowns with their timers, and
  the runtime that owns it beside the supervision system, the timers and the process table.
-/
import Terlan.Supervision.System
import Terlan.Timer

namespace Terlan.Supervision

open Terlan.Lib Terlan.ActorDirectory Terlan.Process Terlan.TermFormat
open Terlan.Timer (VmTimerId VmTimerTable VmTimerEvent Timing startOneShot)
open Std (ExtTreeMap TransOrd LawfulEqOrd)

instance : Ord (VmSupervisorId × String) := lexOrd

instance : TransOrd (VmSupervisorId × String) :=
  inferInstanceAs (@TransOrd (VmSupervisorId × String) lexOrd)

instance : LawfulEqOrd (VmSupervisorId × String) :=
  inferInstanceAs (@LawfulEqOrd (VmSupervisorId × String) lexOrd)

/-! ## Data -/

structure VmPendingSupervisionShutdown where
  supervisorId : VmSupervisorId
  childId : String
  pid : VmProcessId
  timeoutMs : UInt64

structure VmScheduledSupervisionShutdown where
  timerId : VmTimerId
  childId : String
  pid : VmProcessId
  deadlineTick : UInt64
  timeoutMs : UInt64

inductive VmInternalSupervisionShutdownStart where
  | immediate (restart : VmSupervisionRestart)
  | waiting (scheduled : VmScheduledSupervisionShutdown)

inductive VmSupervisionShutdownCompletion where
  | exited (timerId : VmTimerId) (reason : VmExitReason) (restart : VmSupervisionRestart)
  | timedOut (timerId : VmTimerId) (pid : VmProcessId) (timeoutMs : UInt64)
      (restart : VmSupervisionRestart)
  | cancelled (timerId : VmTimerId) (pid : VmProcessId)
  | timerOwnerExited (timerId : VmTimerId) (pid : VmProcessId)
  | stale (timerId : VmTimerId) (expectedPid currentPid : VmProcessId)

structure VmSupervisionShutdownAdvance where
  timerEvents : List VmTimerEvent
  completions : List VmSupervisionShutdownCompletion
  unhandledTimerEvents : List VmTimerEvent

structure VmSupervisionShutdownQueue where
  timerOwner : Option VmProcessId
  pending : ExtTreeMap VmTimerId VmPendingSupervisionShutdown
  pendingChildren : ExtTreeMap (VmSupervisorId × String) VmTimerId

def VmSupervisionShutdownQueue.new : VmSupervisionShutdownQueue := ⟨none, ∅, ∅⟩

/-- `shutdown_timers`, the scheduler and the process table are in `timing`. -/
structure VmSupervisionRuntime where
  system : VmSupervisionSystem
  shutdown : VmSupervisionShutdownQueue
  timing : Timing

abbrev RuntimeM (α : Type) := Method (Fault String) VmSupervisionRuntime α

namespace VmSupervisionRuntime

def processes (s : VmSupervisionRuntime) : VmProcessTable := s.timing.scheduling.processes

def withProcesses (s : VmSupervisionRuntime) (processes : VmProcessTable) : VmSupervisionRuntime :=
  { s with timing.scheduling.processes := processes }

def supervised (s : VmSupervisionRuntime) : Supervised := ⟨s.system, s.processes⟩

/-- Methods of the parts that the runtime lends out. -/
def onSupervised {α : Type} (m : SupervisedM α) : RuntimeM α :=
  m.within supervised fun part s => { s with system := part.system }.withProcesses part.processes

def onProcesses {α : Type} (m : Method (Fault String) VmProcessTable α) : RuntimeM α :=
  m.within processes fun processes s => s.withProcesses processes

def onTiming {α : Type} (m : Method (Fault String) Timing α) : RuntimeM α :=
  m.within (·.timing) fun timing s => { s with timing }

def cancelTimer (timerId : VmTimerId) : RuntimeM VmTimerEvent :=
  onTiming (.ofCall fun timing =>
    let result := timing.timers.cancel timerId
    ({ timing with timers := result.1 }, result.2.mapError .returned))

def modifyShutdown (f : VmSupervisionShutdownQueue → VmSupervisionShutdownQueue) : RuntimeM Unit :=
  modify fun s => { s with shutdown := f s.shutdown }

end VmSupervisionRuntime

open VmSupervisionRuntime (onSupervised onProcesses onTiming cancelTimer modifyShutdown)

/-! ## The queue -/

def childShutdownConfig (supervision : VmSupervisionSystem) (supervisorId : VmSupervisorId)
    (childId : String) : Except (Fault String) (VmProcessId × Option UInt64) :=
  match supervision.supervisors[supervisorId]? with
  | none => .error (.returned (VmSupervisionSystem.missingSupervisor supervisorId))
  | some supervisor =>
    match supervisor.children[childId]? with
    | none => .error (.returned s!"missing child `{childId}`")
    | some child => .ok (child.pid, child.spec.shutdownTimeout)

def childPid (supervision : VmSupervisionSystem) (supervisorId : VmSupervisorId)
    (childId : String) : Except (Fault String) VmProcessId :=
  (childShutdownConfig supervision supervisorId childId).map Prod.fst

def shutdownMessage (timeoutMs : UInt64) : ReplValue :=
  .tuple [.atom "shutdown", .int (Int64.ofNat (min timeoutMs.toNat (2 ^ 63 - 1)))]

def processState (processes : VmProcessTable) (pid : VmProcessId) :
    Except (Fault String) VmProcessState :=
  match processes.get pid with
  | none => .error (.returned s!"missing process {pid.value}")
  | some process => .ok process.state

/-- The reason that the process of a pending shutdown exited with. -/
def exitReason (processes : VmProcessTable) (childId : String) (pid : VmProcessId) :
    Except (Fault String) VmExitReason := do
  let state ← processState processes pid
  match state with
  | .exited reason => .ok reason
  | _ => .error (.returned s!"child `{childId}` has not exited")

namespace VmSupervisionShutdownQueue

/-- A live process that owns the timers, or a new one. -/
def liveTimerOwner : RuntimeM VmProcessId := do
  let s ← get
  match s.shutdown.timerOwner.filter fun owner =>
    (s.processes.get owner).any (¬ ·.state.isExited) with
  | some owner => return owner
  | none => do
    let owner ← onProcesses
      (VmProcessTable.spawnRoot ⟨"runtime.SupervisionShutdown", "wait", 0, none⟩)
    modifyShutdown fun queue => { queue with timerOwner := some owner }
    return owner

/-- A shutdown that waits for its deadline. -/
def scheduleShutdown (supervisorId : VmSupervisorId) (childId : String) (pid : VmProcessId)
    (timeoutMs deadlineTick : UInt64) : RuntimeM VmInternalSupervisionShutdownStart := do
  let owner ← liveTimerOwner
  let timerId ← onTiming (startOneShot owner deadlineTick)
  let sent ← (onProcesses (VmProcessTable.sendSystemMessage owner pid
    (shutdownMessage timeoutMs)).orReturn).attempt
  match sent with
  | .error error => do
    let _ ← (cancelTimer timerId).attempt
    throw error
  | .ok _ => do
    modifyShutdown fun queue =>
      { queue with
        pending := queue.pending.insert timerId ⟨supervisorId, childId, pid, timeoutMs⟩
        pendingChildren := queue.pendingChildren.insert (supervisorId, childId) timerId }
    return .waiting ⟨timerId, childId, pid, deadlineTick, timeoutMs⟩

def beginShutdown (supervisorId : VmSupervisorId) (childId : String)
    (immediateReason : VmExitReason) (nowTick : UInt64) :
    RuntimeM VmInternalSupervisionShutdownStart := do
  let s ← get
  let (pid, timeoutMs) ← liftM (childShutdownConfig s.system supervisorId childId)
  let state ← liftM (processState s.processes pid)
  match state with
  | .exited reason => do
    let restart ← onSupervised (Supervised.restartChild supervisorId childId reason)
    return .immediate restart
  | _ =>
    match timeoutMs.filter (0 < ·) with
    | none => do
      let restart ← onSupervised (Supervised.restartChild supervisorId childId immediateReason)
      return .immediate restart
    | some timeoutMs =>
      match checkedAdd nowTick timeoutMs with
      | none => throw (.returned (s!"supervision shutdown deadline overflow for child "
          ++ s!"`{childId}` at tick {nowTick}"))
      | some deadlineTick =>
        match s.shutdown.pendingChildren[(supervisorId, childId)]? with
        | some timerId => throw (.returned (s!"supervision shutdown for child `{childId}` "
            ++ s!"is already pending on timer {timerId.value}"))
        | none => scheduleShutdown supervisorId childId pid timeoutMs deadlineTick

def removePending (queue : VmSupervisionShutdownQueue) (timerId : VmTimerId)
    (pending : VmPendingSupervisionShutdown) : VmSupervisionShutdownQueue :=
  { queue with
    pending := queue.pending.erase timerId
    pendingChildren := queue.pendingChildren.erase (pending.supervisorId, pending.childId) }

/-- Completes a pending shutdown after the child has exited. -/
def completeShutdown (supervisorId : VmSupervisorId) (childId : String) :
    RuntimeM VmSupervisionShutdownCompletion := do
  let s ← get
  match s.shutdown.pendingChildren[(supervisorId, childId)]? with
  | none => throw (.returned s!"no supervision shutdown is pending for child `{childId}`")
  | some timerId =>
    match s.shutdown.pending[timerId]? with
    | none => throw (.panicked "pending child index references a shutdown intent")
    | some pending => do
      let reason ← liftM (exitReason s.processes childId pending.pid)
      let _ ← cancelTimer timerId
      modifyShutdown fun queue => queue.removePending timerId pending
      let restart ← onSupervised
        (Supervised.restartChild pending.supervisorId pending.childId reason)
      return .exited timerId reason restart

/-- The deadline of a pending shutdown is due. -/
def expireShutdown (timerId : VmTimerId) (pending : VmPendingSupervisionShutdown) :
    RuntimeM VmSupervisionShutdownCompletion := do
  let s ← get
  let currentPid ← liftM (childPid s.system pending.supervisorId pending.childId)
  if currentPid ≠ pending.pid then return .stale timerId pending.pid currentPid
  else
    match exitReason s.processes pending.childId pending.pid with
    | .ok reason => do
      let restart ← onSupervised
        (Supervised.restartChild pending.supervisorId pending.childId reason)
      return .exited timerId reason restart
    | .error _ => do
      let reason := VmExitReason.shutdownTimeout pending.timeoutMs
      let _ ← onProcesses (VmProcessTable.exitProcess pending.pid reason).orReturn
      let restart ← onSupervised
        (Supervised.restartChild pending.supervisorId pending.childId reason)
      return .timedOut timerId pending.pid pending.timeoutMs restart

def handleTimerEvent (event : VmTimerEvent) :
    RuntimeM (Option VmSupervisionShutdownCompletion) := do
  let s ← get
  let timerId := event.timerId
  match s.shutdown.pending[timerId]? with
  | none => return none
  | some pending => do
    modifyShutdown fun queue => queue.removePending timerId pending
    match event with
    | .cancelled _ _ _ => return some (.cancelled timerId pending.pid)
    | .ownerExited _ _ _ => return some (.timerOwnerExited timerId pending.pid)
    | .fired _ _ _ => some <$> expireShutdown timerId pending
    | .deadlineMissed _ _ _ _ => some <$> expireShutdown timerId pending
    | _ => throw (.returned (s!"one-shot supervision shutdown timer {timerId.value} emitted an "
        ++ "interval-only outcome"))

def handleTimerEvents : List VmTimerEvent →
    RuntimeM (List VmSupervisionShutdownCompletion × List VmTimerEvent)
  | [] => return ([], [])
  | event :: events => do
    let completion ← handleTimerEvent event
    let (completions, unhandled) ← handleTimerEvents events
    match completion with
    | some completion => return (completion :: completions, unhandled)
    | none => return (completions, event :: unhandled)

def advanceClock (nowTick : UInt64) : RuntimeM VmSupervisionShutdownAdvance := do
  let timerEvents ← onTiming (.ofCall fun timing =>
    let result := Timer.advanceClock timing nowTick
    (result.1, .ok result.2))
  let (completions, unhandledTimerEvents) ← handleTimerEvents timerEvents
  return { timerEvents, completions, unhandledTimerEvents }

end VmSupervisionShutdownQueue

/-! ## The runtime -/

namespace VmSupervisionRuntime

def beginShutdown (supervisorId : VmSupervisorId) (childId : String) (nowTick : UInt64) :
    RuntimeM VmInternalSupervisionShutdownStart :=
  VmSupervisionShutdownQueue.beginShutdown supervisorId childId .killed nowTick

def completeShutdown (supervisorId : VmSupervisorId) (childId : String) :
    RuntimeM VmSupervisionShutdownCompletion := do
  let s ← get
  let pid ← liftM (childPid s.system supervisorId childId)
  let _ ← onProcesses (VmProcessTable.exitProcess pid .normal).orReturn
  VmSupervisionShutdownQueue.completeShutdown supervisorId childId

def advanceShutdownClock (nowTick : UInt64) : RuntimeM VmSupervisionShutdownAdvance :=
  VmSupervisionShutdownQueue.advanceClock nowTick

def restartNow (supervisorId : VmSupervisorId) (childId : String) (reason : String) :
    RuntimeM VmSupervisionRestart :=
  onSupervised (Supervised.restartChild supervisorId childId (.error reason))

end VmSupervisionRuntime

end Terlan.Supervision
